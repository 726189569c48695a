import ContentSpace.CanonicalText.Reader

/-!
# Runs of readers

A run of a reader gives what was taken and the text after it, or the refusal. That this text ends
the source is part of the reader and not of the run, so the run of a compound reader falls into runs
of its parts, in order, with each part reading what the one before it left.
-/

namespace ContentSpace.CanonicalText

variable {α β : Type} {source : List Char}

/-- What was taken and the text after it. -/
def run (outcome : Except Refusal (Taken α source)) : Except Refusal (α × List Char) :=
  outcome.map fun taken => (taken.value, taken.rest)

/-- A value that was taken is left with the text after it. -/
@[simp] theorem run_ok (taken : Taken α source) : run (.ok taken) = .ok (taken.value, taken.rest) :=
  rfl

/-- A refusal stays the same refusal. -/
@[simp] theorem run_error (refusal : Refusal) :
    run (.error refusal : Except Refusal (Taken α source)) = .error refusal :=
  rfl

/-- What was taken is changed by a function, and the text after it is left as it is. -/
theorem run_map (f : α → β) {wider : List Char} {change : Taken α source → Taken β wider}
    (values : ∀ taken, (change taken).value = f taken.value)
    (rests : ∀ taken, (change taken).rest = taken.rest)
    (outcome : Except Refusal (Taken α source)) :
    run (outcome.map change) = (run outcome).map fun taken => (f taken.1, taken.2) := by
  cases outcome with
  | error refusal => rfl
  | ok taken => simp [run, Except.map, values, rests]

/-- What follows a reader goes on with what it took and left. -/
theorem run_bind {outcome : Except Refusal (Taken α source)} {wider : List Char}
    {next : Taken α source → Except Refusal (Taken β wider)}
    {later : α × List Char → Except Refusal (β × List Char)}
    (same : ∀ taken, run (next taken) = later (taken.value, taken.rest)) :
    run (outcome >>= next) = run outcome >>= later := by
  cases outcome with
  | error refusal => rfl
  | ok taken => exact same taken

variable {limit depth : Nat} {opening : List Char}

/-- Text is read character by character up to its closing quote. -/
theorem run_readChars :
    run (readChars opening depth source) =
      match source with
      | [] => .error ⟨.unterminatedString, opening, [], depth⟩
      | c :: rest =>
        if c = quote then .ok ([], rest)
        else if c = escape then
          match rest with
          | [] => .error ⟨.unterminatedString, opening, [], depth⟩
          | d :: rest =>
            if d = quote ∨ d = escape then
              (run (readChars opening depth rest)).map fun taken => (d :: taken.1, taken.2)
            else .error ⟨.invalidEscape, c :: d :: rest, rest, depth⟩
        else (run (readChars opening depth rest)).map fun taken => (c :: taken.1, taken.2) := by
  rw [readChars.eq_def]
  cases source with
  | nil => rfl
  | cons c rest =>
    dsimp only
    split
    · rfl
    split
    · cases rest with
      | nil => rfl
      | cons d rest =>
        dsimp only
        split
        · refine run_map (d :: ·) ?_ ?_ _ <;> exact fun _ => rfl
        · rfl
    · refine run_map (c :: ·) ?_ ?_ _ <;> exact fun _ => rfl

/-- A string is the text of its characters. -/
theorem run_readString :
    run (readString opening depth source) =
      (run (readChars opening depth source)).map fun taken => (String.ofList taken.1, taken.2) :=
  run_map String.ofList (fun _ => rfl) (fun _ => rfl) _

/-- A number is read up to its end mark, if there is one. -/
theorem run_readNumber :
    run (readNumber depth source) =
      match source.dropWhile (· != numberEnd) with
      | [] => .error ⟨.unterminatedNumber, source, source, depth⟩
      | _ :: rest => .ok (source.takeWhile (· != numberEnd), rest) := by
  unfold readNumber
  dsimp only
  split <;> rename_i found <;> simp [found]

/-- An integer is a number in its canonical form that fits. -/
theorem run_readInteger :
    run (readInteger depth source) = run (readNumber depth source) >>= fun taken =>
      if isCanonicalInteger taken.1 then
        if Int64.minValue.toInt ≤ integerValue taken.1 ∧
            integerValue taken.1 ≤ Int64.maxValue.toInt then
          .ok (.int (Int64.ofInt (integerValue taken.1)), taken.2)
        else .error ⟨.integerOutOfRange (String.ofList taken.1), source, taken.2, depth⟩
      else .error ⟨.nonCanonicalInteger (String.ofList taken.1), source, taken.2, depth⟩ := by
  refine run_bind fun taken => ?_
  dsimp only
  split
  · split <;> rfl
  · rfl

/-- A double is a number in the form it is written with. -/
theorem run_readFloat :
    run (readFloat depth source) = run (readNumber depth source) >>= fun taken =>
      match (Double.ofText? taken.1).filter fun x => x.text == taken.1 with
      | some x => .ok (.float x, taken.2)
      | none => .error ⟨.malformedFloat (String.ofList taken.1), source, taken.2, depth⟩ := by
  refine run_bind fun taken => ?_
  dsimp only
  generalize (Double.ofText? taken.value).filter (fun x => x.text == taken.value) = found
  cases found <;> rfl

/-- A value is read from its first character on. -/
theorem run_readValue :
    run (readValue limit depth source) =
      match source with
      | [] => .error ⟨.endOfText, [], [], depth⟩
      | c :: rest => run (readFrom limit depth c rest) := by
  cases source with
  | nil => rfl
  | cons c rest =>
    show run ((readFrom limit depth c rest).map Taken.skip) = run (readFrom limit depth c rest)
    cases readFrom limit depth c rest <;> rfl

/-- What the first character of a value says about the rest of it. -/
theorem run_readFrom {first : Char} :
    run (readFrom limit depth first source) =
      if first = nullMark then .ok (.null, source)
      else if first = trueMark then .ok (.bool true, source)
      else if first = falseMark then .ok (.bool false, source)
      else if first = intMark then run (readInteger depth source)
      else if first = floatMark then run (readFloat depth source)
      else if first = quote then
        (run (readString (first :: source) depth source)).map fun taken =>
          (.string taken.1, taken.2)
      else if first = arrayOpen then
        enter limit depth (first :: source) source >>= fun inner =>
          (run (readItems limit inner source)).map fun taken => (.array taken.1, taken.2)
      else if first = objectOpen then
        enter limit depth (first :: source) source >>= fun inner =>
          (run (readFields limit inner none source)).map fun taken => (.object taken.1, taken.2)
      else .error ⟨.unexpected first, first :: source, source, depth⟩ := by
  rw [readFrom]
  split
  · rfl
  split
  · rfl
  split
  · rfl
  split
  · rfl
  split
  · rfl
  split
  · exact run_map Value.string (fun _ => rfl) (fun _ => rfl) _
  split
  · cases enter limit depth (first :: source) source with
    | error refusal => rfl
    | ok inner => exact run_map Value.array (fun _ => rfl) (fun _ => rfl) _
  split
  · cases enter limit depth (first :: source) source with
    | error refusal => rfl
    | ok inner => exact run_map Value.object (fun _ => rfl) (fun _ => rfl) _
  · rfl

/-- Items are read as values until the closing mark comes next. -/
theorem run_readItems :
    run (readItems limit depth source) =
      if source.head? = some arrayClose then .ok ([], source.tail)
      else run (readValue limit depth source) >>= fun item =>
        run (readItems limit depth item.2) >>= fun others =>
          .ok (item.1 :: others.1, others.2) := by
  cases source with
  | nil =>
    rw [readItems]
    rfl
  | cons c rest =>
    rw [readItems, run_readValue]
    simp only [List.head?_cons, Option.some.injEq, List.tail_cons]
    split
    · rfl
    · refine run_bind fun item => ?_
      exact run_bind fun others => rfl

/-- Fields are read, each a name and a value, until the closing mark comes next. -/
theorem run_readFields {previous : Option String} :
    run (readFields limit depth previous source) =
      match source with
      | [] => .error ⟨.endOfText, [], [], depth⟩
      | c :: rest =>
        if c = objectClose then .ok ([], rest)
        else if c = quote then
          run (readString (c :: rest) depth rest) >>= fun name =>
            if previous.any fun earlier => name.1 ≤ earlier then
              .error ⟨.unsortedKeys, c :: rest, name.2, depth⟩
            else run (readValue limit depth name.2) >>= fun item =>
              run (readFields limit depth (some name.1) item.2) >>= fun others =>
                .ok ((name.1, item.1) :: others.1, others.2)
        else .error ⟨.expectedKey, c :: rest, c :: rest, depth⟩ := by
  cases source with
  | nil =>
    rw [readFields]
    rfl
  | cons c rest =>
    rw [readFields]
    dsimp only
    split
    · rfl
    split
    · refine run_bind fun name => ?_
      obtain ⟨name, more, suffix⟩ := name
      dsimp only
      split
      · rfl
      · cases more with
        | nil => rfl
        | cons d more =>
          rw [run_readValue]
          refine run_bind fun item => ?_
          exact run_bind fun others => rfl
    · rfl

end ContentSpace.CanonicalText

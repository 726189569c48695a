import ContentSpace.Proofs.CanonicalText.Run

/-!
# Where refusals point

A refusal blames a place that reading had reached: the place lies in the text that the reader was
given, and the text left unread begins there or later. A value always takes its first character, so
a refused value leaves less text than there was.
-/

namespace ContentSpace.CanonicalText

variable {α β : Type} {limit depth : Nat} {opening source : List Char} {refusal : Refusal}

/-- What a reader leaves ends its source. -/
theorem suffix_of_run {outcome : Except Refusal (Taken α source)} {value : α} {rest : List Char}
    (ran : run outcome = .ok (value, rest)) : rest <:+ source := by
  cases outcome with
  | error refusal => cases ran
  | ok taken =>
    cases ran
    exact taken.suffix

/-- A value consists of its first character at least. -/
theorem length_of_run_readValue {value : Value} {rest : List Char}
    (ran : run (readValue limit depth source) = .ok (value, rest)) :
    rest.length < source.length := by
  rw [run_readValue] at ran
  split at ran
  · cases ran
  · exact Nat.lt_succ_of_le (suffix_of_run ran).length_le

/-- Two readers in a row are refused in the first or in the second. -/
theorem bind_eq_error {outcome : Except Refusal α} {next : α → Except Refusal β}
    (refused : outcome >>= next = .error refusal) :
    outcome = .error refusal ∨ ∃ taken, outcome = .ok taken ∧ next taken = .error refusal := by
  cases outcome with
  | error other => exact .inl (by cases refused; rfl)
  | ok taken => exact .inr ⟨taken, rfl, refused⟩

/-- A function of what was taken does not change a refusal. -/
theorem map_eq_error {outcome : Except Refusal α} {f : α → β}
    (refused : outcome.map f = .error refusal) : outcome = .error refusal := by
  cases outcome with
  | error other =>
    cases refused
    rfl
  | ok taken => cases refused

/-- A refusal blames a place in a text, leaves no more than begins there, and no more than a source
has. -/
structure Refusal.Within (refusal : Refusal) (text source : List Char) : Prop where
  /-- The place is one of the text. -/
  blamed : refusal.blamed <:+ text
  /-- What is left begins there or later. -/
  unread : refusal.unread <:+ refusal.blamed
  /-- What is left belongs to the source. -/
  left : refusal.unread <:+ source

/-- A refusal within a part of a text is one within the text. -/
theorem Refusal.Within.mono {text wider less more : List Char} (within : refusal.Within text less)
    (part : text <:+ wider) (partToo : less <:+ more) : refusal.Within wider more :=
  ⟨within.blamed.trans part, within.unread, within.left.trans partToo⟩

/-- Text without an end is blamed at its opening quote, a needless escape at its mark. -/
theorem within_readChars (part : source <:+ opening)
    (refused : run (readChars opening depth source) = .error refusal) :
    refusal.Within opening source := by
  induction size : source.length using Nat.strongRecOn generalizing source refusal with
  | ind size ih =>
    rw [run_readChars] at refused
    split at refused
    · cases refused
      exact ⟨List.suffix_rfl, List.nil_suffix, List.nil_suffix⟩
    next c rest =>
      have tail : rest <:+ c :: rest := List.suffix_cons c rest
      split at refused
      · cases refused
      split at refused
      · split at refused
        · cases refused
          exact ⟨List.suffix_rfl, List.nil_suffix, List.nil_suffix⟩
        next d rest =>
          have after : rest <:+ c :: d :: rest := (List.suffix_cons d rest).trans tail
          split at refused
          · have inner := ih rest.length (by simp at size; omega) (after.trans part)
              (map_eq_error refused) rfl
            exact inner.mono List.suffix_rfl after
          · cases refused
            exact ⟨part, after, after⟩
      · have inner := ih rest.length (by simp at size; omega) (tail.trans part)
          (map_eq_error refused) rfl
        exact inner.mono List.suffix_rfl tail

/-- A string is refused for its characters. -/
theorem within_readString (part : source <:+ opening)
    (refused : run (readString opening depth source) = .error refusal) :
    refusal.Within opening source := by
  rw [run_readString] at refused
  exact within_readChars part (map_eq_error refused)

/-- A number without an end is blamed where it begins. -/
theorem within_readNumber (refused : run (readNumber depth source) = .error refusal) :
    refusal.Within source source := by
  rw [run_readNumber] at refused
  split at refused
  · cases refused
    exact ⟨List.suffix_rfl, List.suffix_rfl, List.suffix_rfl⟩
  · cases refused

/-- A refusal that blames the source of a reader leaves what the reader left. -/
theorem within_of_run {outcome : Except Refusal (Taken α source)} {taken : α × List Char}
    {defect : Defect} (ran : run outcome = .ok taken)
    (refused : refusal = ⟨defect, source, taken.2, depth⟩) : refusal.Within source source := by
  have suffix : taken.2 <:+ source := suffix_of_run ran
  subst refused
  exact ⟨List.suffix_rfl, suffix, suffix⟩

/-- An integer is blamed where its digits begin. -/
theorem within_readInteger (refused : run (readInteger depth source) = .error refusal) :
    refusal.Within source source := by
  rw [run_readInteger] at refused
  rcases bind_eq_error refused with number | ⟨taken, ran, refused⟩
  · exact within_readNumber number
  · split at refused
    · split at refused
      · cases refused
      · exact within_of_run ran (Except.error.inj refused).symm
    · exact within_of_run ran (Except.error.inj refused).symm

/-- A double is blamed where its digits begin. -/
theorem within_readFloat (refused : run (readFloat depth source) = .error refusal) :
    refusal.Within source source := by
  rw [run_readFloat] at refused
  rcases bind_eq_error refused with number | ⟨taken, ran, refused⟩
  · exact within_readNumber number
  · split at refused
    · cases refused
    · exact within_of_run ran (Except.error.inj refused).symm

/-- What lies deeper than allowed is blamed at its opening mark. -/
theorem within_enter {first : Char}
    (refused : enter limit depth (first :: source) source = .error refusal) :
    refusal.Within (first :: source) source := by
  unfold enter at refused
  split at refused
  · cases refused
  · cases refused
    exact ⟨List.suffix_rfl, List.suffix_cons first source, List.suffix_rfl⟩

mutual

/-- A value is blamed at its first character or later, and leaves less than began there. -/
theorem within_readFrom {first : Char} {source : List Char} {depth : Nat} {refusal : Refusal}
    (refused : run (readFrom limit depth first source) = .error refusal) :
    refusal.Within (first :: source) source := by
  have tail : source <:+ first :: source := List.suffix_cons first source
  rw [run_readFrom] at refused
  -- One case for each mark that starts a value.
  split at refused
  · cases refused
  split at refused
  · cases refused
  split at refused
  · cases refused
  split at refused
  · exact (within_readInteger refused).mono tail List.suffix_rfl
  split at refused
  · exact (within_readFloat refused).mono tail List.suffix_rfl
  split at refused
  · exact within_readString tail (map_eq_error refused)
  split at refused
  · rcases bind_eq_error refused with deep | ⟨inner, -, refused⟩
    · exact within_enter deep
    · exact (within_readItems (map_eq_error refused)).mono tail List.suffix_rfl
  split at refused
  · rcases bind_eq_error refused with deep | ⟨inner, -, refused⟩
    · exact within_enter deep
    · exact (within_readFields (map_eq_error refused)).mono tail List.suffix_rfl
  · cases refused
    exact ⟨List.suffix_rfl, tail, List.suffix_rfl⟩
termination_by (source.length, 2)

/-- A value is blamed somewhere in its source. -/
theorem within_readValue {source : List Char} {depth : Nat} {refusal : Refusal}
    (refused : run (readValue limit depth source) = .error refusal) :
    refusal.Within source source := by
  match source with
  | [] =>
    cases refused
    exact ⟨List.suffix_rfl, List.suffix_rfl, List.suffix_rfl⟩
  | c :: rest =>
    rw [run_readValue] at refused
    exact (within_readFrom refused).mono List.suffix_rfl (List.suffix_cons c rest)
termination_by (source.length, 0)

/-- Items are blamed somewhere in their source. -/
theorem within_readItems {source : List Char} {depth : Nat} {refusal : Refusal}
    (refused : run (readItems limit depth source) = .error refusal) :
    refusal.Within source source := by
  rw [run_readItems] at refused
  split at refused
  · cases refused
  · rcases bind_eq_error refused with first | ⟨item, ran, refused⟩
    · exact within_readValue first
    · rcases bind_eq_error refused with later | ⟨others, -, refused⟩
      · have suffix := suffix_of_run ran
        have shorter := length_of_run_readValue ran
        exact (within_readItems later).mono suffix suffix
      · cases refused
termination_by (source.length, 1)

/-- Fields are blamed somewhere in their source. -/
theorem within_readFields {source : List Char} {depth : Nat} {refusal : Refusal}
    {previous : Option String}
    (refused : run (readFields limit depth previous source) = .error refusal) :
    refusal.Within source source := by
  match source with
  | [] =>
    rw [run_readFields] at refused
    cases refused
    exact ⟨List.suffix_rfl, List.suffix_rfl, List.suffix_rfl⟩
  | c :: rest =>
    rw [run_readFields] at refused
    dsimp only at refused
    have tail : rest <:+ c :: rest := List.suffix_cons c rest
    split at refused
    · cases refused
    split at refused
    · rcases bind_eq_error refused with inName | ⟨name, ranName, refused⟩
      · exact (within_readString tail inName).mono List.suffix_rfl tail
      have named : name.2 <:+ rest := suffix_of_run ranName
      have shorter := named.length_le
      split at refused
      · cases refused
        exact ⟨List.suffix_rfl, named.trans tail, named.trans tail⟩
      rcases bind_eq_error refused with first | ⟨item, ran, refused⟩
      · exact (within_readValue first).mono (named.trans tail) (named.trans tail)
      rcases bind_eq_error refused with later | ⟨others, -, refused⟩
      · have suffix := (suffix_of_run ran).trans (named.trans tail)
        have shorterToo := length_of_run_readValue ran
        exact (within_readFields later).mono suffix suffix
      · cases refused
    · cases refused
      exact ⟨List.suffix_rfl, List.suffix_rfl, List.suffix_rfl⟩
termination_by (source.length, 1)
decreasing_by
  all_goals simp only [List.length_cons, Prod.lex_def]; omega

end

end ContentSpace.CanonicalText

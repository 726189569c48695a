import ContentSpace.CanonicalText.Reader

/-!
# Outcomes of reading

Reading from the front of a text either takes a value and leaves a rest, or is refused for a defect.
The two predicates here leave out what the laws of reading do not depend on: the proof that the rest
ends the text, and the places a refusal names. Each way to build a reader from smaller ones has a
lemma that says what the whole comes to in terms of its parts.
-/

namespace ContentSpace.CanonicalText

variable {α β : Type} {source : List Char}

/-- A value was read and a rest was left. -/
def Reads (outcome : Except Refusal (Taken α source)) (value : α) (rest : List Char) : Prop :=
  ∃ suffix, outcome = .ok ⟨value, rest, suffix⟩

/-- Nothing was read because of a defect. -/
def Refuses (outcome : Except Refusal α) (defect : Defect) : Prop :=
  ∃ refusal, outcome = .error refusal ∧ refusal.defect = defect

/-- What was taken is what was read. -/
@[simp] theorem reads_ok {taken : Taken α source} {value : α} {rest : List Char} :
    Reads (.ok taken) value rest ↔ taken.value = value ∧ taken.rest = rest := by
  constructor
  · rintro ⟨suffix, same⟩
    cases same
    exact ⟨rfl, rfl⟩
  · rintro ⟨rfl, rfl⟩
    exact ⟨taken.suffix, rfl⟩

/-- A refusal reads nothing. -/
@[simp] theorem not_reads_error {refusal : Refusal} {value : α} {rest : List Char} :
    ¬ Reads (.error refusal : Except Refusal (Taken α source)) value rest := by
  rintro ⟨suffix, same⟩
  cases same

/-- What was taken is no refusal. -/
@[simp] theorem not_refuses_ok {result : α} {defect : Defect} :
    ¬ Refuses (.ok result) defect := by
  rintro ⟨refusal, same, -⟩
  cases same

/-- A refusal refuses for its defect. -/
@[simp] theorem refuses_error {refusal : Refusal} {defect : Defect} :
    Refuses (.error refusal : Except Refusal α) defect ↔ refusal.defect = defect := by
  constructor
  · rintro ⟨_, same, found⟩
    cases same
    exact found
  · exact fun found => ⟨refusal, rfl, found⟩

/-- A value that was read is changed by a function, and the rest is left as it is. -/
theorem reads_map (f : α → β) {wider : List Char} {change : Taken α source → Taken β wider}
    {outcome : Except Refusal (Taken α source)} {value : β} {rest : List Char}
    (values : ∀ taken, (change taken).value = f taken.value)
    (rests : ∀ taken, (change taken).rest = taken.rest) :
    Reads (outcome.map change) value rest ↔ ∃ inner, Reads outcome inner rest ∧ f inner = value := by
  cases outcome with
  | error refusal => simp [Except.map]
  | ok taken =>
    simp only [Except.map, reads_ok, values, rests]
    constructor
    · rintro ⟨same, left⟩
      exact ⟨taken.value, ⟨rfl, left⟩, same⟩
    · rintro ⟨inner, ⟨rfl, left⟩, same⟩
      exact ⟨same, left⟩

/-- A function of what was read does not change why it was refused. -/
@[simp] theorem refuses_map {f : α → β} {outcome : Except Refusal α} {defect : Defect} :
    Refuses (outcome.map f) defect ↔ Refuses outcome defect := by
  cases outcome with
  | error refusal => simp [Except.map]
  | ok taken => simp [Except.map]

/-- Two readers in a row read when the second reads what the first leaves. -/
theorem reads_bind {outcome : Except Refusal α} {next : α → Except Refusal (Taken β source)}
    {value : β} {rest : List Char} :
    Reads (outcome >>= next) value rest ↔
      ∃ result, outcome = .ok result ∧ Reads (next result) value rest := by
  cases outcome with
  | error refusal => simp [bind, Except.bind]
  | ok result => simp [bind, Except.bind]

/-- Two readers in a row refuse when one of them does. -/
theorem refuses_bind {outcome : Except Refusal α} {next : α → Except Refusal β}
    {defect : Defect} :
    Refuses (outcome >>= next) defect ↔
      Refuses outcome defect ∨ ∃ result, outcome = .ok result ∧ Refuses (next result) defect := by
  cases outcome with
  | error refusal => simp [bind, Except.bind]
  | ok result => simp [bind, Except.bind]

/-- Reading a value whose first character is known. -/
@[simp] theorem reads_readValue_cons {limit depth : Nat} {c : Char} {text rest : List Char}
    {value : Value} :
    Reads (readValue limit depth (c :: text)) value rest ↔
      Reads (readFrom limit depth c text) value rest := by
  refine Iff.trans (reads_map id (fun _ => rfl) fun _ => rfl) ?_
  simp

/-- Refusing a value whose first character is known. -/
@[simp] theorem refuses_readValue_cons {limit depth : Nat} {c : Char} {text : List Char}
    {defect : Defect} :
    Refuses (readValue limit depth (c :: text)) defect ↔
      Refuses (readFrom limit depth c text) defect :=
  refuses_map

end ContentSpace.CanonicalText

import ContentSpace.Proofs.Space.Shadowing

/-!
# Refused operations

An operation that fails returns the space as it was. Operations of several steps check before they
change anything, and a value is stored as a whole or not at all. The exception is storing several
values one after the other: the values before one for which no handle is free stay stored.
-/

namespace ContentSpace

/-- A table refuses a value only when no handle is free for it. -/
theorem Table.code_of_collapse_refused [Hashing] {table : Table} {tag : String} {value : Value}
    {length : Nat} {fault : Fault} (refused : table.collapse tag value length = .error fault) :
    fault.code = "E_INTERNAL" := by
  simp only [Table.collapse] at refused
  split at refused
  next => cases refused
  next =>
    split at refused
    next => cases refused
    next => cases refused; rfl

namespace Space

variable {α β : Type} {space : Space}

/-- An outcome is a success, or a fault with the space as it was. -/
inductive Atomic (space : Space) : Except Fault α × Space → Prop
  /-- The operation is done. -/
  | done (result : α) (after : Space) : Atomic space (.ok result, after)
  /-- The operation is refused. -/
  | refused (fault : Fault) : Atomic space (.error fault, space)

/-- Whether an operation stores values one after the other. -/
def Operation.storesSeveral : Operation → Bool
  | .collapseAll .. | .decompose .. => true
  | _ => false

/-- A fault is a fault whatever form an answer would get. -/
theorem map_eq_error_iff {form : α → β} {answer : Except Fault α} {fault : Fault} :
    answer.map form = .error fault ↔ answer = .error fault := by
  cases answer with
  | error other => rw [Except.map, Except.error.injEq, Except.error.injEq]
  | ok result => exact ⟨nofun, nofun⟩

/-- The form of the answer does not matter. -/
theorem Atomic.change {outcome : Except Fault α × Space} (atomic : space.Atomic outcome)
    (answer : α → Answer) : space.Atomic (run.change answer outcome) := by
  cases atomic with
  | done result after => exact .done (answer result) after
  | refused fault => exact .refused fault

/-- After a refusal the space is the one before. -/
theorem Atomic.eq_of_error {outcome : Except Fault α × Space} (atomic : space.Atomic outcome)
    {fault : Fault} (refused : outcome.1 = .error fault) : outcome.2 = space := by
  cases atomic with
  | done => cases refused
  | refused => rfl

/-- A question leaves the space as it is. -/
theorem atomic_question (space : Space) (answer : Except Fault α) :
    space.Atomic (answer, space) := by
  cases answer with
  | error fault => exact .refused fault
  | ok result => exact .done result space

/-! ## Records of what was done -/

/-- An operation with a record of what it did, unless it is refused. -/
def recorded (outcome : Except Fault α × Space) (answer : α → β) (record : α → Space → Space) :
    Except Fault β × Space :=
  match outcome with
  | (.error fault, after) => (.error fault, after)
  | (.ok result, after) => (.ok (answer result), record result after)

/-- A record is made of what is done only. -/
theorem Atomic.recorded {outcome : Except Fault α × Space} (atomic : space.Atomic outcome)
    (answer : α → β) (record : α → Space → Space) :
    space.Atomic (recorded outcome answer record) := by
  cases atomic with
  | done result after => exact .done (answer result) (record result after)
  | refused fault => exact .refused fault

/-- What is done answers, whatever is recorded. -/
theorem recorded_eq_ok {outcome : Except Fault α × Space} {result : α}
    (done : outcome.1 = .ok result) {answer : α → β} {record : α → Space → Space} :
    (recorded outcome answer record).1 = .ok (answer result) := by
  obtain ⟨_, after⟩ := outcome
  cases done
  rfl

/-- Storing a value records new content. -/
theorem collapse_eq [Hashing] (space : Space) (name tag : String) (value : Value) :
    space.collapse name tag value = recorded
      (space.onTable name (·.collapse tag value space.configuration.effectiveLength))
      Collapsed.handle fun collapsed after =>
        if collapsed.created then after.record name collapsed.handle .created else after := by
  rw [collapse]
  split
  next refused => rw [refused, recorded]
  next created => rw [created, recorded, if_pos rfl]
  next known => rw [known, recorded, if_neg Bool.false_ne_true]

/-- Removing an entry records the removal. -/
theorem delete_eq (space : Space) (name key : String) :
    space.delete name key = recorded (space.onTable name (·.delete key)) (fun _ => ())
      fun entry after => after.record name entry.handle .deleted := by
  rw [delete]
  rcases space.onTable name (·.delete key) with ⟨fault | entry, after⟩
  · rfl
  · rfl

/-- Removing all entries records each removal. -/
theorem clear_eq (space : Space) (name : String) :
    space.clear name = recorded
      (space.onTable name fun table => .ok (table.entries.values, table.clear.2)) List.length
      fun entries after => after.recordAll name
        (entries.map fun entry => (entry.handle, .deleted)) := by
  simp only [recordAll, List.foldl_map]
  rw [clear]
  rcases space.onTable name fun table => .ok (table.entries.values, table.clear.2) with
    ⟨fault | entries, after⟩
  · rfl
  · rfl

/-- Giving a handle a further name records the name. -/
theorem addAlias_eq (space : Space) (name label handle : String) :
    space.addAlias name label handle = recorded (space.onTable name (·.addAlias label handle)) id
      fun target after => after.record name target (.aliased label) := by
  rw [addAlias]
  rcases space.onTable name (·.addAlias label handle) with ⟨fault | target, after⟩
  · rfl
  · rfl

/-- Removing a further name records the name. -/
theorem removeAlias_eq (space : Space) (name label : String) :
    space.removeAlias name label = recorded (space.onTable name (·.removeAlias label)) id
      fun target after => after.record name target (.unaliased label) := by
  rw [removeAlias]
  rcases space.onTable name (·.removeAlias label) with ⟨fault | target, after⟩
  · rfl
  · rfl

/-- Copying an entry outward stores its content in the enclosing table and records the copy. -/
theorem promote_eq [Hashing] {child key parent : String} {entry : Entry}
    (source : space.promotable child key = .ok (parent, entry)) :
    space.promote child key = recorded (space.collapse parent entry.tag entry.value) id
      fun handle after => after.record child entry.handle (.promoted parent handle) := by
  rw [promote, source]
  dsimp only
  rcases space.collapse parent entry.tag entry.value with ⟨fault | handle, after⟩
  · rfl
  · rfl

/-! ## Operations of one table -/

/-- An action of a table that is refused exchanges nothing. -/
theorem atomic_onTable (space : Space) (name : String) (act : Table → Except Fault (α × Table)) :
    space.Atomic (space.onTable name act) := by
  rcases space.onTable_cases name act with ⟨fault, refused⟩ | ⟨_, result, _, -, -, done⟩
  · rw [refused]
    exact .refused fault
  · rw [done]
    exact .done result _

/-- A value is stored, or nothing changes. -/
theorem atomic_collapse [Hashing] (space : Space) (name tag : String) (value : Value) :
    space.Atomic (space.collapse name tag value) := by
  rw [collapse_eq]
  exact (space.atomic_onTable name _).recorded ..

/-! ## Scopes -/

/-- A scope is opened, or nothing changes. -/
theorem atomic_openScope (space : Space) (parent child : String) :
    space.Atomic (space.openScope parent child) := by
  rcases space.openScope_cases parent child with ⟨fault, refused⟩ | ⟨outer, -, -, done⟩
  · rw [refused]
    exact .refused fault
  · rw [done]
    exact .done ..

/-- An entry is copied outward, or nothing changes: what is checked first depends on the scope
alone, and then the enclosing table stores the content or refuses it. -/
theorem atomic_promote [Hashing] (space : Space) (child key : String) :
    space.Atomic (space.promote child key) := by
  cases source : space.promotable child key with
  | error fault =>
    rw [promote, source]
    exact .refused fault
  | ok found =>
    rw [promote_eq source]
    exact (space.atomic_collapse ..).recorded ..

/-- A scope is discarded, or nothing changes. -/
theorem atomic_closeScope (space : Space) (child : String) :
    space.Atomic (space.closeScope child) := by
  rcases space.closeScope_cases child with ⟨fault, refused⟩ | ⟨scope, -, -, -, done⟩
  · rw [refused]
    exact .refused fault
  · rw [done]
    exact .done ..

/-! ## Composite content -/

/-- Several contents are stored as one object, or nothing changes. -/
theorem atomic_compose [Hashing] (space : Space) (name tag : String) (keys : List String) :
    space.Atomic (space.compose name tag keys) := by
  rw [compose]
  split
  next => exact .refused _
  next => exact space.atomic_collapse ..

/-- A value that is refused for another reason than that no handle is free is refused because there
is no table. -/
theorem absent_of_collapse_refused [Hashing] {name tag : String} {value : Value} {fault : Fault}
    (refused : (space.collapse name tag value).1 = .error fault)
    (expected : fault.code ≠ "E_INTERNAL") : space.tables.get? name = none := by
  cases found : space.tables.get? name with
  | none => rfl
  | some table =>
    rw [collapse, onTable, found] at refused
    cases acted : table.collapse tag value space.configuration.effectiveLength with
    | error other =>
      simp only [acted, Except.error.injEq] at refused
      rw [← refused] at expected
      exact absurd (Table.code_of_collapse_refused acted) expected
    | ok outcome =>
      obtain ⟨⟨handle, created⟩, after⟩ := outcome
      cases created <;> simp [acted] at refused

/-- Values that are refused for another reason than that no handle is free are refused because there
is no table: if there were one, it would not go away while they are stored. -/
theorem absent_of_collapseAll_refused [Hashing] {name tag : String} {values : List Value}
    {fault : Fault} (refused : (space.collapseAll name tag values).1 = .error fault)
    (expected : fault.code ≠ "E_INTERNAL") : space.tables.get? name = none := by
  induction values generalizing space with
  | nil => cases refused
  | cons value rest ih =>
    rw [collapseAll] at refused
    cases first : space.collapse name tag value with
    | mk answer after =>
      cases answer with
      | error other =>
        simp only [first, Except.error.injEq] at refused
        rw [← refused] at expected
        exact absent_of_collapse_refused (congrArg Prod.fst first) expected
      | ok handle =>
        obtain ⟨table, collapsed, exchanged, -, -, -, tables⟩ :=
          exists_of_collapse (congrArg Prod.fst first)
        simp only [first, map_eq_error_iff] at refused tables
        have absent := ih refused
        rw [tables, NameMap.get?_insert, if_pos rfl] at absent
        cases absent

/-- Without the table nothing is stored. -/
theorem collapseAll_of_absent [Hashing] {name : String} (absent : space.tables.get? name = none)
    (tag : String) (values : List Value) :
    (space.collapseAll name tag values).2 = space := by
  cases values with
  | nil => rfl
  | cons value rest =>
    have refused : space.collapse name tag value = (.error (.unknownTable name), space) := by
      rw [collapse, onTable, absent]
    rw [collapseAll, refused]

/-- All values are stored, or nothing changes, unless no handle is free for one of them. -/
theorem collapseAll_of_refused [Hashing] {name tag : String} {values : List Value} {fault : Fault}
    (refused : (space.collapseAll name tag values).1 = .error fault)
    (expected : fault.code ≠ "E_INTERNAL") : (space.collapseAll name tag values).2 = space :=
  collapseAll_of_absent (absent_of_collapseAll_refused refused expected) tag values

/-- All parts are stored, or nothing changes, unless no handle is free for one of them. -/
theorem decompose_of_refused [Hashing] {name key : String} {fault : Fault}
    (refused : (space.decompose name key).1 = .error fault)
    (expected : fault.code ≠ "E_INTERNAL") : (space.decompose name key).2 = space := by
  rw [decompose] at refused ⊢
  split at refused
  next => rfl
  next =>
    split at refused
    next => rfl
    next => exact collapseAll_of_refused refused expected

/-! ## All operations -/

/-- An operation that does not store one value after the other is done or changes nothing. -/
theorem atomic_run [Hashing] (space : Space) {operation : Operation}
    (single : operation.storesSeveral = false) : space.Atomic (space.run operation) := by
  cases operation with
  | collapseAll | decompose => cases single
  | collapse name tag value => exact (space.atomic_collapse name tag value).change _
  | delete name key =>
    rw [run, delete_eq]
    exact ((space.atomic_onTable name _).recorded ..).change _
  | clear name =>
    rw [run, clear_eq]
    exact ((space.atomic_onTable name _).recorded ..).change _
  | forgetRetired name => exact (space.atomic_onTable name _).change _
  | addAlias name label handle =>
    rw [run, addAlias_eq]
    exact ((space.atomic_onTable name _).recorded ..).change _
  | removeAlias name label =>
    rw [run, removeAlias_eq]
    exact ((space.atomic_onTable name _).recorded ..).change _
  | openScope parent child => exact (space.atomic_openScope parent child).change _
  | promote child key => exact (space.atomic_promote child key).change _
  | closeScope child => exact (space.atomic_closeScope child).change _
  | watch name key => exact (space.atomic_onTable name _).change _
  | unwatch name key => exact (space.atomic_onTable name _).change _
  | onChange name key listener => exact (space.atomic_onTable name _).change _
  | compose name tag keys => exact (space.atomic_compose name tag keys).change _
  | createTable | drain => exact .done ..
  | hasTable | tableNames | table | lookup | resolve | resolveAll | resolveOr | snapshot | pending
    | project | sameContent | encode | decode => exact space.atomic_question _

/-- An operation that fails leaves the space as it was: its tables with all that they hold, its
recorded changes and its settings. Only where a handle is missing for one of several values that are
stored one after the other, which is an internal fault, values before it stay stored. -/
theorem run_of_refused [Hashing] (space : Space) (operation : Operation) (fault : Fault)
    (refused : (space.run operation).1 = .error fault)
    (whole : fault.code ≠ "E_INTERNAL" ∨ operation.storesSeveral = false) :
    (space.run operation).2 = space := by
  cases several : operation.storesSeveral with
  | false => exact (space.atomic_run several).eq_of_error refused
  | true =>
    have expected : fault.code ≠ "E_INTERNAL" := by simpa [several] using whole
    cases operation with
    | collapseAll name tag values =>
      exact collapseAll_of_refused (map_eq_error_iff.mp refused) expected
    | decompose name key => exact decompose_of_refused (map_eq_error_iff.mp refused) expected
    | _ => cases several

/-- Copying an entry outward that a scope does not have is refused, and so is storing the parts of a
number; neither leaves a trace. -/
theorem refused_promotion_and_parts :
    let space := (ofConfiguration { digestLength := 1 }).runAll
      [.createTable "t", .collapse "t" "v" (.int 3), .openScope "t" "s"]
    (space.run (.promote "s" "v:9")).1 = .error (.notFound "s" "v:9") ∧
      (space.run (.promote "s" "v:9")).2 = space ∧
      (space.run (.decompose "s" "v:9")).1 = .error (.wrongKind .object .int) ∧
      (space.run (.decompose "s" "v:9")).2 = space := by
  intro space
  have missing : (space.promote "s" "v:9").1 = .error (.notFound "s" "v:9") := by decide +kernel
  have number : (space.decompose "s" "v:9").1 = .error (.wrongKind .object .int) := by decide +kernel
  have notPromoted : (space.run (.promote "s" "v:9")).1 = .error (.notFound "s" "v:9") := by
    rw [run, run.change, missing, Except.map]
  have notDecomposed : (space.run (.decompose "s" "v:9")).1 = .error (.wrongKind .object .int) := by
    rw [run, run.change, number, Except.map]
  exact ⟨notPromoted, run_of_refused space _ _ notPromoted (.inl (by decide)),
    notDecomposed, run_of_refused space _ _ notDecomposed (.inl (by decide))⟩

end Space

end ContentSpace

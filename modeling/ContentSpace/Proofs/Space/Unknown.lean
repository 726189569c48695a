import ContentSpace.Proofs.Space.Nesting

/-!
# Unknown tables

Whoever names a table that does not exist is told so. Operations come to the check in different
ways: at the start, on the way of a key outward, or only when a value is stored. `Known` says of an
answer that it blames no unknown table, and what an operation answers about a table that exists is
known because each of its steps is. A promotion needs that the table around a scope exists, which
holds in every space that a history reaches. The one gap is an empty row: storing no values and
resolving no keys looks at no table.
-/

namespace ContentSpace

section

variable {α β : Type}

/-- The answer blames no unknown table. -/
inductive Known : Except Fault α → Prop
  /-- There is a result. -/
  | ok (result : α) : Known (.ok result)
  /-- There is another fault. -/
  | error {fault : Fault} (other : ∀ name, fault ≠ .unknownTable name) : Known (.error fault)

/-- A fault has the code for unknown tables exactly when it blames one. -/
theorem Fault.code_eq_unknown_iff {fault : Fault} :
    fault.code = "E_LS_UNKNOWN_TABLE" ↔ ∃ name, fault = .unknownTable name := by
  cases fault <;> simp [Fault.code]

namespace Known

/-- No known answer has the code for unknown tables. -/
theorem code_ne {answer : Except Fault α} (known : Known answer) {fault : Fault}
    (failed : answer = .error fault) : fault.code ≠ "E_LS_UNKNOWN_TABLE" := by
  intro code
  obtain ⟨name, blamed⟩ := Fault.code_eq_unknown_iff.mp code
  rw [failed] at known
  cases known with
  | error other => exact other name blamed

/-- What a fault blames does not depend on the answer that is missing. -/
theorem of_error {fault : Fault} (known : Known (.error fault : Except Fault α)) :
    Known (.error fault : Except Fault β) := by
  cases known with
  | error other => exact .error other

/-- The form of an answer does not matter. -/
theorem map {answer : Except Fault α} (known : Known answer) (form : α → β) :
    Known (answer.map form) := by
  cases known with
  | ok result => exact .ok (form result)
  | error other => exact .error other

/-- An action in two steps blames no unknown table when neither step does. -/
theorem bind {answer : Except Fault α} {next : α → Except Fault β} (known : Known answer)
    (later : ∀ result, Known (next result)) : Known (answer >>= next) := by
  cases known with
  | ok result => exact later result
  | error other => exact .error other

/-- Actions in a row blame no unknown table when none of them does. -/
theorem mapM {action : α → Except Fault β} (known : ∀ item, Known (action item))
    (items : List α) : Known (items.mapM action) := by
  induction items with
  | nil => exact .ok []
  | cons item rest ih =>
    rw [List.mapM_cons]
    apply (known item).bind
    intro first
    apply ih.bind
    intro others
    exact .ok (first :: others)

end Known

end

/-! ## Actions of tables -/

namespace Table

variable {α : Type} (table : Table)

/-- What is done with the entry that a key stands for does not concern other tables. -/
theorem known_found (key : String) (form : Entry → α) :
    Known (table.find key >>= fun entry => .ok (form entry)) := by
  apply Known.bind
  · rw [find]
    split
    · exact .ok _
    · exact .error (by simp)
  · intro entry
    exact .ok _

/-- Storing a value does not concern other tables. -/
theorem known_collapse [Hashing] (tag : String) (value : Value) (length : Nat) :
    Known (table.collapse tag value length) := by
  cases stored : table.collapse tag value length with
  | ok result => exact .ok result
  | error fault =>
    have internal := code_of_collapse_refused stored
    apply Known.error
    rintro name rfl
    simp [Fault.code] at internal

/-- Naming a handle does not concern other tables. -/
theorem known_addAlias (name handle : String) : Known (table.addAlias name handle) := by
  rw [addAlias]
  cases table.entries.get? handle with
  | none => exact .error (by simp)
  | some entry =>
    simp only [bind, Except.bind]
    split
    · exact .error (by simp)
    · split
      · exact .error (by simp)
      · exact .ok _

/-- Removing a name does not concern other tables. -/
theorem known_removeAlias (name : String) : Known (table.removeAlias name) := by
  rw [removeAlias]
  split
  · exact .ok _
  · exact .error (by simp)

end Table

namespace Space

variable {α β : Type} {space : Space} {name : String} {table : Table}

/-! ## Operations about a table that exists -/

/-- A record blames nothing. -/
theorem known_recorded {outcome : Except Fault α × Space} (known : Known outcome.1)
    (answer : α → β) (record : α → Space → Space) : Known (recorded outcome answer record).1 := by
  obtain ⟨result, after⟩ := outcome
  cases result with
  | error fault => exact known.of_error
  | ok result => exact .ok _

section

variable (found : space.tables.get? name = some table)

include found

/-- An action of a table that exists blames an unknown table only if the action does. -/
theorem known_onTable {act : Table → Except Fault (α × Table)}
    (known : ∀ table, Known (act table)) : Known (space.onTable name act).1 := by
  have answered := known table
  rw [onTable, found]
  dsimp only
  cases acted : act table with
  | error fault =>
    rw [acted] at answered
    exact answered.of_error
  | ok result => exact .ok _

/-- Looking a key up in a table that exists finds an entry or blames the key. -/
theorem known_lookup (key : String) : Known (space.lookup name key) := by
  rw [lookup, table_of_get? found]
  simp only [bind, Except.bind]
  split
  · exact .ok _
  · exact .error (by simp)

/-- Resolving a key in a table that exists gives its content or blames the key. -/
theorem known_resolve (key : String) : Known (space.resolve name key) :=
  (known_lookup found key).map _

/-- Resolving a key or else taking another value blames no unknown table. -/
theorem known_resolveOr (key : String) (other : Value) :
    Known (space.resolveOr name key other) := by
  have resolved := known_resolve found key
  rw [resolveOr]
  split
  · exact .ok _
  · exact resolved

/-- Comparing two contents in a table that exists blames no unknown table. -/
theorem known_sameContent (key other : String) : Known (space.sameContent name key other) := by
  apply (known_lookup found key).bind
  intro left
  apply (known_lookup found other).bind
  intro right
  exact .ok _

/-- Taking one field of a content in a table that exists blames no unknown table. -/
theorem known_project (key field : String) : Known (space.project name key field) := by
  apply (known_lookup found key).bind
  intro entry
  cases entry.value with
  | object fields | array items => exact .ok _
  | _ => exact .error (by simp)

/-- Storing a value in a table that exists blames no unknown table. -/
theorem known_collapse [Hashing] (tag : String) (value : Value) :
    Known (space.collapse name tag value).1 := by
  rw [collapse_eq]
  apply known_recorded
  apply known_onTable found
  intro table
  exact table.known_collapse ..

/-- Storing values in a table that exists blames no unknown table, because the table does not go
away while they are stored. -/
theorem known_collapseAll [Hashing] (tag : String) (values : List Value) :
    Known (space.collapseAll name tag values).1 := by
  cases stored : (space.collapseAll name tag values).1 with
  | ok handles => exact .ok handles
  | error fault =>
    -- only the first value can be refused for want of a table
    apply Known.error
    rintro other rfl
    have absent := absent_of_collapseAll_refused stored (by simp [Fault.code])
    rw [found] at absent
    cases absent

/-- Opening a scope in a table that exists blames no unknown table. -/
theorem known_openScope (child : String) : Known (space.openScope name child).1 := by
  have there : space.hasTable name = true := by
    rw [hasTable, NameMap.contains, found, Option.isSome_some]
  rw [openScope, there]
  simp only [Bool.not_true, Bool.false_eq_true, if_false]
  split
  · exact .error (by simp)
  · exact .ok _

/-- Looking for an entry to copy outward from a table that exists blames no unknown table. -/
theorem known_promotable (key : String) : Known (space.promotable name key) := by
  rw [promotable, table_of_get? found]
  simp only [bind, Except.bind]
  split
  · exact .error (by simp)
  · split
    · exact .error (by simp)
    · exact .ok _

/-- Copying an entry of a scope that exists outward blames no unknown table, because the table
around the scope exists. -/
theorem known_promote [Hashing] (nested : space.WellNested) (key : String) :
    Known (space.promote name key).1 := by
  have copied := known_promotable found key
  cases source : space.promotable name key with
  | error fault =>
    rw [source] at copied
    rw [promote, source]
    exact copied.of_error
  | ok origin =>
    obtain ⟨parent, entry⟩ := origin
    obtain ⟨scope, bound, enclosed, -⟩ := of_promotable source
    obtain ⟨outer, around⟩ := nested.exists_outer ⟨scope, bound, enclosed⟩
    rw [promote_eq source]
    apply known_recorded
    exact known_collapse around ..

/-- Discarding a scope that exists blames no unknown table. -/
theorem known_closeScope : Known (space.closeScope name).1 := by
  rw [closeScope, found]
  dsimp only
  split
  · exact .error (by simp)
  · split
    · exact .error (by simp)
    · exact .ok _

/-- Storing contents of a table that exists as one object blames no unknown table. -/
theorem known_compose [Hashing] (tag : String) (keys : List String) :
    Known (space.compose name tag keys).1 := by
  have contents : Known (space.resolveAll name keys) := .mapM (known_resolve found) keys
  rw [compose]
  cases resolved : space.resolveAll name keys with
  | error fault =>
    rw [resolved] at contents
    exact contents.of_error
  | ok values => exact known_collapse found ..

/-- Storing the parts of a content in a table that exists blames no unknown table. -/
theorem known_decompose [Hashing] (key : String) : Known (space.decompose name key).1 := by
  have looked := known_lookup found key
  rw [decompose]
  cases result : space.lookup name key with
  | error fault =>
    rw [result] at looked
    exact looked.of_error
  | ok entry =>
    dsimp only
    cases entry.value with
    | object fields | array items => exact known_collapseAll found ..
    | _ => exact .error (by simp)

end

/-! ## Operations about a table that does not exist -/

section

variable (absent : space.tables.get? name = none)

include absent

/-- A table that does not exist runs nothing. -/
theorem onTable_of_absent (act : Table → Except Fault (α × Table)) :
    space.onTable name act = (.error (.unknownTable name), space) := by
  rw [onTable, absent]

/-- A table that does not exist is blamed before the key. -/
theorem lookup_of_absent (key : String) : space.lookup name key = .error (.unknownTable name) := by
  rw [lookup, Space.table, absent]
  rfl

/-- No key is resolved in a table that does not exist. -/
theorem resolve_of_absent (key : String) :
    space.resolve name key = .error (.unknownTable name) := by
  rw [resolve, lookup_of_absent absent]
  rfl

/-- The first of several keys blames a table that does not exist. -/
theorem resolveAll_of_absent (key : String) (rest : List String) :
    space.resolveAll name (key :: rest) = .error (.unknownTable name) := by
  rw [resolveAll, List.mapM_cons, resolve_of_absent absent]
  rfl

/-- A table that does not exist stores no value. -/
theorem collapse_of_absent [Hashing] (tag : String) (value : Value) :
    space.collapse name tag value = (.error (.unknownTable name), space) := by
  rw [collapse, onTable_of_absent absent]

/-- Several contents are not stored as one object in a table that does not exist, whether the keys
blame it or, without any key, the storing. -/
theorem compose_of_absent [Hashing] (tag : String) (keys : List String) :
    space.compose name tag keys = (.error (.unknownTable name), space) := by
  rw [compose]
  cases keys with
  | nil => exact collapse_of_absent absent ..
  | cons key rest => rw [resolveAll_of_absent absent]

end

/-! ## All operations -/

/-- The table that must exist for an operation: the one it is about, unless the operation adds it or
asks whether it exists. -/
def Operation.required? : Operation → Option String
  | .createTable _ | .hasTable _ => none
  | operation => operation.subject?

/-- Whether an operation goes through a row of values or keys that is empty. -/
def Operation.asksNothing : Operation → Bool
  | .collapseAll _ _ [] | .resolveAll _ [] => true
  | _ => false

/-- An operation about a table that exists blames no unknown table. -/
theorem WellNested.known_run [Hashing] (nested : space.WellNested) {operation : Operation}
    (required : operation.required? = some name)
    (found : space.tables.get? name = some table) : Known (space.run operation).1 := by
  cases operation with
  | createTable | hasTable | tableNames | pending | drain | encode | decode => cases required
  | table | snapshot =>
    cases required
    rw [run, table_of_get? found]
    exact .ok _
  | lookup =>
    cases required
    exact (known_lookup found _).map _
  | collapse =>
    cases required
    exact (known_collapse found ..).map _
  | collapseAll =>
    cases required
    exact (known_collapseAll found ..).map _
  | resolve =>
    cases required
    exact (known_resolve found _).map _
  | resolveAll =>
    cases required
    exact (Known.mapM (known_resolve found) _).map _
  | resolveOr =>
    cases required
    exact (known_resolveOr found ..).map _
  | delete =>
    cases required
    rw [run, delete_eq]
    exact (known_recorded (known_onTable found fun table => table.known_found ..) ..).map _
  | clear =>
    cases required
    rw [run, clear_eq]
    exact (known_recorded (known_onTable found fun _ => .ok _) ..).map _
  | forgetRetired | unwatch =>
    cases required
    exact (known_onTable found fun _ => .ok _).map _
  | addAlias =>
    cases required
    rw [run, addAlias_eq]
    exact (known_recorded (known_onTable found fun table => table.known_addAlias ..) ..).map _
  | removeAlias =>
    cases required
    rw [run, removeAlias_eq]
    exact (known_recorded (known_onTable found fun table => table.known_removeAlias _) ..).map _
  | openScope =>
    cases required
    exact (known_openScope found _).map _
  | promote =>
    cases required
    exact (known_promote found nested _).map _
  | closeScope =>
    cases required
    exact (known_closeScope found).map _
  | watch | onChange =>
    cases required
    exact (known_onTable found fun table => table.known_found ..).map _
  | compose =>
    cases required
    exact (known_compose found ..).map _
  | decompose =>
    cases required
    exact (known_decompose found _).map _
  | project =>
    cases required
    exact (known_project found ..).map _
  | sameContent =>
    cases required
    exact (known_sameContent found ..).map _

/-- An operation about a table that does not exist blames the table and leaves the space as it is,
unless it goes through an empty row. -/
theorem run_of_absent [Hashing] {operation : Operation} (required : operation.required? = some name)
    (asks : operation.asksNothing = false) (absent : space.tables.get? name = none) :
    space.run operation = (.error (.unknownTable name), space) := by
  cases operation with
  | createTable | hasTable | tableNames | pending | drain | encode | decode => cases required
  | table | snapshot =>
    cases required
    rw [run, Space.table, absent]
    rfl
  | lookup | decompose | project | sameContent =>
    -- these begin by looking for a key
    cases required
    simp only [run, decompose, project, sameContent, lookup_of_absent absent]
    rfl
  | collapse =>
    cases required
    rw [run, collapse_of_absent absent]
    rfl
  | collapseAll _ tag values =>
    cases required
    cases values with
    | nil => cases asks
    | cons value rest =>
      rw [run, collapseAll, collapse_of_absent absent]
      rfl
  | resolve =>
    cases required
    rw [run, resolve_of_absent absent]
    rfl
  | resolveAll _ keys =>
    cases required
    cases keys with
    | nil => cases asks
    | cons key rest =>
      rw [run, resolveAll_of_absent absent]
      rfl
  | resolveOr =>
    cases required
    rw [run, resolveOr, resolve_of_absent absent]
    rfl
  | delete | clear | addAlias | removeAlias | forgetRetired | watch | unwatch | onChange =>
    -- these run one action of the table
    cases required
    simp only [run, delete, clear, addAlias, removeAlias, forgetRetired, watch, unwatch, onChange,
      onTable_of_absent absent]
    rfl
  | openScope =>
    cases required
    rw [run, openScope, hasTable, NameMap.contains, absent]
    rfl
  | promote =>
    cases required
    rw [run, promote, promotable, Space.table, absent]
    rfl
  | closeScope =>
    cases required
    rw [run, closeScope, absent]
    rfl
  | compose =>
    cases required
    rw [run, compose_of_absent absent]
    rfl

/-- An operation that goes through an empty row answers an empty row and looks at no table. -/
theorem run_of_asksNothing [Hashing] {operation : Operation} (asks : operation.asksNothing = true) :
    space.run operation = (.ok (.handles []), space) ∨
      space.run operation = (.ok (.values []), space) := by
  cases operation with
  | collapseAll _ _ values =>
    cases values with
    | nil => exact .inl rfl
    | cons => cases asks
  | resolveAll _ keys =>
    cases keys with
    | nil => exact .inr rfl
    | cons => cases asks
  | _ => cases asks

/-- In every space that a history reaches, an operation about a table that does not exist blames
that table and leaves the space as it is, whatever its other arguments. An operation about a table
that exists never has the fault for unknown tables, and a search for a key that begins in such a
table comes to no name without a table. Only an operation that goes through an empty row of values
or keys looks at no table at all. -/
theorem unknown_table_reported [Hashing] (configuration : SpaceConfiguration)
    (history : List Operation) (operation : Operation) (name : String)
    (required : operation.required? = some name) :
    let space := (ofConfiguration configuration).runAll history
    (space.hasTable name = false → operation.asksNothing = false →
      space.run operation = (.error (.unknownTable name), space)) ∧
    (space.hasTable name = true →
      (∀ fault, (space.run operation).1 = .error fault → fault.code ≠ "E_LS_UNKNOWN_TABLE") ∧
      ∀ key other, ¬ space.Searches name key name (.error (.unknownTable other))) ∧
    (operation.asksNothing = true →
      space.run operation = (.ok (.handles []), space) ∨
        space.run operation = (.ok (.values []), space)) := by
  intro space
  have nested : space.WellNested := wellNested_runAll configuration history
  refine ⟨?_, ?_, run_of_asksNothing⟩
  · intro absent asks
    exact run_of_absent required asks (NameMap.contains_eq_false_iff.mp absent)
  · intro exists_table
    obtain ⟨table, found⟩ := Option.isSome_iff_exists.mp exists_table
    constructor
    · intro fault failed
      exact (nested.known_run required found).code_ne failed
    · intro key other search
      obtain ⟨chain, outward⟩ := nested.exists_chain found
      have looked := (outward.searches_iff nested key _).mp search
      exact (known_lookup found key).code_ne looked rfl

/-- An object without fields is not stored in a table that does not exist, and a scope whose table
exists blames the key that it does not bind. -/
theorem unknown_table_reported_beside_scope :
    let space := (ofConfiguration { digestLength := 1 }).runAll
      [.createTable "t", .collapse "t" "v" (.int 3), .openScope "t" "s"]
    space.hasTable "u" = false ∧
      space.run (.compose "u" "v" []) = (.error (.unknownTable "u"), space) ∧
      space.hasTable "s" = true ∧
      (space.run (.promote "s" "v:9")).1.toOption.isNone = true ∧
      ∀ fault, (space.run (.promote "s" "v:9")).1 = .error fault →
        fault.code ≠ "E_LS_UNKNOWN_TABLE" := by
  intro space
  have absent : space.hasTable "u" = false := by decide +kernel
  have known : space.hasTable "s" = true := by decide +kernel
  obtain ⟨blamed, -, -⟩ := unknown_table_reported { digestLength := 1 }
    [.createTable "t", .collapse "t" "v" (.int 3), .openScope "t" "s"] (.compose "u" "v" []) "u" rfl
  obtain ⟨-, kept, -⟩ := unknown_table_reported { digestLength := 1 }
    [.createTable "t", .collapse "t" "v" (.int 3), .openScope "t" "s"] (.promote "s" "v:9") "s" rfl
  exact ⟨absent, blamed absent rfl, known, by decide +kernel, (kept known).1⟩

/-- In a space without tables, storing no values in a table and resolving no keys of it both
succeed, while an object without fields is refused because there is no table. -/
theorem empty_row_hides_unknown_table :
    let space := ofConfiguration {}
    space.hasTable "t" = false ∧
      space.run (.collapseAll "t" "v" []) = (.ok (.handles []), space) ∧
      space.run (.resolveAll "t" []) = (.ok (.values []), space) ∧
      space.run (.compose "t" "v" []) = (.error (.unknownTable "t"), space) :=
  ⟨rfl, rfl, rfl, rfl⟩

end Space

end ContentSpace

import ContentSpace.Proofs.Table.Effect
import ContentSpace.Space.Operation
import Mathlib.Logic.Relation

/-!
# What the operations of a space do

Most operations of a space run operations of its tables one after another and record what these did
to handles. Such a step is a `Move`, and so are the adding of an empty table and the record of a
promotion. `Effect` says that an operation makes moves, or takes a watch away, discards a scope,
or takes the recorded changes. Laws of whole histories are shown for each move once, and carried
along a history by `runAll_preserves`.
-/

namespace ContentSpace

/-- What an operation of a table with an answer did to handles. -/
def Table.happenings (table : Table) :
    Table.Operation → Except Fault Table.Answer → List (Handle × Happening)
  | .collapse .., .ok (.collapsed ⟨handle, true⟩) => [(handle, .created)]
  | .delete _, .ok (.entry entry) => [(entry.handle, .deleted)]
  | .clear, .ok _ => table.entries.values.map fun entry => (entry.handle, .deleted)
  | .addAlias name _, .ok (.handle handle) => [(handle, .aliased name)]
  | .removeAlias name, .ok (.handle handle) => [(handle, .unaliased name)]
  | _, _ => []

namespace Space

variable {α : Type} {space : Space}

/-- The space with a record of everything that happened to handles of one table. -/
def recordAll (space : Space) (name : String) (happenings : List (Handle × Happening)) : Space :=
  happenings.foldl (fun space happening => space.record name happening.1 happening.2) space

/-- The space after an operation of one of its tables, with a record of what it did. -/
def afterTable [Hashing] (space : Space) (name : String) (table : Table)
    (operation : Table.Operation) : Space :=
  ({ space with tables := space.tables.insert name (table.run operation).2 }).recordAll name
    (table.happenings operation (table.run operation).1)

/-- A step that takes nothing away from a space but content. -/
inductive Move [Hashing] (space : Space) : Space → Prop
  /-- A table runs an operation that keeps its watches. -/
  | ran {name : String} {table : Table} (operation : Table.Operation)
      (found : space.tables.get? name = some table)
      (keepsWatches : ∀ key, operation ≠ .unwatch key) :
      Move space (space.afterTable name table operation)
  /-- An empty table is added, possibly as a scope. -/
  | added {name : String} {parent : Option String} (absent : space.tables.get? name = none)
      (enclosed : ∀ outer, parent = some outer → space.tables.contains outer = true) :
      Move space { space with tables := space.tables.insert name { name, parent } }
  /-- A promotion is recorded. -/
  | promoted (child : String) (handle : Handle) (parent : String) (copy : Handle) :
      Move space (space.record child handle (.promoted parent copy))

/-- Any number of moves. -/
abbrev Moves [Hashing] : Space → Space → Prop := Relation.ReflTransGen Move

/-- What an operation does to a space. -/
inductive Effect [Hashing] (space : Space) : Operation → Space → Prop
  /-- The operation makes moves, or none when it is refused or a question. -/
  | moved {operation : Operation} {after : Space} (moves : Moves space after) :
      Effect space operation after
  /-- A handle is no longer watched. -/
  | unwatched {name key : String} {table : Table} (found : space.tables.get? name = some table) :
      Effect space (.unwatch name key)
        { space with tables := space.tables.insert name (table.unwatch key).2 }
  /-- A scope that encloses no other is discarded. -/
  | closed {child : String} {scope : Table} (found : space.tables.get? child = some scope)
      (isScope : scope.isScope = true)
      (innermost : ∀ table ∈ space.tables.values, table.parent ≠ some child) :
      Effect space (.closeScope child) { space with tables := space.tables.erase child }
  /-- The recorded changes are taken. -/
  | drained : Effect space .drain { space with changes := [] }

/-! ## Operations of one table -/

/-- An operation of a table is refused and changes nothing, or its table is exchanged. -/
theorem onTable_cases (space : Space) (name : String)
    (operation : Table → Except Fault (α × Table)) :
    (∃ fault, space.onTable name operation = (.error fault, space)) ∨
      ∃ table result after, space.tables.get? name = some table ∧
        operation table = .ok (result, after) ∧ space.onTable name operation =
          (.ok result, { space with tables := space.tables.insert name after }) := by
  rw [onTable]
  cases found : space.tables.get? name with
  | none => exact .inl ⟨_, rfl⟩
  | some table =>
    cases ran : operation table with
    | error fault => exact .inl ⟨fault, by simp [ran]⟩
    | ok outcome => exact .inr ⟨table, outcome.1, outcome.2, rfl, ran, by simp [ran]⟩

/-- A table that runs an operation successfully makes a move. -/
theorem Moves.ran [Hashing] {name : String} {table : Table} {operation : Table.Operation}
    {answer : Table.Answer} {after : Table} (found : space.tables.get? name = some table)
    (ran : table.run operation = (.ok answer, after))
    (keepsWatches : ∀ key, operation ≠ .unwatch key) :
    Moves space (({ space with tables := space.tables.insert name after }).recordAll name
      (table.happenings operation (.ok answer))) := by
  have move := Move.ran operation found keepsWatches
  rw [afterTable, ran] at move
  exact .single move

/-- An action of a table is refused and changes nothing, or the exchange of the table together with
the record of what the action did makes a move. The action is given with the operation that it is
and with the form of its answers. -/
theorem onTable_moves [Hashing] (space : Space) (name : String)
    (act : Table → Except Fault (α × Table)) (operation : Table.Operation)
    (answer : α → Table.Answer)
    (runs : ∀ table, table.run operation = Table.run.settle table answer (act table))
    (keepsWatches : ∀ key, operation ≠ .unwatch key) :
    (∃ fault, space.onTable name act = (.error fault, space)) ∨
      ∃ (table : Table) (result : α) (after : Space),
        space.onTable name act = (.ok result, after) ∧
        Moves space (after.recordAll name (table.happenings operation (.ok (answer result)))) := by
  rcases space.onTable_cases name act with refused | ⟨table, result, after, found, acted, done⟩
  · exact .inl refused
  · have ran : table.run operation = (.ok (answer result), after) := by
      rw [runs, acted, Table.run.settle]
    exact .inr ⟨table, result, _, done, .ran found ran keepsWatches⟩

/-- Storing a value makes moves. -/
theorem moves_collapse [Hashing] (space : Space) (name tag : String) (value : Value) :
    Moves space (space.collapse name tag value).2 := by
  rw [collapse]
  rcases space.onTable_moves name (·.collapse tag value space.configuration.effectiveLength)
    (.collapse tag value space.configuration.effectiveLength) .collapsed (fun _ => rfl) nofun with
    ⟨fault, refused⟩ | ⟨table, ⟨handle, created⟩, after, done, moves⟩
  · rw [refused]
  · rw [done]
    cases created with
    | true => exact moves
    | false => exact moves

/-- Removing an entry makes moves. -/
theorem moves_delete [Hashing] (space : Space) (name key : String) :
    Moves space (space.delete name key).2 := by
  rw [delete]
  rcases space.onTable_moves name (·.delete key) (.delete key) .entry
    (fun _ => rfl) nofun with
    ⟨fault, refused⟩ | ⟨table, entry, after, done, moves⟩
  · rw [refused]
  · rw [done]
    exact moves

/-- Removing all entries makes moves. -/
theorem moves_clear [Hashing] (space : Space) (name : String) : Moves space
    (space.clear name).2 := by
  rw [clear]
  rcases space.onTable_cases name fun table => .ok (table.entries.values, table.clear.2) with
    ⟨fault, refused⟩ | ⟨table, entries, after, found, cleared, done⟩
  · rw [refused]
  · rw [Except.ok.injEq, Prod.mk.injEq] at cleared
    obtain ⟨rfl, rfl⟩ := cleared
    have moves : Moves space (({ space with
        tables := space.tables.insert name table.clear.2 }).recordAll name
          (table.happenings .clear (.ok (.count table.clear.1)))) := .ran found rfl nofun
    rw [Table.happenings, recordAll, List.foldl_map] at moves
    rw [done]
    exact moves

/-- Releasing retired handles makes moves. -/
theorem moves_forgetRetired [Hashing] (space : Space) (name : String) :
    Moves space (space.forgetRetired name).2 := by
  rw [forgetRetired]
  rcases space.onTable_moves name (fun table => .ok table.forgetRetired) .forgetRetired .count
    (fun _ => rfl) nofun with
    ⟨fault, refused⟩ | ⟨table, count, after, done, moves⟩
  · rw [refused]
  · rw [done]
    exact moves

/-- Giving a handle a further name makes moves. -/
theorem moves_addAlias [Hashing] (space : Space) (name label handle : String) :
    Moves space (space.addAlias name label handle).2 := by
  rw [addAlias]
  rcases space.onTable_moves name (·.addAlias label handle) (.addAlias label handle) .handle
    (fun _ => rfl) nofun with
    ⟨fault, refused⟩ | ⟨table, target, after, done, moves⟩
  · rw [refused]
  · rw [done]
    exact moves

/-- Removing a further name makes moves. -/
theorem moves_removeAlias [Hashing] (space : Space) (name label : String) :
    Moves space (space.removeAlias name label).2 := by
  rw [removeAlias]
  rcases space.onTable_moves name (·.removeAlias label) (.removeAlias label) .handle
    (fun _ => rfl) nofun with
    ⟨fault, refused⟩ | ⟨table, target, after, done, moves⟩
  · rw [refused]
  · rw [done]
    exact moves

/-- Watching a handle makes moves. -/
theorem moves_watch [Hashing] (space : Space) (name key : String) : Moves space
    (space.watch name key).2 := by
  rw [watch]
  rcases space.onTable_moves name (·.watch key) (.watch key) .handle
    (fun _ => rfl) nofun with
    ⟨fault, refused⟩ | ⟨table, handle, after, done, moves⟩
  · rw [refused]
  · rw [done]
    exact moves

/-- Adding a listener makes moves. -/
theorem moves_onChange [Hashing] (space : Space) (name key listener : String) :
    Moves space (space.onChange name key listener).2 := by
  rw [onChange]
  rcases space.onTable_moves name (·.onChange key listener) (.onChange key listener) .handle
    (fun _ => rfl) nofun with
    ⟨fault, refused⟩ | ⟨table, handle, after, done, moves⟩
  · rw [refused]
  · rw [done]
    exact moves

/-! ## Operations of several steps -/

/-- Storing values one after the other makes moves. -/
theorem moves_collapseAll [Hashing] (space : Space) (name tag : String) (values : List Value) :
    Moves space (space.collapseAll name tag values).2 := by
  induction values generalizing space with
  | nil => exact .refl
  | cons value rest ih =>
    have first := space.moves_collapse name tag value
    rw [collapseAll]
    cases result : space.collapse name tag value with
    | mk answer after =>
      rw [result] at first
      cases answer with
      | error fault => exact first
      | ok handle => exact first.trans (ih after)

/-- Adding a table makes moves. -/
theorem moves_createTable [Hashing] (space : Space) (name : String) :
    Moves space (space.createTable name).2 := by
  rw [createTable]
  cases exists_table : space.tables.contains name with
  | true => exact .refl
  | false => exact .single (.added (NameMap.contains_eq_false_iff.mp exists_table) nofun)

/-- Opening a scope is refused and changes nothing, or adds an empty scope in a table that is
there. -/
theorem openScope_cases (space : Space) (parent child : String) :
    (∃ fault, space.openScope parent child = (.error fault, space)) ∨
      ∃ outer, space.tables.get? parent = some outer ∧ space.tables.get? child = none ∧
        space.openScope parent child =
          (.ok (), { space with tables := space.tables.insert child (.enclosed child parent) }) := by
  rw [openScope, hasTable, hasTable]
  cases outer : space.tables.contains parent with
  | false => exact .inl ⟨_, rfl⟩
  | true =>
    cases inner : space.tables.contains child with
    | true => exact .inl ⟨_, rfl⟩
    | false =>
      obtain ⟨table, around⟩ := Option.isSome_iff_exists.mp outer
      exact .inr ⟨table, around, NameMap.contains_eq_false_iff.mp inner, rfl⟩

/-- Opening a scope makes moves. -/
theorem moves_openScope [Hashing] (space : Space) (parent child : String) :
    Moves space (space.openScope parent child).2 := by
  rcases space.openScope_cases parent child with ⟨fault, refused⟩ | ⟨outer, around, absent, done⟩
  · rw [refused]
  · rw [done]
    refine .single (.added absent ?_)
    intro table enclosing
    rw [Option.some.injEq] at enclosing
    rw [← enclosing, NameMap.contains, around, Option.isSome_some]

/-- Copying an entry outward makes moves. -/
theorem moves_promote [Hashing] (space : Space) (child key : String) :
    Moves space (space.promote child key).2 := by
  rw [promote]
  cases space.promotable child key with
  | error fault => exact .refl
  | ok source =>
    obtain ⟨parent, entry⟩ := source
    have copied := space.moves_collapse parent entry.tag entry.value
    dsimp only
    cases result : space.collapse parent entry.tag entry.value with
    | mk answer after =>
      rw [result] at copied
      cases answer with
      | error fault => exact copied
      | ok handle => exact copied.tail (.promoted child entry.handle parent handle)

/-- Storing several contents as one object makes moves. -/
theorem moves_compose [Hashing] (space : Space) (name tag : String) (keys : List String) :
    Moves space (space.compose name tag keys).2 := by
  rw [compose]
  cases space.resolveAll name keys with
  | error fault => exact .refl
  | ok contents => exact space.moves_collapse ..

/-- Storing the parts of a content makes moves. -/
theorem moves_decompose [Hashing] (space : Space) (name key : String) :
    Moves space (space.decompose name key).2 := by
  rw [decompose]
  cases space.lookup name key with
  | error fault => exact .refl
  | ok entry =>
    dsimp only
    cases parts entry.value with
    | error fault => exact .refl
    | ok values => exact space.moves_collapseAll ..

/-- Taking a watch away exchanges the table or is refused. -/
theorem effect_unwatch [Hashing] (space : Space) (name key : String) :
    Effect space (.unwatch name key) (space.unwatch name key).2 := by
  rw [unwatch]
  rcases onTable_cases space name fun table => .ok (table.unwatch key) with
    ⟨fault, refused⟩ | ⟨table, flag, after, found, unwatched, done⟩
  · rw [refused]
    exact .moved .refl
  · rw [done]
    rw [Except.ok.injEq] at unwatched
    have exchanged : Effect space (.unwatch name key)
        { space with tables := space.tables.insert name (table.unwatch key).2 } := .unwatched found
    rw [unwatched] at exchanged
    exact exchanged

/-- Discarding a scope is refused and changes nothing, or removes an innermost scope. -/
theorem closeScope_cases (space : Space) (child : String) :
    (∃ fault, space.closeScope child = (.error fault, space)) ∨
      ∃ scope, space.tables.get? child = some scope ∧ scope.isScope = true ∧
        (∀ table ∈ space.tables.values, table.parent ≠ some child) ∧
        space.closeScope child =
          (.ok scope.size, { space with tables := space.tables.erase child }) := by
  rw [closeScope]
  cases found : space.tables.get? child with
  | none => exact .inl ⟨_, rfl⟩
  | some scope =>
    by_cases isScope : scope.isScope = true
    · simp only [isScope, Bool.not_true, Bool.false_eq_true, if_false]
      cases inner : space.tables.values.find? fun table => table.parent == some child with
      | some table => exact .inl ⟨_, rfl⟩
      | none =>
        refine .inr ⟨scope, rfl, isScope, ?_, rfl⟩
        intro table member enclosed
        have apart := List.find?_eq_none.mp inner table member
        exact apart (beq_iff_eq.mpr enclosed)
    · simp only [isScope, Bool.not_false, if_true]
      exact .inl ⟨_, rfl⟩

/-- Discarding a scope removes an innermost scope or is refused. -/
theorem effect_closeScope [Hashing] (space : Space) (child : String) :
    Effect space (.closeScope child) (space.closeScope child).2 := by
  rcases space.closeScope_cases child with
    ⟨fault, refused⟩ | ⟨scope, found, isScope, innermost, done⟩
  · rw [refused]
    exact .moved .refl
  · rw [done]
    exact .closed found isScope innermost

/-! ## All operations -/

/-- Every operation has one of the listed effects. -/
theorem run_effect [Hashing] (space : Space) (operation : Operation) :
    Effect space operation (space.run operation).2 := by
  cases operation with
  | createTable table => exact .moved (space.moves_createTable table)
  | collapse table tag value => exact .moved (space.moves_collapse table tag value)
  | collapseAll table tag values => exact .moved (space.moves_collapseAll table tag values)
  | delete table key => exact .moved (space.moves_delete table key)
  | clear table => exact .moved (space.moves_clear table)
  | forgetRetired table => exact .moved (space.moves_forgetRetired table)
  | addAlias table name handle => exact .moved (space.moves_addAlias table name handle)
  | removeAlias table name => exact .moved (space.moves_removeAlias table name)
  | openScope parent child => exact .moved (space.moves_openScope parent child)
  | promote child key => exact .moved (space.moves_promote child key)
  | closeScope child => exact space.effect_closeScope child
  | watch table key => exact .moved (space.moves_watch table key)
  | unwatch table key => exact space.effect_unwatch table key
  | onChange table key listener => exact .moved (space.moves_onChange table key listener)
  | drain => exact .drained
  | compose table tag keys => exact .moved (space.moves_compose table tag keys)
  | decompose table key => exact .moved (space.moves_decompose table key)
  | hasTable | tableNames | table | lookup | resolve | resolveAll | resolveOr | snapshot | pending
    | project | sameContent | encode | decode => exact .moved .refl

/-- What every operation keeps holds after every history. -/
theorem runAll_keeps [Hashing] {holds : Space → Prop}
    (step : ∀ space operation, holds space → holds (run space operation).2)
    (start : holds space) (history : List Operation) : holds (space.runAll history) := by
  induction history generalizing space with
  | nil => exact start
  | cons operation rest ih => exact ih (step space operation start)

/-- What every effect preserves holds after every history. -/
theorem runAll_preserves [Hashing] {holds : Space → Prop}
    (step : ∀ space operation after, holds space → Effect space operation after → holds after)
    (start : holds space) (history : List Operation) : holds (space.runAll history) :=
  runAll_keeps (fun space operation now => step space operation _ now (space.run_effect operation))
    start history

end Space

end ContentSpace

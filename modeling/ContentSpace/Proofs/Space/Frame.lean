import ContentSpace.Proofs.Space.Refusal

/-!
# Which tables an operation changes

An operation is about one table at most, and it changes one table at most: the one it is about, but
for two exceptions. Opening a scope leaves the enclosing table alone and adds the scope, and a
promotion leaves the scope alone and stores content in the enclosing table. `TableEffect` lists what
an operation does to the tables of a space; every other table stays as it is.
-/

namespace ContentSpace

namespace Table

variable {table : Table}

/-- No operation of a table moves it into another one. -/
@[simp] theorem parent_runAll [Hashing] (table : Table) (history : List Operation) :
    (table.runAll history).parent = table.parent := by
  refine @runAll_preserves _ (fun other => other.parent = table.parent) history ?_ table rfl
  intro operation _ other answer after same effect
  cases effect <;> exact same

end Table

namespace Space

variable {α β : Type} {space : Space}

/-- The table that an operation is about, for an opening the one in which the scope is opened. -/
def Operation.subject? : Operation → Option String
  | .createTable name | .hasTable name | .table name | .lookup name _ | .collapse name _ _
  | .collapseAll name _ _ | .resolve name _ | .resolveAll name _ | .resolveOr name _ _
  | .snapshot name _ | .delete name _ | .clear name | .forgetRetired name | .addAlias name _ _
  | .removeAlias name _ | .watch name _ | .unwatch name _ | .onChange name _ _ | .compose name _ _
  | .decompose name _ | .project name _ _ | .sameContent name _ _ | .openScope name _
  | .promote name _ | .closeScope name => some name
  | .tableNames | .pending | .drain | .encode _ | .decode _ => none

/-- Whether an operation neither adds nor discards tables nor stores in another table than the one
it is about. -/
def Operation.isLocal : Operation → Bool
  | .createTable _ | .openScope .. | .promote .. | .closeScope _ => false
  | _ => true

/-- The scope that an operation opens, if it does. -/
def opens (space : Space) : Operation → List String
  | .openScope parent child =>
    match (space.openScope parent child).1 with
    | .ok _ => [child]
    | .error _ => []
  | _ => []

/-- What an operation does to the tables of a space. -/
inductive TableEffect [Hashing] (space : Space) : Operation → NameMap Table → Prop
  /-- The tables stay as they are: the operation is refused, or it asks a question. -/
  | kept {operation : Operation} (nothing : space.opens operation = []) :
      TableEffect space operation space.tables
  /-- The table that a local operation is about runs operations of its own. -/
  | ran {operation : Operation} {name : String} {table : Table} (isLocal : operation.isLocal = true)
      (about : operation.subject? = some name) (found : space.tables.get? name = some table)
      (actions : List Table.Operation) :
      TableEffect space operation (space.tables.insert name (table.runAll actions))
  /-- A table without parent is added. -/
  | created {name : String} (absent : space.tables.get? name = none) :
      TableEffect space (.createTable name) (space.tables.insert name (.root name))
  /-- An empty scope is added. -/
  | opened {parent child : String} {outer : Table}
      (around : space.tables.get? parent = some outer)
      (absent : space.tables.get? child = none)
      (answered : (space.openScope parent child).1 = .ok ()) :
      TableEffect space (.openScope parent child)
        (space.tables.insert child (.enclosed child parent))
  /-- The table around a scope stores what an entry of the scope holds. -/
  | promoted {child key parent : String} {entry : Entry} {outer after : Table}
      {collapsed : Collapsed} (source : space.promotable child key = .ok (parent, entry))
      (around : space.tables.get? parent = some outer)
      (stored : outer.collapse entry.tag entry.value space.configuration.effectiveLength =
        .ok (collapsed, after))
      (answered : (space.promote child key).1 = .ok collapsed.handle) :
      TableEffect space (.promote child key) (space.tables.insert parent after)
  /-- A scope that encloses no other is discarded. -/
  | closed {child : String} {scope : Table} (found : space.tables.get? child = some scope)
      (isScope : scope.isScope = true)
      (innermost : ∀ table ∈ space.tables.values, table.parent ≠ some child) :
      TableEffect space (.closeScope child) (space.tables.erase child)

/-! ## Operations of one table -/

/-- The tables of a space are kept, or one of them runs operations of its own. -/
inductive Exchanged [Hashing] (space : Space) (name : String) : NameMap Table → Prop
  /-- The tables stay as they are. -/
  | kept : Exchanged space name space.tables
  /-- The table runs operations. -/
  | ran {table : Table} (found : space.tables.get? name = some table)
      (actions : List Table.Operation) :
      Exchanged space name (space.tables.insert name (table.runAll actions))

/-- Exchanging a table twice is exchanging it once. -/
theorem Exchanged.trans [Hashing] {middle : Space} {name : String} {tables : NameMap Table}
    (first : Exchanged space name middle.tables) (second : Exchanged middle name tables) :
    Exchanged space name tables := by
  cases second with
  | kept => exact first
  | @ran later foundLater actions =>
    generalize middle.tables = between at first foundLater
    cases first with
    | kept => exact .ran foundLater actions
    | @ran table found earlier =>
      rw [NameMap.get?_insert, if_pos rfl, Option.some.injEq] at foundLater
      rw [← foundLater, ← Table.runAll_append, NameMap.insert_insert]
      exact .ran found (earlier ++ actions)

/-- An action of a table exchanges it. The action is given with the operation that it is and with the
form of its answers. -/
theorem exchanged_onTable [Hashing] (space : Space) (name : String)
    (act : Table → Except Fault (α × Table)) (operation : Table.Operation)
    (answer : α → Table.Answer)
    (runs : ∀ table, table.run operation = Table.run.settle table answer (act table)) :
    Exchanged space name (space.onTable name act).2.tables := by
  rcases space.onTable_cases name act with
    ⟨fault, refused⟩ | ⟨table, result, after, found, acted, done⟩
  · rw [refused]
    exact .kept
  · have ran : table.runAll [operation] = after := by
      rw [Table.runAll, List.foldl_cons, List.foldl_nil, runs, acted, Table.run.settle]
    rw [done, ← ran]
    exact .ran found [operation]

/-- A record leaves the tables as they are. -/
theorem tables_recorded (outcome : Except Fault α × Space) (answer : α → β)
    {record : α → Space → Space}
    (keeps : ∀ result after, (record result after).tables = after.tables) :
    (recorded outcome answer record).2.tables = outcome.2.tables := by
  obtain ⟨result, after⟩ := outcome
  cases result with
  | error fault => rfl
  | ok result => exact keeps result after

/-- Storing a value exchanges the table. -/
theorem exchanged_collapse [Hashing] (space : Space) (name tag : String) (value : Value) :
    Exchanged space name (space.collapse name tag value).2.tables := by
  have keeps (collapsed : Collapsed) (after : Space) :
      (if collapsed.created then after.record name collapsed.handle .created
        else after).tables = after.tables := by
    split
    · exact tables_record ..
    · rfl
  rw [collapse_eq, tables_recorded _ _ keeps]
  exact space.exchanged_onTable name _
    (.collapse tag value space.configuration.effectiveLength) .collapsed fun _ => rfl

/-- Removing an entry exchanges the table. -/
theorem exchanged_delete [Hashing] (space : Space) (name key : String) :
    Exchanged space name (space.delete name key).2.tables := by
  rw [delete_eq, tables_recorded _ _ fun _ _ => tables_record ..]
  exact space.exchanged_onTable name _ (.delete key) .entry fun _ => rfl

/-- Removing all entries exchanges the table. -/
theorem exchanged_clear [Hashing] (space : Space) (name : String) :
    Exchanged space name (space.clear name).2.tables := by
  rw [clear_eq, tables_recorded _ _ fun _ _ => tables_recordAll ..]
  exact space.exchanged_onTable name _ .clear (fun entries => .count entries.length)
    fun table => by simp [Table.run, Table.run.settle, Table.clear, Table.size, NameMap.size,
      NameMap.values]

/-- Giving a handle a further name exchanges the table. -/
theorem exchanged_addAlias [Hashing] (space : Space) (name label handle : String) :
    Exchanged space name (space.addAlias name label handle).2.tables := by
  rw [addAlias_eq, tables_recorded _ _ fun _ _ => tables_record ..]
  exact space.exchanged_onTable name _ (.addAlias label handle) .handle fun _ => rfl

/-- Removing a further name exchanges the table. -/
theorem exchanged_removeAlias [Hashing] (space : Space) (name label : String) :
    Exchanged space name (space.removeAlias name label).2.tables := by
  rw [removeAlias_eq, tables_recorded _ _ fun _ _ => tables_record ..]
  exact space.exchanged_onTable name _ (.removeAlias label) .handle fun _ => rfl

/-- Storing values one after the other exchanges the table. -/
theorem exchanged_collapseAll [Hashing] (space : Space) (name tag : String) (values : List Value) :
    Exchanged space name (space.collapseAll name tag values).2.tables := by
  induction values generalizing space with
  | nil => exact .kept
  | cons value rest ih =>
    have first := space.exchanged_collapse name tag value
    rw [collapseAll]
    split
    next refused => rwa [refused] at first
    next after done =>
      rw [done] at first
      exact first.trans (ih after)

/-- Storing several contents as one object exchanges the table. -/
theorem exchanged_compose [Hashing] (space : Space) (name tag : String) (keys : List String) :
    Exchanged space name (space.compose name tag keys).2.tables := by
  rw [compose]
  split
  next => exact .kept
  next => exact space.exchanged_collapse ..

/-- Storing the parts of a content exchanges the table. -/
theorem exchanged_decompose [Hashing] (space : Space) (name key : String) :
    Exchanged space name (space.decompose name key).2.tables := by
  rw [decompose]
  split
  next => exact .kept
  next =>
    split
    next => exact .kept
    next => exact space.exchanged_collapseAll ..

/-! ## All operations -/

/-- Local operations open no scope. -/
theorem opens_of_isLocal {operation : Operation} (isLocal : operation.isLocal = true) :
    space.opens operation = [] := by
  cases operation with
  | openScope => cases isLocal
  | _ => rfl

/-- What exchanges a table is an effect of every local operation about it. -/
theorem Exchanged.effect [Hashing] {operation : Operation} {name : String} {tables : NameMap Table}
    (exchanged : Exchanged space name tables) (isLocal : operation.isLocal = true)
    (about : operation.subject? = some name) : TableEffect space operation tables := by
  cases exchanged with
  | kept => exact .kept (opens_of_isLocal isLocal)
  | ran found actions => exact .ran isLocal about found actions

/-- A table is added unless there is one of its name. -/
theorem tableEffect_createTable [Hashing] (space : Space) (name : String) :
    TableEffect space (.createTable name) (space.createTable name).2.tables := by
  rw [createTable]
  cases bound : space.tables.contains name with
  | true => exact .kept rfl
  | false => exact .created (NameMap.contains_eq_false_iff.mp bound)

/-- A scope is added in a table that is there unless there is one of its name. -/
theorem tableEffect_openScope [Hashing] (space : Space) (parent child : String) :
    TableEffect space (.openScope parent child) (space.openScope parent child).2.tables := by
  rcases space.openScope_cases parent child with ⟨fault, refused⟩ | ⟨outer, around, absent, done⟩
  · have nothing : space.opens (.openScope parent child) = [] := by rw [opens, refused]
    rw [refused]
    exact .kept nothing
  · have answered : (space.openScope parent child).1 = .ok () := by rw [done]
    rw [done]
    exact .opened around absent answered

/-- A promotion is refused, or the table around the scope stores the content of the entry. -/
theorem tableEffect_promote [Hashing] (space : Space) (child key : String) :
    TableEffect space (.promote child key) (space.promote child key).2.tables := by
  cases source : space.promotable child key with
  | error fault =>
    rw [promote, source]
    exact .kept rfl
  | ok found =>
    obtain ⟨parent, entry⟩ := found
    have tables : (space.promote child key).2.tables =
        (space.collapse parent entry.tag entry.value).2.tables := by
      rw [promote_eq source, tables_recorded _ _ fun _ _ => tables_record ..]
    cases result : (space.collapse parent entry.tag entry.value).1 with
    | error fault =>
      rw [tables, (space.atomic_collapse parent entry.tag entry.value).eq_of_error result]
      exact .kept rfl
    | ok handle =>
      obtain ⟨outer, collapsed, exchanged, around, stored, rfl, done⟩ := exists_of_collapse result
      have answered : (space.promote child key).1 = .ok collapsed.handle := by
        rw [promote_eq source]
        exact recorded_eq_ok result
      rw [tables, done]
      exact .promoted source around stored answered

/-- A scope is discarded unless another one is open inside it. -/
theorem tableEffect_closeScope [Hashing] (space : Space) (child : String) :
    TableEffect space (.closeScope child) (space.closeScope child).2.tables := by
  rcases space.closeScope_cases child with
    ⟨fault, refused⟩ | ⟨scope, found, isScope, innermost, done⟩
  · rw [refused]
    exact .kept rfl
  · rw [done]
    exact .closed found isScope innermost

/-- Every operation has one of the listed effects on the tables. -/
theorem run_tableEffect [Hashing] (space : Space) (operation : Operation) :
    TableEffect space operation (space.run operation).2.tables := by
  cases operation with
  | createTable name => exact space.tableEffect_createTable name
  | openScope parent child => exact space.tableEffect_openScope parent child
  | promote child key => exact space.tableEffect_promote child key
  | closeScope child => exact space.tableEffect_closeScope child
  | collapse name tag value => exact (space.exchanged_collapse name tag value).effect rfl rfl
  | collapseAll name tag values =>
    exact (space.exchanged_collapseAll name tag values).effect rfl rfl
  | delete name key => exact (space.exchanged_delete name key).effect rfl rfl
  | clear name => exact (space.exchanged_clear name).effect rfl rfl
  | forgetRetired name =>
    exact (space.exchanged_onTable name _ .forgetRetired .count fun _ => rfl).effect rfl rfl
  | addAlias name label handle => exact (space.exchanged_addAlias name label handle).effect rfl rfl
  | removeAlias name label => exact (space.exchanged_removeAlias name label).effect rfl rfl
  | watch name key =>
    exact (space.exchanged_onTable name _ (.watch key) .handle fun _ => rfl).effect rfl rfl
  | unwatch name key =>
    exact (space.exchanged_onTable name _ (.unwatch key) .flag fun _ => rfl).effect rfl rfl
  | onChange name key listener =>
    exact (space.exchanged_onTable name _ (.onChange key listener) .handle
      fun _ => rfl).effect rfl rfl
  | compose name tag keys => exact (space.exchanged_compose name tag keys).effect rfl rfl
  | decompose name key => exact (space.exchanged_decompose name key).effect rfl rfl
  | hasTable | tableNames | table | lookup | resolve | resolveAll | resolveOr | snapshot | pending
    | drain | project | sameContent | encode | decode => exact .kept rfl

/-- An entry that can be copied outward is an entry of a scope, and goes to the table around it. -/
theorem of_promotable {child key parent : String} {entry : Entry}
    (source : space.promotable child key = .ok (parent, entry)) :
    ∃ scope, space.tables.get? child = some scope ∧ scope.parent = some parent ∧
      scope.get? key = some entry := by
  simp only [promotable, table] at source
  cases found : space.tables.get? child with
  | none => simp [found, bind, Except.bind] at source
  | some scope =>
    cases enclosed : scope.parent with
    | none => simp [found, enclosed, bind, Except.bind] at source
    | some outer =>
      cases bound : scope.get? key with
      | none => simp [found, enclosed, bound, bind, Except.bind] at source
      | some other =>
        simp only [found, enclosed, bound, bind, Except.bind, Except.ok.injEq,
          Prod.mk.injEq] at source
        exact ⟨scope, rfl, by rw [enclosed, source.1], by rw [bound, source.2]⟩

/-- An operation leaves all tables but one alone. -/
structure Isolated [Hashing] (space : Space) (operation : Operation) : Prop where
  /-- A table that the operation is not about stays as it is, unless it is the table around a scope
  from which the operation promotes, or the scope that it opens. -/
  others : ∀ other, operation.subject? ≠ some other →
    (space.run operation).2.tables.get? other = space.tables.get? other ∨
      (∃ child key scope, operation = .promote child key ∧
        space.tables.get? child = some scope ∧ scope.parent = some other) ∨
      ∃ parent, operation = .openScope parent other
  /-- Opening a scope adds that scope, which was not there, and nothing else. -/
  opened : ∀ parent child, operation = .openScope parent child →
    (space.run operation).2.tables = space.tables ∨
      (space.tables.get? child = none ∧ (space.run operation).2.tables =
        space.tables.insert child (.enclosed child parent))
  /-- Closing a scope takes that scope away and nothing else. -/
  closed : ∀ child, operation = .closeScope child →
    (space.run operation).2.tables = space.tables ∨
      (space.run operation).2.tables = space.tables.erase child

/-- Every operation leaves all tables but one alone. -/
theorem isolated_run [Hashing] (space : Space) (operation : Operation) :
    space.Isolated operation where
  others := by
    intro other apart
    have effect := space.run_tableEffect operation
    generalize (space.run operation).2.tables = tables at effect
    cases effect with
    | kept => exact .inl rfl
    | ran _ about =>
      have different : other ≠ _ := fun same => apart (by rw [about, same])
      exact .inl (by rw [NameMap.get?_insert, if_neg different])
    | created =>
      have different : other ≠ _ := fun same => apart (congrArg some same.symm)
      exact .inl (by rw [NameMap.get?_insert, if_neg different])
    | @opened parent child _ _ _ _ =>
      by_cases same : other = child
      · exact .inr (.inr ⟨parent, by rw [same]⟩)
      · exact .inl (by rw [NameMap.get?_insert, if_neg same])
    | @promoted child key parent entry _ _ _ source _ _ _ =>
      obtain ⟨scope, found, enclosed, -⟩ := of_promotable source
      by_cases same : other = parent
      · exact .inr (.inl ⟨child, key, scope, rfl, found, by rw [enclosed, same]⟩)
      · exact .inl (by rw [NameMap.get?_insert, if_neg same])
    | closed =>
      have different : other ≠ _ := fun same => apart (congrArg some same.symm)
      exact .inl (by rw [NameMap.get?_erase, if_neg different])
  opened := by
    rintro parent child rfl
    rcases space.openScope_cases parent child with ⟨fault, refused⟩ | ⟨outer, -, absent, done⟩
    · exact .inl (by rw [run, run.change, refused])
    · exact .inr ⟨absent, by rw [run, run.change, done]⟩
  closed := by
    rintro child rfl
    rcases space.closeScope_cases child with ⟨fault, refused⟩ | ⟨scope, -, -, -, done⟩
    · exact .inl (by rw [run, run.change, refused])
    · exact .inr (by rw [run, run.change, done])

/-- A table after an operation was there before, in the same table, or it is added by the
operation. -/
theorem TableEffect.parent_cases [Hashing] {operation : Operation} {tables : NameMap Table}
    (effect : TableEffect space operation tables) {name : String} {table : Table}
    (found : tables.get? name = some table) :
    (∃ before, space.tables.get? name = some before ∧ before.parent = table.parent) ∨
      (space.tables.get? name = none ∧ operation = .createTable name ∧ table.parent = none) ∨
      ∃ outer parent, space.tables.get? name = none ∧ operation = .openScope parent name ∧
        table.parent = some parent ∧ space.tables.get? parent = some outer := by
  cases effect with
  | kept => exact .inl ⟨table, found, rfl⟩
  | ran _ _ bound =>
    rcases NameMap.get?_insert_eq_some_iff.mp found with ⟨rfl, rfl⟩ | ⟨-, old⟩
    · exact .inl ⟨_, bound, (Table.parent_runAll ..).symm⟩
    · exact .inl ⟨table, old, rfl⟩
  | created absent =>
    rcases NameMap.get?_insert_eq_some_iff.mp found with ⟨rfl, rfl⟩ | ⟨-, old⟩
    · exact .inr (.inl ⟨absent, rfl, rfl⟩)
    · exact .inl ⟨table, old, rfl⟩
  | opened around absent =>
    rcases NameMap.get?_insert_eq_some_iff.mp found with ⟨rfl, rfl⟩ | ⟨-, old⟩
    · exact .inr (.inr ⟨_, _, absent, rfl, rfl, around⟩)
    · exact .inl ⟨table, old, rfl⟩
  | promoted _ bound stored =>
    rcases NameMap.get?_insert_eq_some_iff.mp found with ⟨rfl, rfl⟩ | ⟨-, old⟩
    · exact .inl ⟨_, bound, (Table.parent_of_collapse stored).symm⟩
    · exact .inl ⟨table, old, rfl⟩
  | closed => exact .inl ⟨table, (NameMap.get?_erase_eq_some_iff.mp found).2, rfl⟩

end Space

end ContentSpace

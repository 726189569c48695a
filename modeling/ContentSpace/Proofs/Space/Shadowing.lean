import ContentSpace.Proofs.Space.Reached

/-!
# What keys stand for when content is stored

A key is looked up in a table and then in the tables around it, while the handle of new content is
chosen apart from the names in the table alone. So storing content never changes what the keys of
the table itself stand for, and of the other keys only the new handle: where it was found further
outward before, the new content hides what it stood for there.
-/

namespace ContentSpace

/-- A value that is the same as an integer is the integer. -/
theorem Value.eq_int_of_beq {value : Value} {n : Int64} (same : (value == .int n) = true) :
    value = .int n := by
  cases value with
  | int other => exact congrArg Value.int (beq_iff_eq.mp same)
  | _ => cases same

namespace Table

variable {table after : Table}

/-- After new content is stored its handle stands for it, and other keys for what they stood for. -/
theorem get?_store [Hashing] (consistent : table.Consistent) {entry : Entry}
    (free : table.isTaken entry.handle entry.fingerprint = false) (key : String) :
    (table.store entry).get? key =
      if key = entry.handle.text then some entry else table.get? key := by
  obtain ⟨noEntry, noAlias, -⟩ := isTaken_eq_false_iff.mp free
  by_cases new : key = entry.handle.text
  · simp [get?, Table.store, new]
  · rw [if_neg new, get?, get?]
    simp only [Table.store, NameMap.get?_insert, if_neg new]
    cases named : table.aliases.get? key with
    | none => rfl
    | some handle =>
      -- The alias stands for a live handle, which the new one is not.
      obtain ⟨old, live⟩ := consistent.alias_live named
      have different : handle.text ≠ entry.handle.text := by
        intro same
        rw [same, noEntry] at live
        cases live
      simp only [Option.bind_some, if_neg different]

/-- Storing a value finds its content and changes nothing, or stores it under a free handle. -/
theorem collapse_cases [Hashing] {tag : String} {value : Value} {length : Nat}
    {collapsed : Collapsed} (stored : table.collapse tag value length = .ok (collapsed, after)) :
    (after = table ∧ table.index.get? (Fingerprint.of value).hex = some collapsed.handle) ∨
      (after = table.store ⟨collapsed.handle, value, Fingerprint.of value, tag⟩ ∧
        table.index.get? (Fingerprint.of value).hex = none ∧
        table.isTaken collapsed.handle (Fingerprint.of value) = false) := by
  rw [collapse] at stored
  cases indexed : table.index.get? (Fingerprint.of value).hex with
  | some handle =>
    simp only [indexed, Except.ok.injEq, Prod.mk.injEq] at stored
    obtain ⟨rfl, rfl⟩ := stored
    exact .inl ⟨rfl, rfl⟩
  | none =>
    cases free : (candidates tag (Fingerprint.of value) length).find? fun handle =>
        !table.isTaken handle (Fingerprint.of value) with
    | none => simp [indexed, free] at stored
    | some handle =>
      simp only [indexed, free, Except.ok.injEq, Prod.mk.injEq] at stored
      obtain ⟨rfl, rfl⟩ := stored
      exact .inr ⟨rfl, rfl, by simpa using List.find?_some free⟩

/-- Storing a value does not move a table into another one. -/
theorem parent_of_collapse [Hashing] {tag : String} {value : Value} {length : Nat}
    {collapsed : Collapsed} (stored : table.collapse tag value length = .ok (collapsed, after)) :
    after.parent = table.parent := by
  rcases collapse_cases stored with ⟨rfl, -⟩ | ⟨rfl, -⟩
  · rfl
  · rfl

/-- After a value is stored, its handle stands for the value if it stood for nothing before, and
every other key stands for what it stood for. -/
theorem value_get?_collapse [Hashing] (consistent : table.Consistent) {tag : String} {value : Value}
    {length : Nat} {collapsed : Collapsed}
    (stored : table.collapse tag value length = .ok (collapsed, after)) (key : String) :
    (after.get? key).map Entry.value =
      if table.contains key = false ∧ key = collapsed.handle.text then some value
      else (table.get? key).map Entry.value := by
  rcases collapse_cases stored with ⟨rfl, indexed⟩ | ⟨rfl, -, free⟩
  · obtain ⟨entry, live, -⟩ := consistent.index_iff.mp indexed
    have bound : after.contains collapsed.handle.text = true := by simp [contains, get?, live]
    rw [if_neg]
    rintro ⟨unbound, rfl⟩
    rw [bound] at unbound
    cases unbound
  · obtain ⟨noEntry, noAlias, -⟩ := isTaken_eq_false_iff.mp free
    have unbound : table.contains collapsed.handle.text = false := by
      simp [contains, get?, noEntry, noAlias]
    rw [get?_store consistent free]
    by_cases new : key = collapsed.handle.text
    · subst new
      rw [if_pos rfl, if_pos ⟨unbound, rfl⟩, Option.map_some]
    · rw [if_neg new, if_neg fun both => new both.2]

end Table

namespace Space

variable {space after : Space} {name : String} {table : Table}

/-- A table itself binds a key, as a handle or as an alias. -/
def Binds (space : Space) (name key : String) : Prop :=
  ∃ table, space.tables.get? name = some table ∧ table.contains key = true

/-- The tables around a table, from the inside outward. -/
def surrounding (space : Space) (name : String) : List Table := (ancestry space.tables name).tail

/-! ## Looking keys up -/

/-- The ancestry of a table is the table and the ancestry of its parent, the table itself left
out. -/
theorem ancestry_eq {tables : NameMap Table} (found : tables.get? name = some table) :
    ancestry tables name = table :: match table.parent with
      | none => []
      | some parent => ancestry (tables.erase name) parent := by
  rw [ancestry]
  split
  next absent =>
    rw [found] at absent
    cases absent
  next other bound =>
    rw [found, Option.some.injEq] at bound
    subst bound
    rfl

/-- The ancestry of a table starts with the table. -/
theorem ancestry_eq_cons {tables : NameMap Table} (found : tables.get? name = some table) :
    ancestry tables name = table :: (ancestry tables name).tail := by
  rw [ancestry_eq found, List.tail_cons]

/-- The tables around a table are its parent and the tables around that, the table itself left
out. -/
theorem surrounding_eq (found : space.tables.get? name = some table) :
    space.surrounding name = match table.parent with
      | none => []
      | some parent => ancestry (space.tables.erase name) parent := by
  rw [surrounding, ancestry_eq found, List.tail_cons]

/-- Nothing is around a table that is no scope. -/
theorem surrounding_eq_nil (found : space.tables.get? name = some table)
    (outermost : table.parent = none) : space.surrounding name = [] := by
  rw [surrounding_eq found, outermost]

/-- Exchanging a table for one with the same parent leaves the tables around it as they are. -/
theorem surrounding_exchange {exchanged : Table} (found : space.tables.get? name = some table)
    (parent : exchanged.parent = table.parent)
    (tables : after.tables = space.tables.insert name exchanged) :
    after.surrounding name = space.surrounding name := by
  have bound : after.tables.get? name = some exchanged := by
    rw [tables, NameMap.get?_insert, if_pos rfl]
  have others : after.tables.erase name = space.tables.erase name := by
    apply NameMap.ext_get?
    intro other
    simp only [tables, NameMap.get?_erase, NameMap.get?_insert]
    split <;> rfl
  rw [surrounding_eq bound, surrounding_eq found, parent, others]

/-- What a key stands for is found in the table itself, or else around it. -/
theorem resolve_eq (found : space.tables.get? name = some table) (key : String) :
    space.resolve name key =
      match (table.get? key).map Entry.value <|>
        ((space.surrounding name).findSome? (·.get? key)).map Entry.value with
      | some value => .ok value
      | none => .error (.notFound name key) := by
  have known : space.table name = .ok table := by rw [Space.table, found]
  rw [resolve, lookup, known, ancestry_eq_cons found, List.findSome?_cons, ← surrounding]
  cases table.get? key with
  | some entry => rfl
  | none => cases (space.surrounding name).findSome? (·.get? key) <;> rfl

/-- A key that a scope does not bind stands for what it stands for in the table around the scope, if
that binds it. -/
theorem resolve_of_enclosing {parent key : String} {outer : Table} {entry : Entry}
    (found : space.tables.get? name = some table) (unbound : table.get? key = none)
    (enclosed : table.parent = some parent)
    (around : (space.tables.erase name).get? parent = some outer)
    (bound : outer.get? key = some entry) : space.resolve name key = .ok entry.value := by
  have outward : space.surrounding name =
      outer :: (ancestry (space.tables.erase name) parent).tail := by
    rw [surrounding_eq found, enclosed]
    exact ancestry_eq_cons around
  rw [resolve_eq found, unbound, outward, List.findSome?_cons, bound]
  rfl

/-- In a table the content of the number three has the handle `v:9`, which is found in an empty
scope inside the table, but not bound there. -/
theorem resolve_in_empty_scope :
    let space := (ofConfiguration { digestLength := 1 }).runAll
      [.createTable "t", .collapse "t" "v" (.int 3), .openScope "t" "s"]
    space.resolve "s" "v:9" = .ok (.int 3) ∧ ¬ space.Binds "s" "v:9" := by
  intro space
  obtain ⟨scope, found⟩ : ∃ scope, space.tables.get? "s" = some scope :=
    Option.isSome_iff_exists.mp (by decide +kernel)
  obtain ⟨outer, around⟩ : ∃ outer, (space.tables.erase "s").get? "t" = some outer :=
    Option.isSome_iff_exists.mp (by decide +kernel)
  have enclosed : (space.tables.get? "s").bind Table.parent = some "t" := by decide +kernel
  have unbound : ((space.tables.get? "s").bind (·.get? "v:9")).isNone = true := by decide +kernel
  have content : (((space.tables.erase "s").get? "t").bind (·.get? "v:9")).map
      (fun entry => entry.value == .int 3) = some true := by decide +kernel
  rw [found, Option.bind_some] at enclosed unbound
  rw [around, Option.bind_some] at content
  obtain ⟨entry, bound, same⟩ := Option.map_eq_some_iff.mp content
  rw [Option.isNone_iff_eq_none] at unbound
  have resolved : space.resolve "s" "v:9" = .ok entry.value :=
    resolve_of_enclosing found unbound enclosed around bound
  rw [Value.eq_int_of_beq same] at resolved
  refine ⟨resolved, ?_⟩
  rintro ⟨other, again, binds⟩
  rw [found, Option.some.injEq] at again
  rw [← again, Table.contains, unbound] at binds
  cases binds

/-- A table that is bound to a name is the one that the space answers with. -/
theorem table_of_get? (found : space.tables.get? name = some table) :
    space.table name = .ok table := by
  rw [Space.table, found]

/-- A table that a space answers with is bound to its name. -/
theorem get?_of_table (known : space.table name = .ok table) :
    space.tables.get? name = some table := by
  rw [Space.table] at known
  cases found : space.tables.get? name with
  | none =>
    rw [found] at known
    cases known
  | some other =>
    rw [found] at known
    exact congrArg some (Except.ok.inj known)

/-! ## Storing values -/

/-- When storing a value answers with a handle, a table has stored it and is exchanged. -/
theorem exists_of_collapse [Hashing] {tag : String} {value : Value} {handle : Handle}
    (stored : (space.collapse name tag value).1 = .ok handle) :
    ∃ table collapsed exchanged, space.tables.get? name = some table ∧
      table.collapse tag value space.configuration.effectiveLength = .ok (collapsed, exchanged) ∧
      collapsed.handle = handle ∧
      (space.collapse name tag value).2.tables = space.tables.insert name exchanged := by
  rw [collapse] at stored ⊢
  rcases space.onTable_cases name
    (·.collapse tag value space.configuration.effectiveLength) with
    ⟨fault, refused⟩ | ⟨table, ⟨given, created⟩, exchanged, found, ran, done⟩
  · rw [refused] at stored
    cases stored
  · rw [done] at stored ⊢
    cases created with
    | true => exact ⟨table, _, exchanged, found, ran, Except.ok.inj stored, tables_record ..⟩
    | false => exact ⟨table, _, exchanged, found, ran, Except.ok.inj stored, rfl⟩

/-- After a value is stored in a table, its handle stands for the value there if the table itself
did not bind it before; every other key of the table stands for what it stood for. -/
theorem TablesReached.resolve_collapse [Hashing] (reached : space.TablesReached) {tag key : String}
    {value content : Value} {handle : Handle} (resolved : space.resolve name key = .ok content)
    (stored : (space.collapse name tag value).1 = .ok handle) :
    (space.Binds name key ∨ key ≠ handle.text →
      (space.collapse name tag value).2.resolve name key = .ok content) ∧
    (¬ space.Binds name key → key = handle.text →
      (space.collapse name tag value).2.resolve name key = .ok value) := by
  obtain ⟨table, collapsed, exchanged, found, ran, rfl, tables⟩ := exists_of_collapse stored
  have binds_iff : space.Binds name key ↔ table.contains key = true := by
    simp [Binds, found]
  have bound : (space.collapse name tag value).2.tables.get? name = some exchanged := by
    rw [tables, NameMap.get?_insert, if_pos rfl]
  have around := surrounding_exchange found (Table.parent_of_collapse ran) tables
  have values := Table.value_get?_collapse (reached.consistent found) ran key
  rw [binds_iff, resolve_eq bound, around, values]
  constructor
  · intro kept
    rw [if_neg, ← resolve_eq found]
    · exact resolved
    · rintro ⟨unbound, new⟩
      rcases kept with inside | old
      · rw [unbound] at inside
        cases inside
      · exact old new
  · intro unbound new
    rw [if_pos ⟨Bool.eq_false_iff.mpr unbound, new⟩]
    rfl

/-- In a table that is no scope, a key that stands for something is bound in the table itself. -/
theorem binds_of_resolve {key : String} {content : Value}
    (found : space.tables.get? name = some table) (outermost : table.isScope = false)
    (resolved : space.resolve name key = .ok content) : space.Binds name key := by
  have alone : space.surrounding name = [] := by
    refine surrounding_eq_nil found ?_
    rw [Table.isScope, Option.isSome_eq_false_iff, Option.isNone_iff_eq_none] at outermost
    exact outermost
  refine ⟨table, found, ?_⟩
  rw [resolve_eq found, alone] at resolved
  cases inside : table.get? key with
  | some entry => rw [Table.contains, inside, Option.isSome_some]
  | none =>
    rw [inside] at resolved
    cases resolved

/-- In every space that a history reaches, a key that stands for a value in a table still stands for
that very value after any value is stored in the table, unless the key is the handle that this
answers and is not bound in the table itself; then it stands for the stored value. In a table that
is no scope every key keeps its value. -/
theorem resolve_after_collapse [Hashing] (configuration : SpaceConfiguration)
    (history : List Operation) (name tag key : String) (value content : Value) (handle : Handle) :
    let space := (ofConfiguration configuration).runAll history
    let after := (space.collapse name tag value).2
    space.resolve name key = .ok content → (space.collapse name tag value).1 = .ok handle →
      (space.Binds name key ∨ key ≠ handle.text → after.resolve name key = .ok content) ∧
      (¬ space.Binds name key → key = handle.text → after.resolve name key = .ok value) ∧
      ∀ table, space.table name = .ok table → table.isScope = false →
        after.resolve name key = .ok content := by
  intro space after resolved stored
  have reached : space.TablesReached := tablesReached_runAll configuration history
  obtain ⟨kept, hidden⟩ := reached.resolve_collapse resolved stored
  refine ⟨kept, hidden, ?_⟩
  intro table known outermost
  exact kept (.inl (binds_of_resolve (get?_of_table known) outermost resolved))

/-- A key that is found in the table around a scope still stands for its value after the scope has
stored content with another handle. -/
theorem resolve_after_collapse_in_scope :
    let space := (ofConfiguration { digestLength := 1 }).runAll
      [.createTable "t", .collapse "t" "v" (.int 3), .openScope "t" "s"]
    let after := (space.collapse "s" "v" (.int 1)).2
    space.resolve "s" "v:9" = .ok (.int 3) ∧
      (space.collapse "s" "v" (.int 1)).1 = .ok ⟨"v:d"⟩ ∧
      after.resolve "s" "v:9" = .ok (.int 3) := by
  intro space after
  obtain ⟨resolved, -⟩ := resolve_in_empty_scope
  have stored : (space.collapse "s" "v" (.int 1)).1 = .ok ⟨"v:d"⟩ := by decide +kernel
  obtain ⟨kept, -, -⟩ := resolve_after_collapse { digestLength := 1 }
    [.createTable "t", .collapse "t" "v" (.int 3), .openScope "t" "s"] "s" "v" "v:9" (.int 1)
    (.int 3) ⟨"v:d"⟩ resolved stored
  exact ⟨resolved, stored, kept (.inr (by decide))⟩

/-- A scope stores content whose handle so far was found in the table around the scope, where it
stands for other content. The handle then stands for the new content. -/
theorem collapse_shadows_enclosing_handle :
    let space := (ofConfiguration { digestLength := 1 }).runAll
      [.createTable "t", .collapse "t" "v" (.int 3), .openScope "t" "s"]
    let after := (space.collapse "s" "v" (.int 19)).2
    space.resolve "s" "v:9" = .ok (.int 3) ∧
      (space.collapse "s" "v" (.int 19)).1 = .ok ⟨"v:9"⟩ ∧
      after.resolve "s" "v:9" = .ok (.int 19) ∧ (Value.int 19 == .int 3) = false := by
  intro space after
  have reached : space.TablesReached := tablesReached_runAll _ _
  have stored : (space.collapse "s" "v" (.int 19)).1 = .ok ⟨"v:9"⟩ := by decide +kernel
  obtain ⟨resolved, unbound⟩ := resolve_in_empty_scope
  exact ⟨resolved, stored, (reached.resolve_collapse resolved stored).2 unbound rfl, by decide⟩

end Space

end ContentSpace

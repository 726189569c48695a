import ContentSpace.Proofs.NameMap
import ContentSpace.Table.Operation

/-!
# What the operations of a table do

`Effect` lists everything an operation can do to a table: the condition under which it does it, its
answer and the table after it. Laws of whole histories are shown for each effect once, and carried
along a history by `runAll_preserves`, without opening the operations again.
-/

namespace ContentSpace.Table

variable {table : Table}

/-- The table without an entry whose handle is retired. -/
def removed (table : Table) (entry : Entry) : Table :=
  { table with
    entries := table.entries.erase entry.handle.text
    index := table.index.erase entry.fingerprint.hex
    retired := table.retired.insert entry.handle.text entry.fingerprint
    aliases := table.aliases.filterValues (· != entry.handle) }

/-- The listeners of a handle when one more listens. -/
def listening (table : Table) (handle : Handle) (listener : String) : List String :=
  let listeners := (table.listeners? handle).getD []
  if listeners.contains listener then listeners else listeners ++ [listener]

/-- What an operation answers and does to a table. -/
inductive Effect [Hashing] (table : Table) : Operation → Except Fault Answer → Table → Prop
  /-- The operation is refused. -/
  | refused (operation : Operation) (fault : Fault) : Effect table operation (.error fault) table
  /-- The content is stored already. -/
  | known {tag : String} {value : Value} {length : Nat} {handle : Handle}
      (indexed : table.index.get? (Fingerprint.of value).hex = some handle) :
      Effect table (.collapse tag value length) (.ok (.collapsed ⟨handle, false⟩)) table
  /-- The content is stored under a new handle that is not taken. -/
  | stored {tag : String} {value : Value} {length : Nat} {handle : Handle}
      (absent : table.index.get? (Fingerprint.of value).hex = none)
      (candidate : handle ∈ candidates tag (Fingerprint.of value) length)
      (free : table.isTaken handle (Fingerprint.of value) = false) :
      Effect table (.collapse tag value length) (.ok (.collapsed ⟨handle, true⟩))
        (table.store ⟨handle, value, Fingerprint.of value, tag⟩)
  /-- An entry is removed. -/
  | deleted {key : String} {entry : Entry} (found : table.get? key = some entry) :
      Effect table (.delete key) (.ok (.entry entry)) (table.removed entry)
  /-- All entries are removed. -/
  | cleared : Effect table .clear (.ok (.count table.size)) table.clear.2
  /-- Retired handles are released. -/
  | forgotten : Effect table .forgetRetired (.ok (.count table.retiredCount)) table.forgetRetired.2
  /-- A live handle is given a further name. -/
  | named {name key : String} {entry : Entry} (live : table.entries.get? key = some entry)
      (apart : table.entries.get? name = none)
      (free : ∀ other, table.aliases.get? name = some other → other = entry.handle) :
      Effect table (.addAlias name key) (.ok (.handle entry.handle))
        { table with aliases := table.aliases.insert name entry.handle }
  /-- A further name is removed. -/
  | unnamed {name : String} {handle : Handle} (found : table.aliases.get? name = some handle) :
      Effect table (.removeAlias name) (.ok (.handle handle))
        { table with aliases := table.aliases.erase name }
  /-- A handle is watched. -/
  | watched {key : String} {entry : Entry} (found : table.get? key = some entry) :
      Effect table (.watch key) (.ok (.handle entry.handle))
        { table with watched :=
            table.watched.insert entry.handle.text ((table.listeners? entry.handle).getD []) }
  /-- A listener is added. -/
  | listened {key listener : String} {entry : Entry} (found : table.get? key = some entry) :
      Effect table (.onChange key listener) (.ok (.handle entry.handle))
        { table with watched :=
            table.watched.insert entry.handle.text (table.listening entry.handle listener) }
  /-- A handle is no longer watched. -/
  | unwatched {key : String} :
      Effect table (.unwatch key) (.ok (.flag (table.unwatch key).1)) (table.unwatch key).2

/-- A handle is free for content when no entry and no alias has it and it is not retired for other
content. -/
theorem isTaken_eq_false_iff {handle : Handle} {fingerprint : Fingerprint} :
    table.isTaken handle fingerprint = false ↔
      table.entries.get? handle.text = none ∧ table.aliases.get? handle.text = none ∧
        ∀ other, table.retired.get? handle.text = some other → other = fingerprint := by
  rw [isTaken, Bool.or_eq_false_iff, Bool.or_eq_false_iff, NameMap.contains_eq_false_iff,
    NameMap.contains_eq_false_iff, and_assoc]
  cases table.retired.get? handle.text <;> simp

/-- A handle that content may get is made from its tag and at least one digit. -/
theorem mem_candidates {tag : String} {fingerprint : Fingerprint} {length : Nat} {handle : Handle}
    (candidate : handle ∈ candidates tag fingerprint length) :
    ∃ digits, 0 < digits ∧ handle = Handle.mint tag fingerprint digits := by
  obtain ⟨digits, inside, rfl⟩ := List.mem_map.mp candidate
  have atLeast : firstLength length ≤ digits := (List.mem_range'_1.mp inside).1
  have positive : 0 < firstLength length := Nat.le_max_left ..
  exact ⟨digits, by omega, rfl⟩

/-- Storing a value finds its content, gives it a free handle, or is refused. -/
theorem effect_collapse [Hashing] (table : Table) (tag : String) (value : Value) (length : Nat) :
    Effect table (.collapse tag value length) (table.run (.collapse tag value length)).1
      (table.run (.collapse tag value length)).2 := by
  simp only [run, collapse]
  cases indexed : table.index.get? (Fingerprint.of value).hex with
  | some handle => exact .known indexed
  | none =>
    cases free : (candidates tag (Fingerprint.of value) length).find? fun handle =>
        !table.isTaken handle (Fingerprint.of value) with
    | none => exact .refused _ _
    | some handle =>
      have untaken : table.isTaken handle (Fingerprint.of value) = false := by
        simpa using List.find?_some free
      exact .stored indexed (List.mem_of_find?_eq_some free) untaken

/-- Naming a live handle is refused for names of handles and of other aliases only. -/
theorem effect_addAlias [Hashing] (table : Table) (name key : String) :
    Effect table (.addAlias name key) (table.run (.addAlias name key)).1
      (table.run (.addAlias name key)).2 := by
  simp only [run, addAlias]
  cases live : table.entries.get? key with
  | none => exact .refused _ _
  | some entry =>
    by_cases apart : table.entries.contains name = true
    · simp only [bind, Except.bind, apart, if_true]
      exact .refused _ _
    · simp only [bind, Except.bind, apart]
      rw [Bool.not_eq_true, NameMap.contains_eq_false_iff] at apart
      cases other : (table.aliases.get? name).filter (· != entry.handle) with
      | some handle => exact .refused _ _
      | none =>
        refine .named live apart ?_
        intro handle bound
        simpa [bound] using other

/-- Every operation has one of the listed effects. -/
theorem run_effect [Hashing] (table : Table) (operation : Operation) :
    Effect table operation (table.run operation).1 (table.run operation).2 := by
  cases operation with
  | collapse tag value length => exact effect_collapse table tag value length
  | delete key =>
    simp only [run, delete, find]
    cases found : table.get? key with
    | none => exact .refused _ _
    | some entry => exact .deleted found
  | clear => exact .cleared
  | forgetRetired => exact .forgotten
  | addAlias name key => exact effect_addAlias table name key
  | removeAlias name =>
    simp only [run, removeAlias]
    cases found : table.aliases.get? name with
    | none => exact .refused _ _
    | some handle => exact .unnamed found
  | watch key =>
    simp only [run, watch, find]
    cases found : table.get? key with
    | none => exact .refused _ _
    | some entry => exact .watched found
  | onChange key listener =>
    simp only [run, onChange, find]
    cases found : table.get? key with
    | none => exact .refused _ _
    | some entry => exact .listened found
  | unwatch key => exact .unwatched

/-- Histories in a row run one after the other. -/
theorem runAll_append [Hashing] (table : Table) (first second : List Operation) :
    table.runAll (first ++ second) = (table.runAll first).runAll second :=
  List.foldl_append

/-- The last operation of a history runs after all others. -/
theorem runAll_append_singleton [Hashing] (table : Table) (history : List Operation)
    (last : Operation) :
    table.runAll (history ++ [last]) = ((table.runAll history).run last).2 := by
  rw [runAll_append, runAll, List.foldl_cons, List.foldl_nil]

/-- What every effect of the operations in a history preserves holds after the history. -/
theorem runAll_preserves [Hashing] {holds : Table → Prop} {history : List Operation}
    (step : ∀ operation ∈ history, ∀ table answer after,
      holds table → Effect table operation answer after → holds after)
    {table : Table} (start : holds table) : holds (table.runAll history) := by
  induction history generalizing table with
  | nil => exact start
  | cons operation rest ih =>
    have first : holds (table.run operation).2 :=
      step operation List.mem_cons_self _ _ _ start (table.run_effect operation)
    exact ih (fun later member => step later (List.mem_cons_of_mem _ member)) first

end ContentSpace.Table

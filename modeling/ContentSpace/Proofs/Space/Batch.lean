import ContentSpace.Proofs.Space.Content
import Mathlib.Data.List.Forall2

/-!
# Storing and resolving several values

Values that are stored one after the other each meet the table that the earlier ones left.
`Table.Adds` says what every such step keeps: the index, what keys stand for, and that nothing is
stored but what was stored before and the values. So at the end the index lists each value under the
handle that was answered for it, and resolving the handles gives the values back.
-/

namespace ContentSpace

namespace Table

variable {table middle after : Table} {values others base : List Value} {value other : Value}
  {handle twin : Handle}

/-- A table goes over into one that keeps what it lists and binds and adds some of the values. -/
structure Adds (values : List Value) (table after : Table) : Prop where
  /-- The index keeps its handles. -/
  index : ∀ {digits handle}, table.index.get? digits = some handle →
    after.index.get? digits = some handle
  /-- Keys stand for what they stood for. -/
  bound : ∀ {key entry}, table.get? key = some entry → after.get? key = some entry
  /-- Only old contents and the values are stored. -/
  contents : after.contents ⊆ table.contents ++ values

namespace Adds

/-- Nothing is added. -/
theorem refl : Adds values table table := ⟨id, id, List.subset_append_left ..⟩

/-- More can be added to what was added. -/
theorem trans (first : Adds values table middle) (second : Adds others middle after) :
    Adds (values ++ others) table after where
  index listed := second.index (first.index listed)
  bound found := second.bound (first.bound found)
  contents := by
    intro value member
    have later := second.contents member
    rw [List.mem_append] at later
    rcases later with middle | new
    · have earlier := first.contents middle
      simp only [List.mem_append] at earlier ⊢
      exact earlier.imp_right .inl
    · simp [new]

end Adds

/-- Storing a value adds it, and then the index lists it under the handle that is answered. -/
theorem Consistent.adds_collapse [Hashing] (consistent : table.Consistent) {tag : String}
    {length : Nat} {collapsed : Collapsed}
    (stored : table.collapse tag value length = .ok (collapsed, after)) :
    Adds [value] table after ∧ after.Indexes value collapsed.handle := by
  rcases collapse_cases stored with ⟨rfl, indexed⟩ | ⟨rfl, absent, free⟩
  · exact ⟨.refl, indexed⟩
  · -- The new handle was bound to nothing, and the new fingerprint was not listed.
    obtain ⟨noEntry, noAlias, -⟩ := isTaken_eq_false_iff.mp free
    refine ⟨⟨?_, ?_, ?_⟩, ?_⟩
    · intro digits handle listed
      refine NameMap.get?_insert_eq_some_iff.mpr (.inr ⟨?_, listed⟩)
      rintro rfl
      rw [absent] at listed
      cases listed
    · intro key entry found
      rw [get?_store consistent free, if_neg, found]
      rintro rfl
      simp [get?, noEntry, noAlias] at found
    · intro content member
      obtain ⟨key, entry, live, rfl⟩ := mem_contents_iff.mp member
      rcases NameMap.get?_insert_eq_some_iff.mp live with ⟨-, rfl⟩ | ⟨-, old⟩
      · simp
      · exact List.mem_append_left _ (mem_contents_iff.mpr ⟨key, entry, old, rfl⟩)
    · exact NameMap.get?_insert_eq_some_iff.mpr (.inl ⟨rfl, rfl⟩)

/-- Where fingerprints separate, a listed value is what its handle stands for. -/
theorem Consistent.beq_of_indexes [Hashing] (consistent : table.Consistent)
    (separates : Fingerprint.Separates base) (stored : table.contents ⊆ base)
    (member : value ∈ base) (indexed : table.Indexes value handle) :
    ∃ entry, table.get? handle.text = some entry ∧ (entry.value == value) = true := by
  obtain ⟨entry, found, -, prints⟩ := consistent.get?_of_indexes indexed
  have content : entry.value ∈ base := stored (consistent.mem_contents found)
  exact ⟨entry, found, (separates.of_eq_iff content member).mp prints⟩

/-- Where fingerprints separate, listed values are the same exactly when their handles are. -/
theorem Consistent.beq_iff_handle_eq [Hashing] (consistent : table.Consistent)
    (separates : Fingerprint.Separates base) (member : value ∈ base) (inside : other ∈ base)
    (indexed : table.Indexes value handle) (again : table.Indexes other twin) :
    (value == other) = true ↔ handle = twin := by
  rw [← separates.of_eq_iff member inside]
  constructor
  · intro prints
    rw [Indexes, prints, again, Option.some.injEq] at indexed
    exact indexed.symm
  · rintro rfl
    obtain ⟨entry, found, -, first⟩ := consistent.get?_of_indexes indexed
    obtain ⟨same, second, -, last⟩ := consistent.get?_of_indexes again
    rw [found, Option.some.injEq] at second
    rw [← first, second, last]

end Table

namespace Space

variable {space : Space} {name tag : String} {table : Table} {values base contents : List Value}
  {handles : List Handle} {keys : List String}

/-! ## Resolving several keys -/

/-- Keys are resolved when each of them is. -/
theorem resolveAll_eq_ok_iff : space.resolveAll name keys = .ok contents ↔
    List.Forall₂ (fun key content => space.resolve name key = .ok content) keys contents := by
  rw [resolveAll]
  induction keys generalizing contents with
  | nil => cases contents <;> simp [pure, Except.pure]
  | cons key rest ih =>
    rw [List.mapM_cons]
    cases first : space.resolve name key with
    | error fault => cases contents <;> simp [bind, Except.bind, first]
    | ok content =>
      cases others : rest.mapM (space.resolve name) with
      | error fault => cases contents <;> simp [bind, Except.bind, first, ← ih, others]
      | ok further =>
        cases contents <;>
          simp [bind, Except.bind, pure, Except.pure, first, ← ih, others]

/-- The handles of listed values resolve to the values. -/
theorem resolveAll_of_indexes [Hashing] (found : space.tables.get? name = some table)
    (consistent : table.Consistent) (separates : Fingerprint.Separates base)
    (stored : table.contents ⊆ base) (part : values ⊆ base)
    (indexed : List.Forall₂ table.Indexes values handles) :
    ∃ contents, space.resolveAll name (handles.map Handle.text) = .ok contents ∧
      List.Forall₂ (fun again value => (again == value) = true) contents values := by
  induction indexed with
  | nil => exact ⟨[], rfl, .nil⟩
  | @cons value handle values handles first _ ih =>
    obtain ⟨member, rest⟩ := List.cons_subset.mp part
    obtain ⟨entry, bound, same⟩ := consistent.beq_of_indexes separates stored member first
    obtain ⟨contents, resolved, others⟩ := ih rest
    have content : space.resolve name handle.text = .ok entry.value := by
      rw [resolve, lookup_of_get? found bound]
      rfl
    refine ⟨entry.value :: contents, ?_, .cons same others⟩
    rw [resolveAll_eq_ok_iff] at resolved ⊢
    exact .cons content resolved

/-! ## Storing several values -/

/-- Storing listed values answers their handles and changes nothing. -/
theorem collapseAll_of_indexes [Hashing] (found : space.tables.get? name = some table)
    (indexed : List.Forall₂ table.Indexes values handles) :
    space.collapseAll name tag values = (.ok handles, space) := by
  induction indexed with
  | nil => rfl
  | cons first _ ih => simp only [collapseAll, collapse_of_indexes found first, ih, Except.map]

/-- Storing a value adds it to its table, which then lists it. -/
theorem TablesReached.adds_collapse [Hashing] (reached : space.TablesReached) {value : Value}
    {handle : Handle} (found : space.tables.get? name = some table)
    (stored : (space.collapse name tag value).1 = .ok handle) :
    ∃ after, (space.collapse name tag value).2.tables.get? name = some after ∧
      table.Adds [value] after ∧ after.Indexes value handle := by
  obtain ⟨known, collapsed, after, bound, ran, rfl, tables⟩ := exists_of_collapse stored
  rw [found, Option.some.injEq] at bound
  subst bound
  obtain ⟨adds, indexed⟩ := (reached.consistent found).adds_collapse ran
  exact ⟨after, by rw [tables, NameMap.get?_insert, if_pos rfl], adds, indexed⟩

/-- When storing several values answers handles, the first value is stored, and then the others in
the space after that. -/
theorem collapseAll_cons [Hashing] {value : Value}
    (stored : (space.collapseAll name tag (value :: values)).1 = .ok handles) :
    ∃ handle others, handles = handle :: others ∧ (space.collapse name tag value).1 = .ok handle ∧
      ((space.collapse name tag value).2.collapseAll name tag values).1 = .ok others ∧
      (space.collapseAll name tag (value :: values)).2 =
        ((space.collapse name tag value).2.collapseAll name tag values).2 := by
  rw [collapseAll] at stored ⊢
  cases first : space.collapse name tag value with
  | mk answer middle =>
    rw [first] at stored
    cases answer with
    | error fault => cases stored
    | ok handle =>
      cases rest : (middle.collapseAll name tag values).1 with
      | error fault => simp [rest, Except.map] at stored
      | ok others =>
        simp only [rest, Except.map, Except.ok.injEq] at stored
        exact ⟨handle, others, stored.symm, rfl, rfl, rfl⟩

/-- Storing values adds them to their table, which then lists all of them. -/
theorem TablesReached.adds_collapseAll [Hashing] (reached : space.TablesReached)
    (found : space.tables.get? name = some table)
    (stored : (space.collapseAll name tag values).1 = .ok handles) :
    ∃ after, (space.collapseAll name tag values).2.tables.get? name = some after ∧
      table.Adds values after ∧ List.Forall₂ after.Indexes values handles := by
  induction values generalizing space table handles with
  | nil =>
    rw [collapseAll, Except.ok.injEq] at stored
    subst stored
    exact ⟨table, found, .refl, .nil⟩
  | cons value rest ih =>
    obtain ⟨handle, others, rfl, first, later, same⟩ := collapseAll_cons stored
    obtain ⟨middle, between, adds, indexed⟩ := reached.adds_collapse found first
    obtain ⟨after, bound, further, listed⟩ :=
      ih (reached.moves (space.moves_collapse name tag value)) between later
    -- The first handle survives the later steps, because the index keeps it.
    exact ⟨after, by rw [same, bound], adds.trans further, .cons (further.index indexed) listed⟩

/-- In every space that a history reaches, several values are stored in a table, and among them and
what the table stores different values have different fingerprints. If this answers handles, there
is one for each value, two of them are equal exactly when their values are the same, and resolving
the handles at once gives the values in their order. -/
theorem resolveAll_after_collapseAll [Hashing] (configuration : SpaceConfiguration)
    (history : List Operation) (name tag : String) (table : Table) (values : List Value)
    (handles : List Handle) :
    let space := (ofConfiguration configuration).runAll history
    let after := (space.collapseAll name tag values).2
    space.table name = .ok table → Fingerprint.Separates (table.contents ++ values) →
      (space.collapseAll name tag values).1 = .ok handles →
        handles.length = values.length ∧
        (∀ value handle other twin, (value, handle) ∈ values.zip handles →
          (other, twin) ∈ values.zip handles → ((value == other) = true ↔ handle = twin)) ∧
        ∃ contents, after.resolveAll name (handles.map Handle.text) = .ok contents ∧
          List.Forall₂ (fun again value => (again == value) = true) contents values := by
  intro space after known separates stored
  have reached : space.TablesReached := tablesReached_runAll configuration history
  obtain ⟨final, bound, adds, indexed⟩ := reached.adds_collapseAll (get?_of_table known) stored
  have consistent : final.Consistent :=
    (reached.moves (space.moves_collapseAll name tag values)).consistent bound
  have part : values ⊆ table.contents ++ values := List.subset_append_right ..
  refine ⟨indexed.length_eq.symm, ?_,
    resolveAll_of_indexes bound consistent separates adds.contents part indexed⟩
  intro value handle other twin pair pairTwin
  have listed {value : Value} {handle : Handle} (pair : (value, handle) ∈ values.zip handles) :
      final.Indexes value handle := (List.forall₂_iff_zip.mp indexed).2 pair
  exact consistent.beq_iff_handle_eq separates (part (List.of_mem_zip pair).1)
    (part (List.of_mem_zip pairTwin).1) (listed pair) (listed pairTwin)

/-- In a scope one value is stored with another tag, the handle of one is retired, and the short
handle of one is an alias. Stored together, with one value twice, they get three handles, which
resolve to the values. -/
theorem resolveAll_after_collapseAll_in_scope :
    let space := (ofConfiguration { digestLength := 1 }).runAll
      [.createTable "t", .collapse "t" "v" (.int 19), .openScope "t" "s",
        .collapse "s" "w" (.int 3), .collapse "s" "v" (.int 1), .delete "s" "v:d",
        .addAlias "s" "v:9" "w:9"]
    let values : List Value := [.int 19, .int 3, .int 1, .int 19]
    let handles : List Handle := [⟨"v:9b"⟩, ⟨"w:9"⟩, ⟨"v:d"⟩, ⟨"v:9b"⟩]
    let after := (space.collapseAll "s" "v" values).2
    (space.collapseAll "s" "v" values).1 = .ok handles ∧
      ∃ contents, after.resolveAll "s" (handles.map Handle.text) = .ok contents ∧
        List.Forall₂ (fun again value => (again == value) = true) contents values := by
  intro space values handles after
  have different : (space.tables.get? "s").map
      (fun table => decide (Fingerprint.Separates (table.contents ++ values))) = some true := by
    decide +kernel
  obtain ⟨table, found, separates⟩ := Option.map_eq_some_iff.mp different
  have known : space.table "s" = .ok table := by rw [Space.table, found]
  have stored : (space.collapseAll "s" "v" values).1 = .ok handles := by decide +kernel
  obtain ⟨-, -, resolved⟩ := resolveAll_after_collapseAll { digestLength := 1 }
    [.createTable "t", .collapse "t" "v" (.int 19), .openScope "t" "s",
      .collapse "s" "w" (.int 3), .collapse "s" "v" (.int 1), .delete "s" "v:d",
      .addAlias "s" "v:9" "w:9"] "s" "v" table values handles known
    (of_decide_eq_true separates) stored
  exact ⟨stored, resolved⟩

end Space

end ContentSpace

import ContentSpace.Proofs.Space.Shadowing

/-!
# Content and fingerprints

A space compares content by fingerprints only, and a table finds what it stores already by its
index. The digest is not assumed to be injective: `Fingerprint.Separates` says of given values that
different ones have different fingerprints. Where it holds of what a space stores, comparing two
keys is comparing what they stand for, and of one content a table has one live handle.
-/

namespace ContentSpace

namespace Fingerprint

variable {values others : List Value} {value other : Value}

/-- Among the values, different ones have different fingerprints. -/
def Separates [Hashing] (values : List Value) : Prop :=
  ∀ value ∈ values, ∀ other ∈ values, of value = of other → (value == other) = true

instance [Hashing] (values : List Value) : Decidable (Separates values) :=
  inferInstanceAs (Decidable (∀ value ∈ values, ∀ other ∈ values,
    of value = of other → (value == other) = true))

/-- Where fingerprints separate, they agree exactly for values that are the same. -/
theorem Separates.of_eq_iff [Hashing] (separates : Separates values) (member : value ∈ values)
    (inside : other ∈ values) : of value = of other ↔ (value == other) = true :=
  ⟨separates value member other inside, of_eq_of_beq⟩

/-- Values that are the same as separated ones are separated. -/
theorem Separates.of_beq [Hashing] (separates : Separates values)
    (same : ∀ other ∈ others, ∃ value ∈ values, (other == value) = true) : Separates others := by
  intro left first right second equal
  obtain ⟨value, member, leftSame⟩ := same left first
  obtain ⟨twin, inside, rightSame⟩ := same right second
  have prints : of value = of twin := by
    rw [← of_eq_of_beq leftSame, ← of_eq_of_beq rightSame, equal]
  have middle := separates value member twin inside prints
  rw [Value.beq_iff] at leftSame rightSame middle ⊢
  rw [leftSame, middle, rightSame]

end Fingerprint

namespace Table

variable {table : Table} {key other tag : String} {entry twin : Entry} {value : Value}
  {handle : Handle}

/-- The contents that a table stores. -/
def contents (table : Table) : List Value := table.entries.values.map Entry.value

/-- The index of a table lists content under a handle. -/
def Indexes [Hashing] (table : Table) (value : Value) (handle : Handle) : Prop :=
  table.index.get? (Fingerprint.of value).hex = some handle

/-- What a table stores is the content of its entries. -/
theorem mem_contents_iff :
    value ∈ table.contents ↔ ∃ key entry, table.entries.get? key = some entry ∧
      entry.value = value := by
  simp only [contents, List.mem_map, NameMap.mem_values_iff]
  constructor
  · rintro ⟨entry, ⟨key, stored⟩, content⟩
    exact ⟨key, entry, stored, content⟩
  · rintro ⟨key, entry, stored, content⟩
    exact ⟨entry, ⟨key, stored⟩, content⟩

namespace Consistent

/-- What a key stands for is sound. -/
theorem sound_of_get? [Hashing] (consistent : table.Consistent)
    (found : table.get? key = some entry) : entry.Sound :=
  consistent.sound (consistent.live found)

/-- What a key stands for is stored. -/
theorem mem_contents [Hashing] (consistent : table.Consistent)
    (found : table.get? key = some entry) : entry.value ∈ table.contents :=
  mem_contents_iff.mpr ⟨_, entry, consistent.live found, rfl⟩

/-- The index lists content under the handle of the entry that stores it. -/
theorem indexes_of_get? [Hashing] (consistent : table.Consistent)
    (found : table.get? key = some entry) (same : (value == entry.value) = true) :
    table.Indexes value entry.handle := by
  refine consistent.index_iff.mpr ⟨entry, consistent.live found, ?_⟩
  rw [(consistent.sound_of_get? found).fingerprint, Fingerprint.of_eq_of_beq same]

/-- The handle that the index lists for content stands for an entry with its fingerprint. -/
theorem get?_of_indexes [Hashing] (consistent : table.Consistent)
    (indexed : table.Indexes value handle) :
    ∃ entry, table.get? handle.text = some entry ∧ entry.handle = handle ∧
      Fingerprint.of entry.value = Fingerprint.of value := by
  obtain ⟨entry, live, print⟩ := consistent.index_iff.mp indexed
  refine ⟨entry, ?_, Handle.text_inj (consistent.handle live), ?_⟩
  · rw [get?, live]
    rfl
  · rw [← (consistent.sound live).fingerprint, print]

/-- Keys of a table stand for content with one fingerprint exactly when they name one handle. -/
theorem fingerprint_eq_iff [Hashing] (consistent : table.Consistent)
    (found : table.get? key = some entry) (again : table.get? other = some twin) :
    entry.fingerprint = twin.fingerprint ↔ entry.handle = twin.handle := by
  have live := consistent.live found
  have second := consistent.live again
  constructor
  · exact fun same => Handle.text_inj (consistent.handle_unique live second same)
  · intro same
    rw [same, second, Option.some.injEq] at live
    rw [live]

end Consistent

end Table

namespace Space

variable {space : Space} {name key other tag : String} {table : Table} {entry twin : Entry}
  {value : Value} {handle : Handle}

/-- The contents that the tables of a space store. -/
def contents (space : Space) : List Value := space.tables.values.flatMap Table.contents

/-- What a table of a space stores, the space stores. -/
theorem contents_subset (found : space.tables.get? name = some table) :
    table.contents ⊆ space.contents :=
  fun _ member => List.mem_flatMap.mpr ⟨table, NameMap.mem_values_iff.mpr ⟨name, found⟩, member⟩

/-- The ancestry of a table consists of tables. -/
theorem get?_of_mem_ancestry (tables : NameMap Table) (name : String)
    (member : table ∈ ancestry tables name) : ∃ other, tables.get? other = some table := by
  induction tables, name using ancestry.induct with
  | case1 tables name absent =>
    rw [ancestry] at member
    split at member
    next => cases member
    next bound =>
      rw [absent] at bound
      cases bound
  | case2 tables name first found _ ih =>
    rw [ancestry_eq found, List.mem_cons] at member
    rcases member with rfl | outward
    · exact ⟨name, found⟩
    -- Further outward the search goes on without the table, so what it finds was there before.
    · cases enclosed : first.parent with
      | none =>
        rw [enclosed] at outward
        cases outward
      | some parent =>
        rw [enclosed] at outward
        obtain ⟨other, bound⟩ := ih parent outward
        exact ⟨other, (NameMap.get?_erase_eq_some_iff.mp bound).2⟩

/-- An entry that a key stands for is an entry of a table of the space. -/
theorem get?_of_lookup (looked : space.lookup name key = .ok entry) :
    ∃ owner table, space.tables.get? owner = some table ∧ table.get? key = some entry := by
  rw [lookup] at looked
  cases known : space.table name with
  | error fault =>
    rw [known] at looked
    cases looked
  | ok table =>
    rw [known] at looked
    cases chain : (ancestry space.tables name).findSome? (·.get? key) with
    | none => simp [chain, bind, Except.bind] at looked
    | some first =>
      simp only [chain, bind, Except.bind, Except.ok.injEq] at looked
      subst looked
      obtain ⟨table, member, found⟩ := List.exists_of_findSome?_eq_some chain
      obtain ⟨owner, bound⟩ := get?_of_mem_ancestry space.tables name member
      exact ⟨owner, table, bound, found⟩

/-- A key that a table itself binds is looked up there. -/
theorem lookup_of_get? (found : space.tables.get? name = some table)
    (bound : table.get? key = some entry) : space.lookup name key = .ok entry := by
  have known : space.table name = .ok table := by rw [Space.table, found]
  rw [lookup, known, ancestry_eq_cons found, List.findSome?_cons, bound]
  rfl

/-- An entry that a key stands for is sound, and the space stores its content. -/
theorem TablesReached.sound_of_lookup [Hashing] (reached : space.TablesReached)
    (looked : space.lookup name key = .ok entry) :
    entry.Sound ∧ entry.value ∈ space.contents := by
  obtain ⟨owner, table, bound, found⟩ := get?_of_lookup looked
  have consistent : table.Consistent := reached.consistent bound
  exact ⟨consistent.sound_of_get? found, contents_subset bound (consistent.mem_contents found)⟩

/-- Two keys stand for the same content when both stand for something and what they stand for is
the same. -/
theorem TablesReached.sameContent_iff [Hashing] (reached : space.TablesReached)
    (separates : Fingerprint.Separates space.contents) :
    space.sameContent name key other = .ok true ↔
      ∃ left right, space.resolve name key = .ok left ∧ space.resolve name other = .ok right ∧
        (left == right) = true := by
  rw [sameContent, resolve, resolve]
  cases first : space.lookup name key with
  | error fault => simp [bind, Except.bind, Except.map]
  | ok entry =>
    cases second : space.lookup name other with
    | error fault => simp [bind, Except.bind, Except.map]
    | ok twin =>
      obtain ⟨sound, member⟩ := reached.sound_of_lookup first
      obtain ⟨twinSound, inside⟩ := reached.sound_of_lookup second
      -- The stored fingerprints are compared, and they are those of the contents.
      have prints : entry.fingerprint = twin.fingerprint ↔ (entry.value == twin.value) = true := by
        rw [sound.fingerprint, twinSound.fingerprint]
        exact separates.of_eq_iff member inside
      simpa [bind, Except.bind, Except.map] using prints

/-- Storing content that the index lists answers its handle and changes nothing. -/
theorem collapse_of_indexes [Hashing] (found : space.tables.get? name = some table)
    (indexed : table.Indexes value handle) :
    space.collapse name tag value = (.ok handle, space) := by
  rw [Table.Indexes] at indexed
  rw [collapse, onTable, found]
  simp only [Table.collapse, indexed, NameMap.insert_of_get? found]

/-- In every space that a history reaches, and whose stored contents the fingerprints separate, two
keys have the same content exactly when they stand for the same values. If a table itself binds
both, this is so exactly when they name one live handle. Storing a value that is the same as what a
key of the table stands for, under any tag, answers the handle of that entry and changes nothing in
the space. -/
theorem content_identity [Hashing] (configuration : SpaceConfiguration) (history : List Operation)
    (name : String) :
    let space := (ofConfiguration configuration).runAll history
    Fingerprint.Separates space.contents →
      (∀ key other, space.sameContent name key other = .ok true ↔
        ∃ left right, space.resolve name key = .ok left ∧ space.resolve name other = .ok right ∧
          (left == right) = true) ∧
      ∀ table, space.table name = .ok table → ∀ key entry, table.get? key = some entry →
        (∀ other twin, table.get? other = some twin →
          (space.sameContent name key other = .ok true ↔ entry.handle = twin.handle)) ∧
        ∀ tag value, (value == entry.value) = true →
          space.collapse name tag value = (.ok entry.handle, space) := by
  intro space separates
  have reached : space.TablesReached := tablesReached_runAll configuration history
  refine ⟨fun key other => reached.sameContent_iff separates, ?_⟩
  intro table known key entry found
  have bound := get?_of_table known
  have consistent : table.Consistent := reached.consistent bound
  constructor
  · intro other twin again
    rw [sameContent, lookup_of_get? bound found, lookup_of_get? bound again,
      ← consistent.fingerprint_eq_iff found again]
    simp [bind, Except.bind]
  · intro tag value same
    exact collapse_of_indexes bound (consistent.indexes_of_get? found same)

/-- A scope stores content of the table around it once more and gives it an alias. The alias has the
same content as the outer handle and names the same handle as the inner one, and storing the content
a third time answers the inner handle and changes nothing. -/
theorem content_identity_of_alias_in_scope :
    let space := (ofConfiguration { digestLength := 1 }).runAll
      [.createTable "t", .collapse "t" "v" (.int 3), .openScope "t" "s",
        .collapse "s" "w" (.int 3), .addAlias "s" "three" "w:9", .collapse "s" "w" (.int 19)]
    Fingerprint.Separates space.contents ∧
      (∃ left right, space.resolve "s" "three" = .ok left ∧ space.resolve "s" "v:9" = .ok right ∧
        (left == right) = true) ∧
      space.sameContent "s" "three" "w:9" = .ok true ∧
      space.sameContent "s" "three" "w:9b" = .ok false ∧
      space.collapse "s" "x" (.int 3) = (.ok ⟨"w:9"⟩, space) := by
  intro space
  have separates : Fingerprint.Separates space.contents := by decide +kernel
  obtain ⟨keys, bound⟩ := content_identity { digestLength := 1 }
    [.createTable "t", .collapse "t" "v" (.int 3), .openScope "t" "s",
      .collapse "s" "w" (.int 3), .addAlias "s" "three" "w:9", .collapse "s" "w" (.int 19)] "s"
    separates
  have named : ((space.tables.get? "s").bind (·.get? "three")).map
      (fun entry => (entry.handle, Value.int 3 == entry.value)) = some (⟨"w:9"⟩, true) := by
    decide +kernel
  have direct : ((space.tables.get? "s").bind (·.get? "w:9")).map Entry.handle = some ⟨"w:9"⟩ := by
    decide +kernel
  obtain ⟨entry, further, content⟩ := Option.map_eq_some_iff.mp named
  obtain ⟨table, found, bind⟩ := Option.bind_eq_some_iff.mp further
  rw [found, Option.bind_some] at direct
  obtain ⟨twin, live, handle⟩ := Option.map_eq_some_iff.mp direct
  obtain ⟨target, same⟩ := Prod.mk.inj content
  have known : space.table "s" = .ok table := by rw [Space.table, found]
  obtain ⟨handles, again⟩ := bound table known "three" entry bind
  have stored := again "x" (.int 3) same
  rw [target] at stored
  exact ⟨separates, (keys "three" "v:9").mp (by decide +kernel),
    (handles "w:9" twin live).mpr (target.trans handle.symm), by decide +kernel, stored⟩

end Space

end ContentSpace

import ContentSpace.Proofs.Handle
import ContentSpace.Proofs.Table.Effect
import ContentSpace.Sha256

/-!
# The maps of a table agree

A table keeps entries, an index, retired handles and aliases in maps of their own. `Consistent` says
how they belong together: every entry is stored under a handle made from its own content, the index
is the inverse of the entries, and live handles, aliases and retired handles do not overlap. An empty
table is consistent, every operation keeps a table so, and therefore every history does.
-/

namespace ContentSpace

/-- An entry whose parts are those of its content and its handle. -/
structure Entry.Sound [Hashing] (entry : Entry) : Prop where
  /-- The fingerprint is that of the content. -/
  fingerprint : entry.fingerprint = Fingerprint.of entry.value
  /-- The tag is that of the handle. -/
  tag : entry.tag = entry.handle.tag
  /-- The handle has digits. -/
  digest : entry.handle.digest ≠ ""
  /-- The digits of the handle are the first ones of the fingerprint. -/
  digits : entry.handle.digest.toList <+: entry.fingerprint.hex.toList

namespace Table

/-- The maps of a table agree with each other. -/
structure Consistent [Hashing] (table : Table) : Prop where
  /-- An entry is stored under its own handle. -/
  handle : ∀ {key entry}, table.entries.get? key = some entry → entry.handle.text = key
  /-- Every entry is sound. -/
  sound : ∀ {key entry}, table.entries.get? key = some entry → entry.Sound
  /-- The index is the inverse of the entries. -/
  index_iff : ∀ {fingerprint : Fingerprint} {handle : Handle},
    table.index.get? fingerprint.hex = some handle ↔
      ∃ entry, table.entries.get? handle.text = some entry ∧ entry.fingerprint = fingerprint
  /-- The index lists fingerprints only. -/
  index_hex : ∀ {digits handle}, table.index.get? digits = some handle →
    ∃ fingerprint : Fingerprint, fingerprint.hex = digits
  /-- An alias stands for a live handle. -/
  alias_live : ∀ {name handle}, table.aliases.get? name = some handle →
    ∃ entry, table.entries.get? handle.text = some entry
  /-- An alias is no live handle. -/
  alias_apart : ∀ {name handle}, table.aliases.get? name = some handle →
    table.entries.get? name = none
  /-- A retired handle is not live. -/
  retired_apart : ∀ {key fingerprint}, table.retired.get? key = some fingerprint →
    table.entries.get? key = none

/-- An empty table is consistent. -/
theorem consistent_empty [Hashing] (name : String) (parent : Option String) :
    Consistent { name, parent } := by
  constructor <;> simp

variable {table : Table}

namespace Consistent

/-- An entry that a key stands for is stored under its own handle. -/
theorem live [Hashing] (consistent : table.Consistent) {key : String} {entry : Entry}
    (found : table.get? key = some entry) :
    table.entries.get? entry.handle.text = some entry := by
  rw [get?, Option.orElse_eq_some] at found
  rcases found with direct | ⟨-, further⟩
  · rw [consistent.handle direct, direct]
  · obtain ⟨handle, -, stored⟩ := Option.bind_eq_some_iff.mp further
    rw [consistent.handle stored, stored]

/-- Live handles of one content are the same. -/
theorem handle_unique [Hashing] (consistent : table.Consistent) {key other : String}
    {entry twin : Entry} (found : table.entries.get? key = some entry)
    (again : table.entries.get? other = some twin) (same : entry.fingerprint = twin.fingerprint) :
    key = other := by
  have first : table.index.get? entry.fingerprint.hex = some entry.handle :=
    consistent.index_iff.mpr ⟨entry, by rw [consistent.handle found, found], rfl⟩
  have second : table.index.get? entry.fingerprint.hex = some twin.handle :=
    consistent.index_iff.mpr ⟨twin, by rw [consistent.handle again, again], same.symm⟩
  rw [first, Option.some.injEq] at second
  rw [← consistent.handle found, ← consistent.handle again, second]

/-- Storing new content under a free handle keeps a table consistent. -/
theorem store [Hashing] (consistent : table.Consistent) {entry : Entry} (sound : entry.Sound)
    (absent : table.index.get? entry.fingerprint.hex = none)
    (free : table.isTaken entry.handle entry.fingerprint = false) :
    (table.store entry).Consistent := by
  obtain ⟨noEntry, noAlias, -⟩ := isTaken_eq_false_iff.mp free
  constructor
  case handle =>
    intro key other found
    rcases NameMap.get?_insert_eq_some_iff.mp found with ⟨same, rfl⟩ | ⟨-, old⟩
    · exact same.symm
    · exact consistent.handle old
  case sound =>
    intro key other found
    rcases NameMap.get?_insert_eq_some_iff.mp found with ⟨-, rfl⟩ | ⟨-, old⟩
    · exact sound
    · exact consistent.sound old
  case index_iff =>
    intro fingerprint handle
    simp only [Table.store, NameMap.get?_insert]
    by_cases new : fingerprint = entry.fingerprint
    · -- The new content is indexed under the new handle, and no old entry has it.
      subst new
      rw [if_pos rfl, Option.some.injEq]
      constructor
      · rintro rfl
        exact ⟨entry, if_pos rfl, rfl⟩
      · rintro ⟨other, found, same⟩
        by_cases here : handle.text = entry.handle.text
        · exact (Handle.text_inj here).symm
        · rw [if_neg here] at found
          have old := consistent.index_iff.mpr ⟨other, found, same⟩
          rw [absent] at old
          cases old
    · have different : fingerprint.hex ≠ entry.fingerprint.hex :=
        fun same => new (Fingerprint.hex_inj same)
      rw [if_neg different, consistent.index_iff]
      by_cases here : handle.text = entry.handle.text
      · -- Nothing was stored under the new handle, and what is now has the new content.
        rw [if_pos here, here, noEntry]
        simp [Ne.symm new]
      · rw [if_neg here]
  case index_hex =>
    intro digits handle found
    rcases NameMap.get?_insert_eq_some_iff.mp found with ⟨same, -⟩ | ⟨-, old⟩
    · exact ⟨entry.fingerprint, same.symm⟩
    · exact consistent.index_hex old
  case alias_live =>
    intro name handle found
    obtain ⟨other, stored⟩ := consistent.alias_live found
    have different : handle.text ≠ entry.handle.text := by
      intro same
      rw [same, noEntry] at stored
      cases stored
    exact ⟨other, NameMap.get?_insert_eq_some_iff.mpr (.inr ⟨different, stored⟩)⟩
  case alias_apart =>
    intro name handle found
    have different : name ≠ entry.handle.text := by
      rintro rfl
      rw [show table.aliases.get? entry.handle.text = some handle from found] at noAlias
      cases noAlias
    simp only [Table.store, NameMap.get?_insert, if_neg different]
    exact consistent.alias_apart found
  case retired_apart =>
    intro key fingerprint found
    obtain ⟨different, old⟩ := NameMap.get?_erase_eq_some_iff.mp found
    simp only [Table.store, NameMap.get?_insert, if_neg different]
    exact consistent.retired_apart old

/-- Removing an entry keeps a table consistent. -/
theorem removed [Hashing] (consistent : table.Consistent) {entry : Entry}
    (live : table.entries.get? entry.handle.text = some entry) :
    (table.removed entry).Consistent := by
  constructor
  case handle =>
    intro key other found
    exact consistent.handle (NameMap.get?_erase_eq_some_iff.mp found).2
  case sound =>
    intro key other found
    exact consistent.sound (NameMap.get?_erase_eq_some_iff.mp found).2
  case index_iff =>
    intro fingerprint handle
    have left : (table.removed entry).index.get? fingerprint.hex = some handle ↔
        fingerprint.hex ≠ entry.fingerprint.hex ∧ table.index.get? fingerprint.hex = some handle :=
      NameMap.get?_erase_eq_some_iff
    rw [left, consistent.index_iff]
    constructor
    · rintro ⟨different, other, found, same⟩
      refine ⟨other, NameMap.get?_erase_eq_some_iff.mpr ⟨?_, found⟩, same⟩
      intro here
      rw [here, live, Option.some.injEq] at found
      rw [← same, found] at different
      exact different rfl
    · rintro ⟨other, found, same⟩
      obtain ⟨different, old⟩ := NameMap.get?_erase_eq_some_iff.mp found
      refine ⟨?_, other, old, same⟩
      intro print
      -- Only the removed entry has the content.
      exact different (consistent.handle_unique old live (same.trans (Fingerprint.hex_inj print)))
  case index_hex =>
    intro digits handle found
    exact consistent.index_hex (NameMap.get?_erase_eq_some_iff.mp found).2
  case alias_live =>
    intro name handle found
    obtain ⟨old, kept⟩ := NameMap.get?_filterValues_eq_some_iff.mp found
    obtain ⟨other, stored⟩ := consistent.alias_live old
    have different : handle.text ≠ entry.handle.text :=
      fun same => bne_iff_ne.mp kept (Handle.text_inj same)
    exact ⟨other, NameMap.get?_erase_eq_some_iff.mpr ⟨different, stored⟩⟩
  case alias_apart =>
    intro name handle found
    have apart := consistent.alias_apart (NameMap.get?_filterValues_eq_some_iff.mp found).1
    simp only [Table.removed, NameMap.get?_erase, apart, ite_self]
  case retired_apart =>
    intro key fingerprint found
    simp only [Table.removed, NameMap.get?_erase]
    rcases NameMap.get?_insert_eq_some_iff.mp found with ⟨same, -⟩ | ⟨different, old⟩
    · rw [if_pos same]
    · rw [if_neg different, consistent.retired_apart old]

/-- A further name for a live handle keeps a table consistent. -/
theorem named [Hashing] (consistent : table.Consistent) {name key : String} {entry : Entry}
    (live : table.entries.get? key = some entry) (apart : table.entries.get? name = none) :
    Consistent { table with aliases := table.aliases.insert name entry.handle } := by
  refine { consistent with alias_live := ?_, alias_apart := ?_ }
  · intro other handle found
    rcases NameMap.get?_insert_eq_some_iff.mp found with ⟨-, rfl⟩ | ⟨-, old⟩
    · exact ⟨entry, by rw [consistent.handle live, live]⟩
    · exact consistent.alias_live old
  · intro other handle found
    rcases NameMap.get?_insert_eq_some_iff.mp found with ⟨same, -⟩ | ⟨-, old⟩
    · rw [same, apart]
    · exact consistent.alias_apart old

/-- Taking a further name away keeps a table consistent. -/
theorem unnamed [Hashing] (consistent : table.Consistent) (name : String) :
    Consistent { table with aliases := table.aliases.erase name } := by
  refine { consistent with alias_live := ?_, alias_apart := ?_ }
  · intro other handle found
    exact consistent.alias_live (NameMap.get?_erase_eq_some_iff.mp found).2
  · intro other handle found
    exact consistent.alias_apart (NameMap.get?_erase_eq_some_iff.mp found).2

/-- An entry of new content under one of the handles it may get is sound. -/
theorem sound_of_candidate [Hashing] {tag : String} {value : Value} {length : Nat} {handle : Handle}
    (candidate : handle ∈ candidates tag (Fingerprint.of value) length) :
    Entry.Sound ⟨handle, value, Fingerprint.of value, tag⟩ := by
  obtain ⟨digits, positive, rfl⟩ := mem_candidates candidate
  have length : ((Fingerprint.of value).digest.hex.take digits).length ≠ 0 := by
    rw [List.length_take, Digest.length_hex]
    omega
  constructor
  · rfl
  · rw [Handle.tag_mint]
  · rw [Handle.digest_mint]
    intro empty
    have none := congrArg String.toList empty
    rw [String.toList_ofList] at none
    exact length (congrArg List.length none)
  · rw [Handle.digest_mint, String.toList_ofList, Fingerprint.hex, String.toList_ofList]
    exact List.take_prefix ..

/-- Every effect of an operation keeps a table consistent. -/
theorem effect [Hashing] (consistent : table.Consistent) {operation : Operation}
    {answer : Except Fault Answer} {after : Table} (effect : Effect table operation answer after) :
    after.Consistent := by
  cases effect with
  | refused => exact consistent
  | known => exact consistent
  | stored absent candidate free => exact consistent.store (sound_of_candidate candidate) absent free
  | deleted found => exact consistent.removed (consistent.live found)
  | cleared => constructor <;> simp [clear]
  | forgotten =>
    refine { consistent with retired_apart := ?_ }
    intro key fingerprint found
    simp [forgetRetired] at found
  | named live apart free => exact consistent.named live apart
  | unnamed found => exact consistent.unnamed _
  | watched => exact { consistent with }
  | listened => exact { consistent with }
  | unwatched => exact { consistent with }

/-- Every history keeps a table consistent. -/
theorem runAll [Hashing] (consistent : table.Consistent) (history : List Operation) :
    (table.runAll history).Consistent :=
  runAll_preserves (fun _ _ _ _ _ before step => before.effect step) consistent

end Consistent

/-- After every history of an empty table its maps agree, and no content is stored twice. -/
theorem consistent_runAll [Hashing] (name : String) (parent : Option String)
    (history : List Operation) : let table := runAll { name, parent } history
    table.Consistent ∧ ∀ key other entry twin, table.entries.get? key = some entry →
      table.entries.get? other = some twin → (entry.value == twin.value) = true →
        key = other ∧ entry.handle = twin.handle := by
  intro table
  have consistent : table.Consistent := (consistent_empty name parent).runAll history
  refine ⟨consistent, ?_⟩
  intro key other entry twin found again same
  have fingerprints : entry.fingerprint = twin.fingerprint := by
    rw [(consistent.sound found).fingerprint, (consistent.sound again).fingerprint,
      Fingerprint.of_eq_of_beq same]
  have keys : key = other := consistent.handle_unique found again fingerprints
  have handles : entry.handle = twin.handle := by
    apply Handle.text_inj
    rw [consistent.handle found, consistent.handle again, keys]
  exact ⟨keys, handles⟩

/-- The maps agree after a history that stores under a tag with a colon, names, and deletes through
an alias: one content is live with its tag, one handle is retired. -/
theorem consistent_runAll_colon_tag :
    let history : List Operation :=
      [.collapse "ns:v" (.int 1) 4, .collapse "ns:v" (.int 2) 4, .collapse "w" (.int 1) 4,
        .addAlias "two" "ns:v:28f5", .delete "two", .addAlias "one" "ns:v:d990"]
    let table := (root "t").runAll history
    table.Consistent ∧ table.entries.names = ["ns:v:d990"] ∧
      (table.entries.values.map Entry.tag = ["ns:v"]) ∧ table.retired.names = ["ns:v:28f5"] ∧
      table.aliases.names = ["one"] := by
  intro history table
  have consistent : table.Consistent := (consistent_runAll "t" none history).1
  exact ⟨consistent, by decide +kernel, by decide +kernel, by decide +kernel, by decide +kernel⟩

end Table

end ContentSpace

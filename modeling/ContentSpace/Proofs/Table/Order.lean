import ContentSpace.Proofs.Table.Availability
import ContentSpace.Sha256

/-!
# Storing values in another order

A table into which tagged values were stored one after the other depends on the order: the values
whose handles begin alike get more digits the later they come. What is stored does not depend on it,
and where no handles begin alike, nothing does: each value is found under the shortest of its
handles.
-/

namespace ContentSpace

/-- Two entries have the same handle, tag and fingerprint, and their values are the same. -/
structure Entry.Same (left right : Entry) : Prop where
  /-- The handles are equal. -/
  handle : left.handle = right.handle
  /-- The tags are equal. -/
  tag : left.tag = right.tag
  /-- The fingerprints are equal. -/
  fingerprint : left.fingerprint = right.fingerprint
  /-- The values are the same. -/
  value : (left.value == right.value) = true

namespace Table

/-- The history that stores tagged values one after the other. -/
def storing (pairs : List (String × Value)) (length : Nat) : List Operation :=
  pairs.map fun pair => .collapse pair.1 pair.2 length

/-- No operation of a history is refused. -/
def Accepts [Hashing] (table : Table) (history : List Operation) : Prop :=
  ∀ before operation, before ++ [operation] <+: history →
    ∃ answer, ((table.runAll before).run operation).1 = .ok answer

/-- A table has one entry for each value, and no others. -/
structure Holds (table : Table) (pairs : List (String × Value)) : Prop where
  /-- Every value is in one entry. -/
  each : ∀ pair ∈ pairs, ∃! key, ∃ entry, table.entries.get? key = some entry ∧
    (entry.value == pair.2) = true
  /-- Every entry has one of the values, with its tag. -/
  only : ∀ key entry, table.entries.get? key = some entry → (entry.tag, entry.value) ∈ pairs

/-- Values with the same tag and with fingerprints that begin alike are the same. -/
def Apart [Hashing] (pairs : List (String × Value)) (length : Nat) : Prop :=
  ∀ first ∈ pairs, ∀ second ∈ pairs, first.1 = second.1 →
    (Fingerprint.of first.2).digest.hex.take (firstLength length) =
      (Fingerprint.of second.2).digest.hex.take (firstLength length) →
    (first.2 == second.2) = true

/-- A table into which tagged values were stored, and from which nothing was removed. -/
structure Gathered [Hashing] (table : Table) (pairs : List (String × Value)) : Prop where
  /-- The maps of the table agree. -/
  consistent : table.Consistent
  /-- Nothing has a further name. -/
  unaliased : table.Unaliased
  /-- Nothing is retired. -/
  unretired : ∀ key, table.retired.get? key = none
  /-- Every value is stored. -/
  stored : ∀ pair ∈ pairs, ∃ key entry, table.entries.get? key = some entry ∧
    entry.fingerprint = Fingerprint.of pair.2
  /-- Every entry has one of the values, with its tag. -/
  only : ∀ key entry, table.entries.get? key = some entry → (entry.tag, entry.value) ∈ pairs

/-- Every entry is under the shortest handle that its content may get. -/
def Shortest (table : Table) (length : Nat) : Prop :=
  ∀ key entry, table.entries.get? key = some entry →
    entry.handle = Handle.mint entry.tag entry.fingerprint (firstLength length)

variable {table : Table} {pairs : List (String × Value)} {length : Nat}

/-- A history is accepted when its last operation is, after all others. -/
theorem accepts_append_singleton [Hashing] {history : List Operation} {last : Operation}
    {answer : Answer} (accepts : table.Accepts history)
    (answered : ((table.runAll history).run last).1 = .ok answer) :
    table.Accepts (history ++ [last]) := by
  intro before operation reached
  rcases List.prefix_concat_iff.mp reached with whole | earlier
  · obtain ⟨rfl, same⟩ := List.append_inj' whole rfl
    obtain rfl : operation = last := List.singleton_inj.mp same
    exact ⟨answer, answered⟩
  · exact accepts before operation earlier

/-- An entry under its shortest handle that is in the way of the shortest handle of other content
has the same tag, and its fingerprint begins alike. -/
theorem Shortest.begins_alike [Hashing] (shortest : table.Shortest length)
    (consistent : table.Consistent) {tag : String} {fingerprint : Fingerprint} {entry : Entry}
    (live :
      table.entries.get? (Handle.mint tag fingerprint (firstLength length)).text = some entry) :
    entry.tag = tag ∧ (Fingerprint.of entry.value).digest.hex.take (firstLength length) =
      fingerprint.digest.hex.take (firstLength length) := by
  have minted := Handle.text_inj (consistent.handle live)
  rw [shortest _ _ live] at minted
  have parts := congrArg (fun handle => Handle.splitLast handle.text.toList) minted
  simp only [Handle.splitLast_mint, Option.some.injEq, Prod.mk.injEq] at parts
  rw [(consistent.sound live).fingerprint] at parts
  exact ⟨String.toList_injective parts.1, parts.2⟩

/-! ## One more value -/

namespace Gathered

/-- The empty table has nothing stored. -/
theorem empty [Hashing] (name : String) (parent : Option String) : Gathered { name, parent }
    [] where
  consistent := consistent_empty name parent
  unaliased := unaliased_empty name parent
  unretired key := NameMap.get?_empty key
  stored _ member := absurd member List.not_mem_nil
  only key entry found := by simp at found

/-- Storing one more value succeeds. -/
theorem answer_collapse [Hashing] (gathered : table.Gathered pairs) (tag : String) (value : Value)
    (length : Nat) :
    ∃ issued, (table.run (.collapse tag value length)).1 = .ok (.collapsed issued) := by
  rcases answer_collapse_cases table tag value length with answered | ⟨absent, taken, -⟩
  · exact answered
  · have retiredSound : table.RetiredSound := by
      intro key fingerprint retired
      rw [gathered.unretired] at retired
      cases retired
    have longest := taken _ (mem_candidates_iff.mpr ⟨_, firstLength_le length, le_rfl, rfl⟩)
    have named := alias_of_isTaken_longest gathered.consistent retiredSound
      (gathered.consistent.index_eq_none_iff.mp absent) longest
    exact absurd named (gathered.unaliased.not_mem_names _)

/-- A table into which one more value is stored holds it beside the others. -/
theorem collapse [Hashing] (gathered : table.Gathered pairs) (tag : String) (value : Value)
    (length : Nat) :
    (table.run (.collapse tag value length)).2.Gathered (pairs ++ [(tag, value)]) := by
  have effect := table.run_effect (.collapse tag value length)
  have consistent := gathered.consistent.effect effect
  have unaliased := gathered.unaliased.effect effect nofun
  obtain ⟨issued, answered⟩ := gathered.answer_collapse tag value length
  rw [answered] at effect
  generalize (table.run (.collapse tag value length)).2 = after at effect consistent unaliased
  cases effect with
  | known indexed =>
    refine ⟨consistent, unaliased, gathered.unretired, ?_, ?_⟩
    · intro pair member
      rcases List.mem_append.mp member with old | new
      · exact gathered.stored pair old
      · obtain ⟨entry, live, print⟩ := consistent.index_iff.mp indexed
        rw [List.mem_singleton.mp new]
        exact ⟨_, entry, live, print⟩
    · intro key entry found
      exact List.mem_append_left _ (gathered.only key entry found)
  | @stored _ _ _ handle absent candidate free =>
    refine ⟨consistent, unaliased, ?_, ?_, ?_⟩
    · intro key
      simp only [Table.store, NameMap.get?_erase, gathered.unretired, ite_self]
    · intro pair member
      rcases List.mem_append.mp member with old | new
      · obtain ⟨key, entry, live, print⟩ := gathered.stored pair old
        refine ⟨key, entry, NameMap.get?_insert_eq_some_iff.mpr (.inr ⟨?_, live⟩), print⟩
        rintro rfl
        rw [(isTaken_eq_false_iff.mp free).1] at live
        cases live
      · rw [List.mem_singleton.mp new]
        exact ⟨handle.text, ⟨handle, value, Fingerprint.of value, tag⟩,
          NameMap.get?_insert_eq_some_iff.mpr (.inl ⟨rfl, rfl⟩), rfl⟩
    · intro key entry found
      rcases NameMap.get?_insert_eq_some_iff.mp found with ⟨-, rfl⟩ | ⟨-, old⟩
      · exact List.mem_append_right _ (List.mem_singleton_self _)
      · exact List.mem_append_left _ (gathered.only key entry old)

/-- One more value gets its shortest handle, when no other value with its tag begins alike. -/
theorem shortest_collapse [Hashing] (gathered : table.Gathered pairs)
    (shortest : table.Shortest length) {tag : String} {value : Value}
    (apart : Apart (pairs ++ [(tag, value)]) length) :
    (table.run (.collapse tag value length)).2.Shortest length := by
  have effect := table.run_effect (.collapse tag value length)
  obtain ⟨⟨handle, created⟩, answered⟩ := gathered.answer_collapse tag value length
  cases created with
  | false =>
    rw [answered] at effect
    generalize (table.run (.collapse tag value length)).2 = after at effect
    cases effect
    exact shortest
  | true =>
    obtain ⟨absent, after, free, digits, atLeast, rfl, taken⟩ := shortest_of_collapse answered
    rw [after]
    intro key entry found
    rcases NameMap.get?_insert_eq_some_iff.mp found with ⟨-, rfl⟩ | ⟨-, old⟩
    · -- If the shortest handle were taken, then by an entry that begins alike.
      rcases Nat.eq_or_lt_of_le atLeast with first | more
      · rw [first]
      · rcases isTaken_eq_true_iff.mp (taken _ le_rfl more) with named | live | ⟨_, retired, -⟩
        · exact absurd named (gathered.unaliased.not_mem_names _)
        · obtain ⟨twin, here⟩ := NameMap.mem_names_iff.mp live
          obtain ⟨tags, digits⟩ := shortest.begins_alike gathered.consistent here
          have same := apart (twin.tag, twin.value)
            (List.mem_append_left _ (gathered.only _ _ here)) (tag, value)
            (List.mem_append_right _ (List.mem_singleton_self _)) tags digits
          have new := gathered.consistent.index_eq_none_iff.mp absent twin
            (NameMap.mem_values_iff.mpr ⟨_, here⟩)
          rw [(gathered.consistent.sound here).fingerprint, Fingerprint.of_eq_of_beq same] at new
          exact absurd rfl new
        · rw [gathered.unretired] at retired
          cases retired
    · exact shortest key entry old

end Gathered

/-! ## All values -/

/-- Storing values one after the other succeeds, and gathers them. -/
theorem gathered_storing [Hashing] (name : String) (parent : Option String)
    (pairs : List (String × Value)) (length : Nat) :
    Accepts { name, parent } (storing pairs length) ∧
      (runAll { name, parent } (storing pairs length)).Gathered pairs := by
  induction pairs using List.reverseRecOn with
  | nil =>
    refine ⟨?_, .empty name parent⟩
    intro before operation reached
    simp [storing] at reached
  | append_singleton pairs pair ih =>
    obtain ⟨accepts, gathered⟩ := ih
    obtain ⟨issued, answered⟩ := gathered.answer_collapse pair.1 pair.2 length
    rw [storing, List.map_append, List.map_singleton, runAll_append_singleton]
    exact ⟨accepts_append_singleton accepts answered, gathered.collapse pair.1 pair.2 length⟩

/-- Values that are apart are all stored under their shortest handles. -/
theorem shortest_storing [Hashing] (name : String) (parent : Option String)
    (apart : Apart pairs length) :
    (runAll { name, parent } (storing pairs length)).Shortest length := by
  induction pairs using List.reverseRecOn with
  | nil =>
    intro key entry found
    simp [storing, runAll] at found
  | append_singleton pairs pair ih =>
    have fewer : Apart pairs length := fun first member second other =>
      apart first (List.mem_append_left _ member) second (List.mem_append_left _ other)
    have gathered := (gathered_storing name parent pairs length).2
    rw [storing, List.map_append, List.map_singleton, runAll_append_singleton]
    exact gathered.shortest_collapse (ih fewer) apart

namespace Gathered

/-- Different values being stored under different fingerprints, each is in one entry. -/
theorem holds [Hashing] (gathered : table.Gathered pairs)
    (separated : ∀ first ∈ pairs, ∀ second ∈ pairs,
      Fingerprint.of first.2 = Fingerprint.of second.2 → (first.2 == second.2) = true) :
    table.Holds pairs := by
  refine ⟨?_, gathered.only⟩
  intro pair member
  obtain ⟨key, entry, live, print⟩ := gathered.stored pair member
  have sound := (gathered.consistent.sound live).fingerprint
  refine ⟨key, ⟨entry, live, ?_⟩, ?_⟩
  · exact separated (entry.tag, entry.value) (gathered.only key entry live) pair member
      (sound.symm.trans print)
  · rintro other ⟨twin, here, same⟩
    refine gathered.consistent.handle_unique here live ?_
    rw [(gathered.consistent.sound here).fingerprint, Fingerprint.of_eq_of_beq same, print]

/-- The fingerprints of the entries are those of the values. -/
theorem mem_fingerprints_iff [Hashing] (gathered : table.Gathered pairs)
    {fingerprint : Fingerprint} : fingerprint ∈ table.entries.values.map Entry.fingerprint ↔
      fingerprint ∈ pairs.map fun pair => Fingerprint.of pair.2 := by
  simp only [List.mem_map, NameMap.mem_values_iff]
  constructor
  · rintro ⟨entry, ⟨key, live⟩, rfl⟩
    exact ⟨_, gathered.only key entry live, (gathered.consistent.sound live).fingerprint.symm⟩
  · rintro ⟨pair, member, rfl⟩
    obtain ⟨key, entry, live, print⟩ := gathered.stored pair member
    exact ⟨entry, ⟨key, live⟩, print⟩

/-- Where entries are under their shortest handles, what is stored in one table is stored in the
other under the same key. -/
theorem exists_same [Hashing] {other : Table} (gathered : table.Gathered pairs)
    (again : other.Gathered pairs) (shortest : table.Shortest length)
    (otherShortest : other.Shortest length)
    (tagged : ∀ first ∈ pairs, ∀ second ∈ pairs, (first.2 == second.2) = true →
      first.1 = second.1)
    (separated : ∀ first ∈ pairs, ∀ second ∈ pairs,
      Fingerprint.of first.2 = Fingerprint.of second.2 → (first.2 == second.2) = true)
    {key : String} {entry : Entry} (live : table.entries.get? key = some entry) :
    ∃ twin, other.entries.get? key = some twin ∧ entry.Same twin := by
  have member := gathered.only key entry live
  obtain ⟨place, twin, here, print⟩ := again.stored _ member
  have prints : entry.fingerprint = twin.fingerprint :=
    (gathered.consistent.sound live).fingerprint.trans print.symm
  have same : (entry.value == twin.value) = true := by
    refine separated _ member _ (again.only place twin here) ?_
    rw [← print, (again.consistent.sound here).fingerprint]
  have tags : entry.tag = twin.tag := tagged _ member _ (again.only place twin here) same
  have handles : entry.handle = twin.handle := by
    rw [shortest key entry live, otherShortest place twin here, tags, prints]
  obtain rfl : place = key := by
    rw [← again.consistent.handle here, ← handles, gathered.consistent.handle live]
  exact ⟨twin, here, handles, tags, prints, same⟩

end Gathered

/-- Storing tagged values into an empty table succeeds in any order, and the table holds each value
in one entry and has the same fingerprints, as long as values that are the same have the same tag
and values that differ have different fingerprints. Where no two values with the same tag begin
alike, the entries are the same in any order. -/
theorem storing_permuted [Hashing] (name : String) (parent : Option String)
    (pairs others : List (String × Value)) (length : Nat) (permuted : pairs.Perm others)
    (tagged : ∀ first ∈ pairs, ∀ second ∈ pairs, (first.2 == second.2) = true →
      first.1 = second.1)
    (separated : ∀ first ∈ pairs, ∀ second ∈ pairs,
      Fingerprint.of first.2 = Fingerprint.of second.2 → (first.2 == second.2) = true) :
    let left := runAll { name, parent } (storing pairs length)
    let right := runAll { name, parent } (storing others length)
    Accepts { name, parent } (storing pairs length) ∧
      Accepts { name, parent } (storing others length) ∧
      left.Holds pairs ∧ right.Holds pairs ∧
      (∀ fingerprint, fingerprint ∈ left.entries.values.map Entry.fingerprint ↔
        fingerprint ∈ right.entries.values.map Entry.fingerprint) ∧
      (Apart pairs length → ∀ key,
        Option.Rel Entry.Same (left.entries.get? key) (right.entries.get? key)) := by
  intro left right
  obtain ⟨accepts, gathered⟩ := gathered_storing name parent pairs length
  obtain ⟨othersAccepts, again⟩ := gathered_storing name parent others length
  have regathered : right.Gathered pairs :=
    { again with
      stored := fun pair member => again.stored pair (permuted.mem_iff.mp member)
      only := fun key entry live => permuted.mem_iff.mpr (again.only key entry live) }
  refine ⟨accepts, othersAccepts, gathered.holds separated, regathered.holds separated, ?_, ?_⟩
  · intro fingerprint
    rw [gathered.mem_fingerprints_iff, regathered.mem_fingerprints_iff]
  · intro apart key
    have shortest := shortest_storing name parent apart
    have othersApart : Apart others length := fun first member second other =>
      apart first (permuted.mem_iff.mpr member) second (permuted.mem_iff.mpr other)
    have othersShortest := shortest_storing name parent othersApart
    have onward {entry : Entry} (live : left.entries.get? key = some entry) :=
      gathered.exists_same regathered shortest othersShortest tagged separated live
    have backward {entry : Entry} (live : right.entries.get? key = some entry) :=
      regathered.exists_same gathered othersShortest shortest tagged separated live
    cases found : left.entries.get? key with
    | none =>
      cases here : right.entries.get? key with
      | none => exact .none
      | some entry =>
        obtain ⟨twin, live, -⟩ := backward here
        rw [found] at live
        cases live
    | some entry =>
      obtain ⟨twin, live, same⟩ := onward found
      rw [live]
      exact .some same

/-- Three values, one of them twice, are stored in two orders. Two that have fingerprints that begin
alike have different tags. -/
theorem storing_permuted_two_tags :
    let pairs := [("v", Value.int 3), ("w", .int 19), ("v", .int 1), ("v", .int 3)]
    let left := runAll (root "t") (storing pairs 1)
    let right := runAll (root "t") (storing pairs.reverse 1)
    left.entries.names = ["v:9", "v:d", "w:9"] ∧ ∀ key,
      Option.Rel Entry.Same (left.entries.get? key) (right.entries.get? key) := by
  intro pairs left right
  have tagged : ∀ first ∈ pairs, ∀ second ∈ pairs, (first.2 == second.2) = true →
      first.1 = second.1 := by
    decide +kernel
  have separated : ∀ first ∈ pairs, ∀ second ∈ pairs,
      Fingerprint.of first.2 = Fingerprint.of second.2 → (first.2 == second.2) = true := by
    decide +kernel
  have apart : Apart pairs 1 := by
    rw [Apart]
    decide +kernel
  obtain ⟨-, -, -, -, -, same⟩ :=
    storing_permuted "t" none pairs pairs.reverse 1 pairs.reverse_perm.symm tagged separated
  exact ⟨by decide +kernel, same apart⟩

/-- Which of two values that begin alike gets more digits depends on the order. -/
example :
    (runAll (root "t") (storing [("v", .int 3), ("v", .int 19)] 1)).entries.names =
        ["v:9", "v:9b"] ∧
      (runAll (root "t") (storing [("v", .int 19), ("v", .int 3)] 1)).entries.names =
        ["v:9", "v:92"] := by
  decide +kernel

end Table

end ContentSpace

import ContentSpace.Proofs.Table.Representation
import ContentSpace.Sha256

/-!
# When content finds a handle

New content gets the shortest of its possible handles that is not taken. A handle with all digits of
a fingerprint can be live or retired for that fingerprint only, so that no other content ever takes
it. But any name may be given as an alias, the longest handle of content that is not stored
included. `Crowded` says when every handle is taken, and storing a value fails in that case and in
no other.
-/

namespace ContentSpace.Table

variable {table : Table} {tag : String} {fingerprint : Fingerprint} {length : Nat}

/-- Content that is not stored finds no handle. -/
structure Crowded (table : Table) (tag : String) (fingerprint : Fingerprint) (length : Nat) :
    Prop where
  /-- The content is not stored. -/
  absent : ∀ entry ∈ table.entries.values, entry.fingerprint ≠ fingerprint
  /-- The handle with all digits is an alias. -/
  longest : (Handle.mint tag fingerprint Fingerprint.hexLength).text ∈ table.aliases.names
  /-- Every shorter handle is an alias, live, or retired for other content. -/
  shorter : ∀ digits, firstLength length ≤ digits → digits < Fingerprint.hexLength →
    let key := (Handle.mint tag fingerprint digits).text
    key ∈ table.aliases.names ∨ key ∈ table.entries.names ∨
      ∃ other, table.retired.get? key = some other ∧ other ≠ fingerprint

/-- Retired handles have digits of the fingerprints they are retired for. -/
def RetiredSound (table : Table) : Prop :=
  ∀ key fingerprint, table.retired.get? key = some fingerprint →
    (Handle.mk key).digest.toList <+: fingerprint.hex.toList

/-! ## Retired handles -/

/-- What is retired after an operation was retired or live for the same content before. -/
theorem retired_of_effect [Hashing] {key : String} {operation : Operation}
    {answer : Except Fault Answer} {after : Table} (effect : Effect table operation answer after)
    (retired : after.retired.get? key = some fingerprint) :
    table.retired.get? key = some fingerprint ∨
      ∃ entry ∈ table.entries.values,
        entry.handle.text = key ∧ entry.fingerprint = fingerprint := by
  cases effect with
  | stored => exact .inl (NameMap.get?_erase_eq_some_iff.mp retired).2
  | @deleted _ entry found =>
    rcases NameMap.get?_insert_eq_some_iff.mp retired with ⟨same, print⟩ | ⟨-, old⟩
    · have member : entry ∈ table.entries.values := by
        rw [get?, Option.orElse_eq_some] at found
        rcases found with direct | ⟨-, further⟩
        · exact NameMap.mem_values_iff.mpr ⟨_, direct⟩
        · obtain ⟨handle, -, stored⟩ := Option.bind_eq_some_iff.mp further
          exact NameMap.mem_values_iff.mpr ⟨_, stored⟩
      exact .inr ⟨entry, member, same.symm, print⟩
    · exact .inl old
  | cleared =>
    rcases NameMap.get?_foldl_insert (fun entry : Entry => entry.handle.text)
      Entry.fingerprint table.entries.values table.retired key with
      ⟨entry, member, named, found⟩ | ⟨-, kept⟩
    · exact .inr ⟨entry, member, named, Option.some.inj (found.symm.trans retired)⟩
    · exact .inl (kept.symm.trans retired)
  | forgotten => simp [forgetRetired] at retired
  | refused => exact .inl retired
  | known => exact .inl retired
  | named => exact .inl retired
  | unnamed => exact .inl retired
  | watched => exact .inl retired
  | listened => exact .inl retired
  | unwatched => exact .inl retired

/-- Retired handles keep digits of their fingerprints, since entries have them. -/
theorem RetiredSound.effect [Hashing] (retiredSound : table.RetiredSound)
    (consistent : table.Consistent) {operation : Operation} {answer : Except Fault Answer}
    {after : Table} (effect : Effect table operation answer after) : after.RetiredSound := by
  intro key fingerprint retired
  rcases retired_of_effect effect retired with old | ⟨entry, member, rfl, rfl⟩
  · exact retiredSound key fingerprint old
  · obtain ⟨key, live⟩ := NameMap.mem_values_iff.mp member
    exact (consistent.sound live).digits

/-- After every history of an empty table, retired handles have digits of their fingerprints. -/
theorem retiredSound_runAll [Hashing] (name : String) (parent : Option String)
    (history : List Operation) : (runAll { name, parent } history).RetiredSound := by
  let holds (table : Table) : Prop := table.Consistent ∧ table.RetiredSound
  have start : holds { name, parent } := by
    refine ⟨consistent_empty name parent, ?_⟩
    intro key fingerprint retired
    simp at retired
  have both : holds (runAll { name, parent } history) := by
    refine runAll_preserves ?_ start
    rintro _ - table answer after ⟨consistent, retiredSound⟩ effect
    exact ⟨consistent.effect effect, retiredSound.effect consistent effect⟩
  exact both.2

/-! ## Tables without aliases -/

/-- A table in which nothing has a further name. -/
def Unaliased (table : Table) : Prop := ∀ name, table.aliases.get? name = none

/-- The empty table has no aliases. -/
theorem unaliased_empty (name : String) (parent : Option String) :
    Unaliased { name, parent } :=
  fun other => NameMap.get?_empty other

/-- In a table without aliases no key is an alias. -/
theorem Unaliased.not_mem_names (unaliased : table.Unaliased) (key : String) :
    key ∉ table.aliases.names := by
  intro named
  obtain ⟨handle, bound⟩ := NameMap.mem_names_iff.mp named
  rw [unaliased] at bound
  cases bound

/-- Only giving a name makes an alias. -/
theorem Unaliased.effect [Hashing] (unaliased : table.Unaliased) {operation : Operation}
    {answer : Except Fault Answer} {after : Table} (effect : Effect table operation answer after)
    (unnamed : ∀ name key, operation ≠ .addAlias name key) : after.Unaliased := by
  intro name
  rw [Option.eq_none_iff_forall_ne_some]
  intro handle bound
  have absent {other : Handle} (found : table.aliases.get? name = some other) : False := by
    rw [unaliased name] at found
    cases found
  cases effect with
  | named => exact unnamed _ _ rfl
  | deleted => exact absent (NameMap.get?_filterValues_eq_some_iff.mp bound).1
  | cleared => simp [clear] at bound
  | unnamed => exact absent (NameMap.get?_erase_eq_some_iff.mp bound).2
  | refused => exact absent bound
  | known => exact absent bound
  | stored => exact absent bound
  | forgotten => exact absent bound
  | watched => exact absent bound
  | listened => exact absent bound
  | unwatched => exact absent bound

/-- A history that gives no names leaves a table without aliases. -/
theorem Unaliased.runAll [Hashing] (unaliased : table.Unaliased) {history : List Operation}
    (unnamed : ∀ name key, .addAlias name key ∉ history) : (table.runAll history).Unaliased := by
  refine runAll_preserves ?_ unaliased
  intro operation member table answer after before effect
  refine before.effect effect ?_
  rintro name key rfl
  exact unnamed name key member

/-! ## Taken handles -/

/-- New handles start from no more digits than there are. -/
theorem firstLength_le (length : Nat) : firstLength length ≤ Fingerprint.hexLength := by
  rw [firstLength, Fingerprint.hexLength]
  omega

/-- The handles that content may get have from the first length on up to all digits. -/
theorem mem_candidates_iff {handle : Handle} : handle ∈ candidates tag fingerprint length ↔
    ∃ digits, firstLength length ≤ digits ∧ digits ≤ Fingerprint.hexLength ∧
      handle = Handle.mint tag fingerprint digits := by
  have fits := firstLength_le length
  simp only [candidates, List.mem_map, List.mem_range'_1]
  constructor
  · rintro ⟨digits, ⟨atLeast, less⟩, rfl⟩
    exact ⟨digits, atLeast, by omega, rfl⟩
  · rintro ⟨digits, atLeast, atMost, rfl⟩
    exact ⟨digits, ⟨atLeast, by omega⟩, rfl⟩

/-- A handle is taken for content when it is an alias, live, or retired for other content. -/
theorem isTaken_eq_true_iff {handle : Handle} : table.isTaken handle fingerprint = true ↔
    handle.text ∈ table.aliases.names ∨ handle.text ∈ table.entries.names ∨
      ∃ other, table.retired.get? handle.text = some other ∧ other ≠ fingerprint := by
  rw [isTaken, Bool.or_eq_true, Bool.or_eq_true, NameMap.contains, NameMap.contains,
    Option.isSome_iff_exists, Option.isSome_iff_exists, NameMap.mem_names_iff,
    NameMap.mem_names_iff, or_comm (a := ∃ entry, _), or_assoc]
  cases table.retired.get? handle.text <;> simp

/-- The digits of a fingerprint begin with those of the longest handle of a fingerprint only if the
fingerprints are the same. -/
theorem eq_of_digest_longest_isPrefix {other : Fingerprint}
    (digits : (Handle.mint tag fingerprint Fingerprint.hexLength).digest.toList <+:
      other.hex.toList) : fingerprint = other := by
  have all : fingerprint.digest.hex.take Fingerprint.hexLength = fingerprint.digest.hex :=
    List.take_of_length_le (by rw [Digest.length_hex]; exact Nat.le_refl _)
  rw [Handle.digest_mint, all, String.toList_ofList, Fingerprint.hex,
    String.toList_ofList] at digits
  have same : fingerprint.digest.hex = other.digest.hex :=
    digits.eq_of_length (by rw [Digest.length_hex, Digest.length_hex])
  exact Fingerprint.hex_inj (congrArg String.ofList same)

/-- The longest handle of content that is not stored is free unless it is an alias. -/
theorem alias_of_isTaken_longest [Hashing] (consistent : table.Consistent)
    (retiredSound : table.RetiredSound)
    (absent : ∀ entry ∈ table.entries.values, entry.fingerprint ≠ fingerprint)
    (taken : table.isTaken (Handle.mint tag fingerprint Fingerprint.hexLength) fingerprint = true) :
    (Handle.mint tag fingerprint Fingerprint.hexLength).text ∈ table.aliases.names := by
  rcases isTaken_eq_true_iff.mp taken with named | live | ⟨other, retired, different⟩
  · exact named
  · obtain ⟨entry, found⟩ := NameMap.mem_names_iff.mp live
    have digits := (consistent.sound found).digits
    rw [Handle.text_inj (consistent.handle found)] at digits
    have print := eq_of_digest_longest_isPrefix digits
    exact absurd print.symm (absent entry (NameMap.mem_values_iff.mpr ⟨_, found⟩))
  · exact absurd (eq_of_digest_longest_isPrefix (retiredSound _ _ retired)).symm different

/-- No content is indexed that no entry has. -/
theorem Consistent.index_eq_none_iff [Hashing] (consistent : table.Consistent) :
    table.index.get? fingerprint.hex = none ↔
      ∀ entry ∈ table.entries.values, entry.fingerprint ≠ fingerprint := by
  constructor
  · intro absent entry member print
    obtain ⟨key, live⟩ := NameMap.mem_values_iff.mp member
    have indexed : table.index.get? fingerprint.hex = some entry.handle :=
      consistent.index_iff.mpr ⟨entry, by rw [consistent.handle live, live], print⟩
    rw [absent] at indexed
    cases indexed
  · intro absent
    rw [Option.eq_none_iff_forall_ne_some]
    intro handle indexed
    obtain ⟨entry, live, print⟩ := consistent.index_iff.mp indexed
    exact absent entry (NameMap.mem_values_iff.mpr ⟨_, live⟩) print

/-! ## Storing values -/

/-- Storing a value answers with a handle, unless its content is not indexed and every handle it may
get is taken; then the answer is that fingerprints collide. -/
theorem answer_collapse_cases [Hashing] (table : Table) (tag : String) (value : Value)
    (length : Nat) :
    (∃ issued, (table.run (.collapse tag value length)).1 = .ok (.collapsed issued)) ∨
      (table.index.get? (Fingerprint.of value).hex = none ∧
        (∀ handle ∈ candidates tag (Fingerprint.of value) length,
          table.isTaken handle (Fingerprint.of value) = true) ∧
        (table.run (.collapse tag value length)).1 =
          .error (.internal (.fingerprintCollision (Fingerprint.of value).hex table.name))) := by
  simp only [run, collapse]
  cases indexed : table.index.get? (Fingerprint.of value).hex with
  | some handle => exact .inl ⟨_, rfl⟩
  | none =>
    cases free : (candidates tag (Fingerprint.of value) length).find? fun handle =>
        !table.isTaken handle (Fingerprint.of value) with
    | some handle => exact .inl ⟨_, rfl⟩
    | none =>
      refine .inr ⟨rfl, ?_, rfl⟩
      intro handle candidate
      simpa using List.find?_eq_none.mp free handle candidate

/-- Storing new content stores it under the shortest of its handles that is not taken. -/
theorem shortest_of_collapse [Hashing] {value : Value} {handle : Handle}
    (created : (table.run (.collapse tag value length)).1 = .ok (.collapsed ⟨handle, true⟩)) :
    table.index.get? (Fingerprint.of value).hex = none ∧
      (table.run (.collapse tag value length)).2 =
        table.store ⟨handle, value, Fingerprint.of value, tag⟩ ∧
      table.isTaken handle (Fingerprint.of value) = false ∧
      ∃ digits, firstLength length ≤ digits ∧
        handle = Handle.mint tag (Fingerprint.of value) digits ∧
        ∀ shorter, firstLength length ≤ shorter → shorter < digits →
          table.isTaken (Handle.mint tag (Fingerprint.of value) shorter)
            (Fingerprint.of value) = true := by
  simp only [run, collapse] at created ⊢
  cases indexed : table.index.get? (Fingerprint.of value).hex with
  | some other =>
    rw [indexed] at created
    simp [run.settle] at created
  | none =>
    rw [indexed] at created
    cases free : (candidates tag (Fingerprint.of value) length).find? fun handle =>
        !table.isTaken handle (Fingerprint.of value) with
    | none =>
      rw [free] at created
      cases created
    | some first =>
      rw [free] at created
      simp only [run.settle, Except.ok.injEq, Answer.collapsed.injEq, Collapsed.mk.injEq,
        and_true] at created
      subst created
      rw [candidates, List.find?_map, Option.map_eq_some_iff] at free
      obtain ⟨digits, least, rfl⟩ := free
      obtain ⟨untaken, inside, before⟩ := List.find?_range'_eq_some.mp least
      refine ⟨rfl, rfl, by simpa using untaken, digits, (List.mem_range'_1.mp inside).1, rfl, ?_⟩
      intro shorter atLeast less
      simpa using before shorter atLeast less

/-- Every handle that content may get is taken in a crowded table. -/
theorem Crowded.isTaken (crowded : table.Crowded tag fingerprint length) {handle : Handle}
    (candidate : handle ∈ candidates tag fingerprint length) :
    table.isTaken handle fingerprint = true := by
  obtain ⟨digits, atLeast, atMost, rfl⟩ := mem_candidates_iff.mp candidate
  rw [isTaken_eq_true_iff]
  rcases Nat.lt_or_eq_of_le atMost with less | rfl
  · exact crowded.shorter digits atLeast less
  · exact .inl crowded.longest

/-- Storing a value in a crowded table fails. -/
theorem Crowded.answer_collapse [Hashing] (consistent : table.Consistent) {value : Value}
    (crowded : table.Crowded tag (Fingerprint.of value) length) :
    (table.run (.collapse tag value length)).1 =
      .error (.internal (.fingerprintCollision (Fingerprint.of value).hex table.name)) := by
  rcases answer_collapse_cases table tag value length with ⟨issued, stored⟩ | ⟨-, -, failed⟩
  · have effect := table.run_effect (.collapse tag value length)
    rw [stored] at effect
    generalize (table.run (.collapse tag value length)).2 = after at effect
    cases effect with
    | known indexed =>
      rw [consistent.index_eq_none_iff.mpr crowded.absent] at indexed
      cases indexed
    | stored absent candidate free =>
      rw [crowded.isTaken candidate] at free
      cases free
  · exact failed

/-- After every history of an empty table, storing a value answers with a handle exactly when the
table is not crowded for it, and otherwise answers that fingerprints collide, whatever the
fingerprints of the stored contents are. -/
theorem collapse_succeeds_iff_not_crowded [Hashing] (name : String) (parent : Option String)
    (history : List Operation) (tag : String) (value : Value) (length : Nat) :
    let table := runAll { name, parent } history
    let answer := (table.run (.collapse tag value length)).1
    ((∃ issued, answer = .ok (.collapsed issued)) ↔
      ¬ table.Crowded tag (Fingerprint.of value) length) ∧
    (table.Crowded tag (Fingerprint.of value) length → answer =
      .error (.internal (.fingerprintCollision (Fingerprint.of value).hex table.name))) := by
  intro table answer
  have consistent : table.Consistent := (consistent_empty name parent).runAll history
  have retiredSound : table.RetiredSound := retiredSound_runAll name parent history
  have fails (crowded : table.Crowded tag (Fingerprint.of value) length) :=
    crowded.answer_collapse consistent
  refine ⟨⟨?_, ?_⟩, fails⟩
  · rintro ⟨issued, stored⟩ crowded
    have failed := (fails crowded).symm.trans stored
    cases failed
  · intro room
    rcases answer_collapse_cases table tag value length with stored | ⟨absent, taken, -⟩
    · exact stored
    · have new := consistent.index_eq_none_iff.mp absent
      refine absurd ⟨new, ?_, ?_⟩ room
      · apply alias_of_isTaken_longest consistent retiredSound new
        exact taken _ (mem_candidates_iff.mpr ⟨_, firstLength_le length, le_rfl, rfl⟩)
      · intro digits atLeast less
        exact isTaken_eq_true_iff.mp
          (taken _ (mem_candidates_iff.mpr ⟨digits, atLeast, less.le, rfl⟩))

/-- The longest handle of one integer is given as an alias to another one. Storing the first integer
then fails, although no stored content has its fingerprint. -/
theorem collapse_fails_for_alias_of_longest_handle :
    let one := "d990d1e16b8bd9861f71709a4401c1a4195c50b8a781601c7d29bb413fb7e27b"
    let two := "28f580f234ccc94c222673d08df351728cb7506519a91c01181730daa52b1fdc"
    let history : List Operation :=
      [.collapse "v" (.int 1) 64, .addAlias ("v:" ++ two) ("v:" ++ one)]
    let table := (root "t").runAll history
    (table.run (.collapse "v" (.int 2) 64)).1 =
        .error (.internal (.fingerprintCollision two "t")) ∧
      ∀ entry ∈ table.entries.values, entry.fingerprint ≠ Fingerprint.of (.int 2) := by
  intro one two history table
  have evaluated : table.entries.values.map Entry.fingerprint = [Fingerprint.of (.int 1)] ∧
      Fingerprint.of (.int 1) ≠ Fingerprint.of (.int 2) ∧ (Fingerprint.of (.int 2)).hex = two ∧
      (Handle.mint "v" (Fingerprint.of (.int 2)) 64).text ∈ table.aliases.names ∧
      table.name = "t" := by
    decide +kernel
  obtain ⟨stored, different, print, longest, named⟩ := evaluated
  have absent : ∀ entry ∈ table.entries.values, entry.fingerprint ≠ Fingerprint.of (.int 2) := by
    intro entry member
    have only := List.mem_map_of_mem (f := Entry.fingerprint) member
    rw [stored, List.mem_singleton] at only
    rw [only]
    exact different
  have crowded : table.Crowded "v" (Fingerprint.of (.int 2)) 64 := by
    refine ⟨absent, longest, ?_⟩
    -- No shorter handle is tried.
    intro digits atLeast less
    exact absurd atLeast (Nat.not_le_of_lt less)
  have consistent : table.Consistent := (consistent_empty "t" none).runAll history
  have failed := crowded.answer_collapse consistent
  rw [print, named] at failed
  exact ⟨failed, absent⟩

end ContentSpace.Table

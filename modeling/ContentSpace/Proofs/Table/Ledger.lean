import ContentSpace.Proofs.Table.Reservation
import ContentSpace.Sha256
import Mathlib.Data.List.Dedup

/-!
# The ledger of issued handles

Every time a value is stored, the answer gives out a handle, an old one or a new one. `issues` lists
what a history gives out. Until retired handles are released, exactly the handles given out are
reserved, each for the content it was given out for: an operation reserves nothing but what it gives
out, and drops no reservation. So the handles given out are the live and the retired ones.
-/

namespace ContentSpace.Table

/-- A handle given out for a value. -/
structure Issue where
  /-- The value that was stored. -/
  value : Value
  /-- The handle that the answer names. -/
  handle : Handle

/-- What an operation with an answer gives out. -/
def issue? : Operation → Except Fault Answer → Option Issue
  | .collapse _ value _, .ok (.collapsed collapsed) => some ⟨value, collapsed.handle⟩
  | _, _ => none

/-- What a history gives out, the earliest issue first. -/
def issues [Hashing] (table : Table) : List Operation → List Issue
  | [] => []
  | operation :: rest =>
    (issue? operation (table.run operation).1).toList ++ issues (table.run operation).2 rest

variable {table : Table} {key : String} {fingerprint : Fingerprint}

/-- A key is reserved for one content. -/
theorem Reserved.unique {other : Fingerprint} (reserved : table.Reserved key fingerprint)
    (again : table.Reserved key other) : fingerprint = other := by
  rcases reserved with ⟨entry, live, rfl⟩ | ⟨gone, retired⟩
  · rcases again with ⟨twin, found, rfl⟩ | ⟨gone, -⟩
    · rw [live, Option.some.injEq] at found
      rw [found]
    · rw [live] at gone
      cases gone
  · rcases again with ⟨twin, found, -⟩ | ⟨-, found⟩
    · rw [gone] at found
      cases found
    · rw [retired, Option.some.injEq] at found
      exact found

/-- A key is reserved for some content when it is live or retired. -/
theorem exists_reserved_iff : (∃ fingerprint, table.Reserved key fingerprint) ↔
    key ∈ table.entries.names ∨ key ∈ table.retired.names := by
  rw [NameMap.mem_names_iff, NameMap.mem_names_iff]
  constructor
  · rintro ⟨fingerprint, ⟨entry, live, -⟩ | ⟨-, retired⟩⟩
    · exact .inl ⟨entry, live⟩
    · exact .inr ⟨fingerprint, retired⟩
  · intro held
    cases live : table.entries.get? key with
    | some entry => exact ⟨entry.fingerprint, .inl ⟨entry, live, rfl⟩⟩
    | none =>
      have old : ∃ fingerprint, table.retired.get? key = some fingerprint := by
        simpa [live] using held
      obtain ⟨fingerprint, retired⟩ := old
      exact ⟨fingerprint, .inr ⟨live, retired⟩⟩

/-! ## What one operation reserves -/

/-- Storing new content reserves its handle for it and nothing else. -/
theorem reserved_store_iff {entry : Entry}
    (free : table.isTaken entry.handle entry.fingerprint = false) :
    (table.store entry).Reserved key fingerprint ↔ table.Reserved key fingerprint ∨
      (entry.handle.text = key ∧ entry.fingerprint = fingerprint) := by
  constructor
  · intro reserved
    simp only [Reserved, Table.store, NameMap.get?_insert, NameMap.get?_erase] at reserved
    by_cases same : key = entry.handle.text
    · rw [if_pos same] at reserved
      rcases reserved with ⟨other, found, print⟩ | ⟨absent, -⟩
      · rw [Option.some.injEq] at found
        exact .inr ⟨same.symm, by rw [found, print]⟩
      · cases absent
    · rw [if_neg same, if_neg same] at reserved
      exact .inl reserved
  · rintro (reserved | ⟨rfl, rfl⟩)
    · exact reserved.store free
    · left
      exact ⟨entry, by simp only [Table.store, NameMap.get?_insert, if_true], rfl⟩

/-- Removing an entry reserves nothing new. -/
theorem reserved_removed_iff {entry : Entry}
    (live : table.entries.get? entry.handle.text = some entry) :
    (table.removed entry).Reserved key fingerprint ↔ table.Reserved key fingerprint := by
  constructor
  · intro reserved
    simp only [Reserved, Table.removed, NameMap.get?_insert, NameMap.get?_erase] at reserved
    by_cases same : key = entry.handle.text
    · subst same
      rw [if_pos rfl, if_pos rfl] at reserved
      rcases reserved with ⟨other, absent, -⟩ | ⟨-, retired⟩
      · cases absent
      · exact .inl ⟨entry, live, Option.some.inj retired⟩
    · rw [if_neg same, if_neg same] at reserved
      exact reserved
  · intro reserved
    exact reserved.removed live

/-- Removing all entries reserves nothing new. -/
theorem reserved_clear_iff [Hashing] (consistent : table.Consistent) :
    table.clear.2.Reserved key fingerprint ↔ table.Reserved key fingerprint := by
  constructor
  · rintro (⟨entry, live, -⟩ | ⟨-, retired⟩)
    · cases live
    · rcases NameMap.get?_foldl_insert (fun entry : Entry => entry.handle.text)
        Entry.fingerprint table.entries.values table.retired key with
        ⟨entry, member, rfl, found⟩ | ⟨-, kept⟩
      · obtain ⟨other, stored⟩ := NameMap.mem_values_iff.mp member
        refine .inl ⟨entry, by rw [consistent.handle stored, stored], ?_⟩
        exact Option.some.inj (found.symm.trans retired)
      · have before : table.retired.get? key = some fingerprint := kept.symm.trans retired
        exact .inr ⟨consistent.retired_apart before, before⟩
  · intro reserved
    exact reserved.clear consistent

/-- After an operation that does not release retired handles, a key is reserved for a content when
it was so before, or when the operation gave it out for the content. -/
theorem reserved_iff_of_effect [Hashing] (consistent : table.Consistent) {operation : Operation}
    {answer : Except Fault Answer} {after : Table} (effect : Effect table operation answer after)
    (remembers : operation ≠ .forgetRetired) :
    after.Reserved key fingerprint ↔ table.Reserved key fingerprint ∨
      ∃ issue ∈ issue? operation answer,
        issue.handle.text = key ∧ Fingerprint.of issue.value = fingerprint := by
  cases effect with
  | refused => simp [issue?]
  | known indexed =>
    -- The handle given out again is live with the content already.
    obtain ⟨entry, live, print⟩ := consistent.index_iff.mp indexed
    simp only [issue?, Option.mem_some_iff, exists_eq_left', iff_self_or]
    rintro ⟨rfl, rfl⟩
    exact .inl ⟨entry, live, print⟩
  | stored absent candidate free =>
    simp only [issue?, Option.mem_some_iff, exists_eq_left']
    exact reserved_store_iff free
  | deleted found =>
    simp only [issue?, Option.not_mem_none, false_and, exists_false, or_false]
    exact reserved_removed_iff (consistent.live found)
  | cleared =>
    simp only [issue?, Option.not_mem_none, false_and, exists_false, or_false]
    exact reserved_clear_iff consistent
  | forgotten => exact absurd rfl remembers
  | named => simp [issue?, Reserved]
  | unnamed => simp [issue?, Reserved]
  | watched => simp [issue?, Reserved]
  | listened => simp [issue?, Reserved]
  | unwatched => simp [issue?, Reserved, unwatch]

/-! ## What a history reserves -/

/-- After a history that does not release retired handles, a key is reserved for a content when it
was so before, or when the history gave it out for the content. -/
theorem reserved_runAll_iff [Hashing] (consistent : table.Consistent) {history : List Operation}
    (remembers : .forgetRetired ∉ history) :
    (table.runAll history).Reserved key fingerprint ↔ table.Reserved key fingerprint ∨
      ∃ issue ∈ table.issues history,
        issue.handle.text = key ∧ Fingerprint.of issue.value = fingerprint := by
  induction history generalizing table with
  | nil => simp [runAll, issues]
  | cons operation rest ih =>
    rw [List.mem_cons, not_or] at remembers
    have effect := table.run_effect operation
    have later := ih (consistent.effect effect) remembers.2
    rw [reserved_iff_of_effect consistent effect (Ne.symm remembers.1)] at later
    simp only [issues, List.mem_append, Option.mem_toList, or_and_right, exists_or]
    rw [← or_assoc]
    exact later

/-- In a table that started empty, a key is reserved for a content when it was given out for it. -/
theorem reserved_iff_issued [Hashing] (name : String) (parent : Option String)
    {history : List Operation} (remembers : .forgetRetired ∉ history) :
    (runAll { name, parent } history).Reserved key fingerprint ↔
      ∃ issue ∈ issues { name, parent } history,
        issue.handle.text = key ∧ Fingerprint.of issue.value = fingerprint := by
  rw [reserved_runAll_iff (consistent_empty name parent) remembers]
  simp [Reserved]

/-! ## The handles given out -/

/-- No handle is live and retired. -/
theorem Consistent.names_disjoint [Hashing] (consistent : table.Consistent) :
    table.entries.names.Disjoint table.retired.names := by
  intro key live retired
  obtain ⟨entry, found⟩ := NameMap.mem_names_iff.mp live
  obtain ⟨fingerprint, kept⟩ := NameMap.mem_names_iff.mp retired
  rw [consistent.retired_apart kept] at found
  cases found

/-- Handles that are the live and the retired ones are as many, when each is counted once. -/
theorem Consistent.size_add_retiredCount [Hashing] (consistent : table.Consistent)
    {handles : List Handle} (given : ∀ handle : Handle, handle ∈ handles ↔
      handle.text ∈ table.entries.names ∨ handle.text ∈ table.retired.names) :
    table.size + table.retiredCount = handles.dedup.length := by
  -- Both lists hold the same keys, and neither holds a key twice.
  have once : (table.entries.names ++ table.retired.names).Nodup :=
    List.Nodup.append (NameMap.nodup_names _) (NameMap.nodup_names _) consistent.names_disjoint
  have different : (handles.dedup.map Handle.text).Nodup :=
    (List.nodup_dedup _).map fun _ _ => Handle.text_inj
  have same : (table.entries.names ++ table.retired.names).Perm
      (handles.dedup.map Handle.text) := by
    rw [List.perm_ext_iff_of_nodup once different]
    intro key
    have held := given ⟨key⟩
    rw [List.mem_append, ← held]
    constructor
    · intro member
      exact List.mem_map_of_mem (List.mem_dedup.mpr member)
    · intro member
      obtain ⟨handle, listed, rfl⟩ := List.mem_map.mp member
      exact List.mem_dedup.mp listed
  have counted := same.length_eq
  rw [List.length_append, List.length_map, NameMap.length_names, NameMap.length_names] at counted
  exact counted

/-- Until retired handles are released, the handles that storing values gave out are the live
handles together with the retired ones, no handle is both, the numbers of both add up to the number
of different handles given out, and one handle was only given out for values with one
fingerprint. -/
theorem issued_handles_balance [Hashing] (name : String) (parent : Option String)
    (history : List Operation) (remembers : .forgetRetired ∉ history) :
    let table := runAll { name, parent } history
    let issued := issues { name, parent } history
    (∀ handle : Handle, handle ∈ issued.map Issue.handle ↔
      handle.text ∈ table.entries.names ∨ handle.text ∈ table.retired.names) ∧
    table.entries.names.Disjoint table.retired.names ∧
    table.size + table.retiredCount = (issued.map Issue.handle).dedup.length ∧
    ∀ first ∈ issued, ∀ second ∈ issued, first.handle = second.handle →
      Fingerprint.of first.value = Fingerprint.of second.value := by
  intro table issued
  have consistent : table.Consistent := (consistent_empty name parent).runAll history
  have reserved_iff (key : String) (fingerprint : Fingerprint) :
      table.Reserved key fingerprint ↔ ∃ issue ∈ issued,
        issue.handle.text = key ∧ Fingerprint.of issue.value = fingerprint :=
    reserved_iff_issued name parent remembers
  have given (handle : Handle) : handle ∈ issued.map Issue.handle ↔
      handle.text ∈ table.entries.names ∨ handle.text ∈ table.retired.names := by
    rw [← exists_reserved_iff, List.mem_map]
    constructor
    · rintro ⟨issue, member, rfl⟩
      exact ⟨_, (reserved_iff _ _).mpr ⟨issue, member, rfl, rfl⟩⟩
    · rintro ⟨fingerprint, reserved⟩
      obtain ⟨issue, member, same, -⟩ := (reserved_iff _ _).mp reserved
      exact ⟨issue, member, Handle.text_inj same⟩
  refine ⟨given, consistent.names_disjoint, consistent.size_add_retiredCount given, ?_⟩
  intro first firstMember second secondMember same
  have left := (reserved_iff _ _).mpr ⟨first, firstMember, rfl, rfl⟩
  have right := (reserved_iff _ _).mpr ⟨second, secondMember, rfl, rfl⟩
  rw [same] at left
  exact left.unique right

/-- A deleted handle that is an alias by now stays retired when its content is stored again, under a
longer handle. Of four issues two name the longer handle, so that three handles were given out: two
are live and one is retired. -/
theorem issued_handles_balance_alias_in_the_way :
    let history : List Operation :=
      [.collapse "v" (.int 1) 16, .collapse "v" (.int 2) 16, .delete "v:d990d1e16b8bd986",
        .addAlias "v:d990d1e16b8bd986" "v:28f580f234ccc94c", .collapse "v" (.int 1) 16,
        .collapse "w" (.int 1) 16]
    let table := (root "t").runAll history
    let issued := (root "t").issues history
    .forgetRetired ∉ history ∧ issued.length = 4 ∧
      table.entries.names = ["v:28f580f234ccc94c", "v:d990d1e16b8bd9861"] ∧
      table.retired.names = ["v:d990d1e16b8bd986"] ∧
      (issued.map Issue.handle).dedup.length = 3 ∧
      ∀ first ∈ issued, ∀ second ∈ issued, first.handle = second.handle →
        Fingerprint.of first.value = Fingerprint.of second.value := by
  intro history table issued
  have remembers : .forgetRetired ∉ history := by simp [history]
  obtain ⟨-, -, count, onlyFor⟩ := issued_handles_balance "t" none history remembers
  have evaluated : table.entries.names = ["v:28f580f234ccc94c", "v:d990d1e16b8bd9861"] ∧
      table.retired.names = ["v:d990d1e16b8bd986"] ∧ issued.length = 4 := by
    decide +kernel
  obtain ⟨live, retired, four⟩ := evaluated
  have size : table.size = 2 := by rw [Table.size, ← NameMap.length_names, live]; rfl
  have retiredCount : table.retiredCount = 1 := by
    rw [Table.retiredCount, ← NameMap.length_names, retired]; rfl
  have three : table.size + table.retiredCount = 3 := by rw [size, retiredCount]
  exact ⟨remembers, four, live, retired, count.symm.trans three, onlyFor⟩

end ContentSpace.Table

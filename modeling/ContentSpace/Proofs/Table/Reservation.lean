import ContentSpace.Proofs.Table.Representation
import ContentSpace.Sha256

/-!
# When a handle keeps its meaning

Storing a value reserves its handle: until retired handles are released, the handle is live with
content of the same fingerprint or retired for it. The reservation binds the storing of values, but
not the giving of further names, so that a retired handle can become an alias of other content. It
keeps its meaning exactly when that does not happen.
-/

namespace ContentSpace.Table

/-- A key stands for nothing, or for content with a fingerprint. -/
def StandsOnlyFor [Hashing] (table : Table) (key : String) (fingerprint : Fingerprint) : Prop :=
  table.resolve key = .error (.notFound table.name key) ∨
    ∃ value, table.resolve key = .ok value ∧ Fingerprint.of value = fingerprint

/-- Whenever a history makes a key an alias, the key is given to content with a fingerprint. -/
def AliasesAgree [Hashing] (table : Table) (history : List Operation) (key : String)
    (fingerprint : Fingerprint) : Prop :=
  ∀ before target handle, before ++ [.addAlias key target] <+: history →
    ((table.runAll before).run (.addAlias key target)).1 = .ok (.handle handle) →
      ∃ entry, (table.runAll before).entries.get? target = some entry ∧
        entry.fingerprint = fingerprint

/-- A key is live with a fingerprint, or retired for it. -/
def Reserved (table : Table) (key : String) (fingerprint : Fingerprint) : Prop :=
  (∃ entry, table.entries.get? key = some entry ∧ entry.fingerprint = fingerprint) ∨
    (table.entries.get? key = none ∧ table.retired.get? key = some fingerprint)

/-- A key means one fingerprint in a consistent table, as a handle and as an alias. -/
structure KeptFor [Hashing] (table : Table) (key : String) (fingerprint : Fingerprint) : Prop where
  /-- The maps of the table agree. -/
  consistent : table.Consistent
  /-- The key is reserved. -/
  reserved : table.Reserved key fingerprint
  /-- As an alias the key stands for the same content. -/
  aliased : ∀ handle, table.aliases.get? key = some handle →
    ∃ entry, table.entries.get? handle.text = some entry ∧ entry.fingerprint = fingerprint

variable {table : Table} {key : String} {fingerprint : Fingerprint}

/-- What the answer of storing a value is. -/
theorem answer_collapse_iff [Hashing] {tag : String} {value : Value} {length : Nat}
    {issued : Collapsed} : (table.run (.collapse tag value length)).1 = .ok (.collapsed issued) ↔
      (table.collapse tag value length).toOption.map Prod.fst = some issued := by
  rw [run]
  cases table.collapse tag value length with
  | error fault => simp [run.settle, Except.toOption]
  | ok result => simp [run.settle, Except.toOption]

/-! ## What reservations go through -/

/-- New content gets a reserved handle only when the handle is reserved for it. -/
theorem Reserved.store (reserved : table.Reserved key fingerprint) {entry : Entry}
    (free : table.isTaken entry.handle entry.fingerprint = false) :
    (table.store entry).Reserved key fingerprint := by
  obtain ⟨noEntry, -, retired⟩ := isTaken_eq_false_iff.mp free
  simp only [Reserved, Table.store, NameMap.get?_insert, NameMap.get?_erase]
  by_cases same : key = entry.handle.text
  · subst same
    rcases reserved with ⟨other, live, -⟩ | ⟨-, reserved⟩
    · rw [noEntry] at live
      cases live
    · left
      exact ⟨entry, if_pos rfl, (retired fingerprint reserved).symm⟩
  · rw [if_neg same, if_neg same]
    exact reserved

/-- A removed handle stays reserved. -/
theorem Reserved.removed (reserved : table.Reserved key fingerprint) {entry : Entry}
    (live : table.entries.get? entry.handle.text = some entry) :
    (table.removed entry).Reserved key fingerprint := by
  simp only [Reserved, Table.removed, NameMap.get?_insert, NameMap.get?_erase]
  by_cases same : key = entry.handle.text
  · subst same
    rcases reserved with ⟨other, found, print⟩ | ⟨gone, -⟩
    · rw [live, Option.some.injEq] at found
      right
      rw [if_pos rfl, if_pos rfl, found, print]
      exact ⟨rfl, rfl⟩
    · rw [live] at gone
      cases gone
  · rw [if_neg same, if_neg same]
    exact reserved

/-- All handles stay reserved when all entries are removed. -/
theorem Reserved.clear [Hashing] (reserved : table.Reserved key fingerprint)
    (consistent : table.Consistent) : table.clear.2.Reserved key fingerprint := by
  right
  constructor
  · exact NameMap.get?_empty key
  -- The retired handles after clearing are those of the entries, and those retired before.
  have retired := NameMap.get?_foldl_insert (fun entry : Entry => entry.handle.text)
    Entry.fingerprint table.entries.values table.retired key
  have stored {entry : Entry} (member : entry ∈ table.entries.values)
      (named : entry.handle.text = key) : table.entries.get? key = some entry := by
    obtain ⟨other, found⟩ := NameMap.mem_values_iff.mp member
    rw [← named, consistent.handle found, found]
  show table.clear.2.retired.get? key = some fingerprint
  rcases reserved with ⟨entry, live, print⟩ | ⟨absent, reserved⟩
  · rcases retired with ⟨other, member, named, found⟩ | ⟨apart, -⟩
    · have same : some other = some entry := by rw [← stored member named, live]
      rw [Option.some.injEq] at same
      rw [← print, ← same]
      exact found
    · exact absurd (consistent.handle live) (apart entry (NameMap.mem_values_iff.mpr ⟨key, live⟩))
  · rcases retired with ⟨other, member, named, -⟩ | ⟨-, kept⟩
    · have found := stored member named
      rw [absent] at found
      cases found
    · rw [← reserved]
      exact kept

namespace KeptFor

/-- A key that is kept for content stands for nothing else. -/
theorem standsOnlyFor [Hashing] (kept : table.KeptFor key fingerprint) :
    table.StandsOnlyFor key fingerprint := by
  unfold StandsOnlyFor resolve find
  cases found : table.get? key with
  | none => exact .inl rfl
  | some entry =>
    have live := kept.consistent.live found
    have print := (kept.consistent.sound live).fingerprint
    refine .inr ⟨entry.value, rfl, ?_⟩
    rw [← print]
    rw [get?, Option.orElse_eq_some] at found
    rcases found with direct | ⟨-, further⟩
    · rcases kept.reserved with ⟨other, stored, same⟩ | ⟨absent, -⟩
      · rw [direct, Option.some.injEq] at stored
        rw [stored, same]
      · rw [direct] at absent
        cases absent
    · obtain ⟨handle, named, stored⟩ := Option.bind_eq_some_iff.mp further
      obtain ⟨other, target, same⟩ := kept.aliased handle named
      rw [stored, Option.some.injEq] at target
      rw [target, same]

/-- An operation keeps a key for its content unless it releases retired handles or makes the key an
alias of other content. -/
theorem effect [Hashing] (kept : table.KeptFor key fingerprint) {operation : Operation}
    {answer : Except Fault Answer} {after : Table} (effect : Effect table operation answer after)
    (remembers : operation ≠ .forgetRetired)
    (agrees : ∀ target handle, operation = .addAlias key target → answer = .ok (.handle handle) →
      ∃ entry, table.entries.get? target = some entry ∧ entry.fingerprint = fingerprint) :
    after.KeptFor key fingerprint := by
  have consistent : after.Consistent := kept.consistent.effect effect
  cases effect with
  | refused => exact kept
  | known => exact kept
  | stored absent candidate free =>
    refine ⟨consistent, kept.reserved.store free, ?_⟩
    intro handle named
    obtain ⟨entry, live, print⟩ := kept.aliased handle named
    obtain ⟨noEntry, -⟩ := isTaken_eq_false_iff.mp free
    refine ⟨entry, NameMap.get?_insert_eq_some_iff.mpr (.inr ⟨?_, live⟩), print⟩
    intro same
    rw [same, noEntry] at live
    cases live
  | deleted found =>
    have live := kept.consistent.live found
    refine ⟨consistent, kept.reserved.removed live, ?_⟩
    intro handle named
    obtain ⟨old, other⟩ := NameMap.get?_filterValues_eq_some_iff.mp named
    obtain ⟨entry, target, print⟩ := kept.aliased handle old
    refine ⟨entry, NameMap.get?_erase_eq_some_iff.mpr ⟨?_, target⟩, print⟩
    exact fun same => bne_iff_ne.mp other (Handle.text_inj same)
  | cleared =>
    refine ⟨consistent, kept.reserved.clear kept.consistent, ?_⟩
    intro handle named
    simp [clear] at named
  | forgotten => exact absurd rfl remembers
  | @named name target entry live apart free =>
    refine ⟨consistent, kept.reserved, ?_⟩
    intro handle bound
    rcases NameMap.get?_insert_eq_some_iff.mp bound with ⟨same, rfl⟩ | ⟨-, old⟩
    · obtain ⟨other, stored, print⟩ := agrees target _ (by rw [same]) rfl
      rw [live, Option.some.injEq] at stored
      exact ⟨entry, by rw [kept.consistent.handle live, live], by rw [stored, print]⟩
    · exact kept.aliased handle old
  | unnamed found =>
    refine ⟨consistent, kept.reserved, ?_⟩
    intro handle bound
    exact kept.aliased handle (NameMap.get?_erase_eq_some_iff.mp bound).2
  | watched => exact ⟨consistent, kept.reserved, kept.aliased⟩
  | listened => exact ⟨consistent, kept.reserved, kept.aliased⟩
  | unwatched => exact ⟨consistent, kept.reserved, kept.aliased⟩

end KeptFor

/-! ## Issued handles -/

/-- The handle that storing a value answers is kept for the value. -/
theorem keptFor_of_collapse [Hashing] (consistent : table.Consistent) {tag : String} {value : Value}
    {length : Nat} {issued : Collapsed}
    (stored : (table.run (.collapse tag value length)).1 = .ok (.collapsed issued)) :
    (table.run (.collapse tag value length)).2.KeptFor issued.handle.text
      (Fingerprint.of value) := by
  have effect := table.run_effect (.collapse tag value length)
  have after := consistent.effect effect
  rw [stored] at effect
  generalize (table.run (.collapse tag value length)).2 = result at effect after
  have apart {entry : Entry} (live : result.entries.get? issued.handle.text = some entry)
      (handle : Handle) (named : result.aliases.get? issued.handle.text = some handle) : False := by
    rw [after.alias_apart named] at live
    cases live
  cases effect with
  | known indexed =>
    obtain ⟨entry, live, print⟩ := consistent.index_iff.mp indexed
    exact ⟨after, .inl ⟨entry, live, print⟩, fun handle named => (apart live handle named).elim⟩
  | @stored _ _ _ handle =>
    have live : (table.store ⟨handle, value, Fingerprint.of value, tag⟩).entries.get? handle.text =
        some ⟨handle, value, Fingerprint.of value, tag⟩ := by
      simp only [Table.store, NameMap.get?_insert, if_true]
    exact ⟨after, .inl ⟨_, live, rfl⟩, fun handle named => (apart live handle named).elim⟩

/-- A key that is kept for content stays so as long as no alias of it disagrees. -/
theorem KeptFor.runAll [Hashing] (kept : table.KeptFor key fingerprint)
    {history middle : List Operation} (remembers : .forgetRetired ∉ history)
    (agree : table.AliasesAgree history key fingerprint) (reached : middle <+: history) :
    (table.runAll middle).KeptFor key fingerprint := by
  -- The induction is on the part of the history that was run, from its end.
  induction middle using List.reverseRecOn with
  | nil => exact kept
  | append_singleton before operation ih =>
    have earlier : (table.runAll before).KeptFor key fingerprint :=
      ih ((List.prefix_append before [operation]).trans reached)
    have member : operation ∈ history := reached.mem (by simp)
    rw [runAll_append_singleton]
    refine earlier.effect ((table.runAll before).run_effect operation) ?_ ?_
    · rintro rfl
      exact remembers member
    · rintro target handle rfl answer
      exact agree before target handle reached answer

/-- Making a key an alias in a consistent table makes it stand for the content of its target. -/
theorem resolve_of_addAlias [Hashing] (consistent : table.Consistent) {target : String}
    {handle : Handle} (accepted : (table.run (.addAlias key target)).1 = .ok (.handle handle)) :
    ∃ entry, table.entries.get? target = some entry ∧
      (table.run (.addAlias key target)).2.resolve key = .ok entry.value := by
  have effect := table.run_effect (.addAlias key target)
  rw [accepted] at effect
  generalize (table.run (.addAlias key target)).2 = after at effect
  cases effect with
  | @named _ _ entry live apart free =>
    have stored : table.entries.get? entry.handle.text = some entry := by
      rw [consistent.handle live, live]
    refine ⟨entry, live, ?_⟩
    simp [resolve, find, get?, apart, stored, Except.map]

/-- After a handle was issued for a value and as long as no retired handles are released, the handle
stands for nothing or for content with the fingerprint of the value, at every later step, exactly
when it is never made an alias of other content. -/
theorem stands_only_for_issued_iff [Hashing] (name : String) (parent : Option String)
    (before after : List Operation) (tag : String) (value : Value) (length : Nat)
    (issued : Collapsed)
    (stored : ((runAll { name, parent } before).run (.collapse tag value length)).1 =
      .ok (.collapsed issued))
    (remembers : .forgetRetired ∉ after) :
    let table := runAll { name, parent } (before ++ [.collapse tag value length])
    (∀ middle, middle <+: after →
      (table.runAll middle).StandsOnlyFor issued.handle.text (Fingerprint.of value)) ↔
      table.AliasesAgree after issued.handle.text (Fingerprint.of value) := by
  intro table
  have empty := consistent_empty name parent
  have issue : table = ((runAll { name, parent } before).run (.collapse tag value length)).2 :=
    runAll_append_singleton _ before _
  constructor
  · intro stands front target handle reached accepted
    have consistent : (table.runAll front).Consistent :=
      (empty.runAll (before ++ [.collapse tag value length])).runAll front
    obtain ⟨entry, live, resolved⟩ := resolve_of_addAlias consistent accepted
    refine ⟨entry, live, ?_⟩
    have now := stands _ reached
    rw [runAll_append_singleton, StandsOnlyFor, resolved] at now
    rcases now with missing | ⟨content, found, print⟩
    · cases missing
    · rw [Except.ok.injEq] at found
      rw [(consistent.sound live).fingerprint, found, print]
  · intro agree middle reached
    have kept : table.KeptFor issued.handle.text (Fingerprint.of value) := by
      rw [issue]
      exact keptFor_of_collapse (empty.runAll before) stored
    exact (kept.runAll remembers agree reached).standsOnlyFor

/-- A handle that was issued for one integer and deleted is given as an alias to another integer, and
then stands for that one. -/
theorem alias_rebinds_deleted_handle :
    let after : List Operation :=
      [.collapse "v" (.int 2) 16, .delete "v:d990d1e16b8bd986",
        .addAlias "v:d990d1e16b8bd986" "v:28f580f234ccc94c"]
    ((root "t").run (.collapse "v" (.int 1) 16)).1 =
        .ok (.collapsed ⟨⟨"v:d990d1e16b8bd986"⟩, true⟩) ∧
      .forgetRetired ∉ after ∧
      ¬ ((root "t").runAll (.collapse "v" (.int 1) 16 :: after)).StandsOnlyFor
        "v:d990d1e16b8bd986" (Fingerprint.of (.int 1)) := by
  intro after
  have different : Fingerprint.of (.int 2) ≠ Fingerprint.of (.int 1) := by decide +kernel
  have found : (((root "t").runAll (.collapse "v" (.int 1) 16 :: after)).resolve
      "v:d990d1e16b8bd986").toOption.map Fingerprint.of = some (Fingerprint.of (.int 2)) := by
    decide +kernel
  refine ⟨answer_collapse_iff.mpr (by decide +kernel), by simp [after], ?_⟩
  rintro (missing | ⟨value, resolved, print⟩)
  · rw [missing] at found
    cases found
  · rw [resolved] at found
    exact different ((Option.some.inj found).symm.trans print)

/-- A deleted handle that is given as an alias to a further copy of its own content stands for
nothing else at any step. -/
theorem deleted_handle_stands_for_its_content :
    let after : List Operation :=
      [.delete "v:d990d1e16b8bd986", .collapse "w" (.int 1) 16,
        .addAlias "v:d990d1e16b8bd986" "w:d990d1e16b8bd986"]
    ∀ middle, middle <+: after →
      (((root "t").runAll [.collapse "v" (.int 1) 16]).runAll middle).StandsOnlyFor
        "v:d990d1e16b8bd986" (Fingerprint.of (.int 1)) := by
  intro after
  have issued : ((root "t").run (.collapse "v" (.int 1) 16)).1 =
      .ok (.collapsed ⟨⟨"v:d990d1e16b8bd986"⟩, true⟩) :=
    answer_collapse_iff.mpr (by decide +kernel)
  refine (stands_only_for_issued_iff "t" none [] after "v" (.int 1) 16 _ issued
    (by simp [after])).mpr ?_
  intro front target handle reached _
  -- The only alias is given by the last operation.
  have last : front = after.take 2 ∧ target = "w:d990d1e16b8bd986" := by
    match front with
    | [] => simp [after] at reached
    | [_] => simp [after] at reached
    | [_, _] => simpa [after, and_assoc] using reached
    | _ :: _ :: _ :: _ => simp [after] at reached
  obtain ⟨rfl, rfl⟩ := last
  have stored : ((((root "t").runAll [.collapse "v" (.int 1) 16]).runAll (after.take 2)).entries.get?
      "w:d990d1e16b8bd986").map Entry.fingerprint = some (Fingerprint.of (.int 1)) := by
    decide +kernel
  exact Option.map_eq_some_iff.mp stored

end ContentSpace.Table

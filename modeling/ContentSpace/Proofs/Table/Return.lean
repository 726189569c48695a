import ContentSpace.Proofs.Table.Availability
import ContentSpace.Proofs.Table.Ledger
import ContentSpace.Sha256

/-!
# Deleted content gets its handle back

A new handle has as few digits as the handles that are taken allow, so it depends on what was stored
before. But the handles that were in the way stay in the way: they are reserved for other content,
live or retired, and without aliases nothing else takes a handle. So content that was deleted finds
the handle it had: every shorter one is still reserved for other content, and this one for itself.
-/

namespace ContentSpace.Table

/-- A history creates an entry: one of its operations stores a value that was not stored, with a
tag, and answers a handle. -/
def Creates [Hashing] (table : Table) (history : List Operation) (tag : String)
    (fingerprint : Fingerprint) (handle : Handle) : Prop :=
  ∃ before value length, before ++ [.collapse tag value length] <+: history ∧
    Fingerprint.of value = fingerprint ∧
    ((table.runAll before).run (.collapse tag value length)).1 = .ok (.collapsed ⟨handle, true⟩)

/-- The handle of content with a tag is settled: it is reserved for the content, and all shorter
ones that the content may get are reserved for other contents. -/
structure Settled (table : Table) (tag : String) (fingerprint : Fingerprint)
    (length digits : Nat) : Prop where
  /-- The handle is one that the content may get. -/
  atLeast : firstLength length ≤ digits
  /-- The handle is reserved for the content. -/
  reserved : table.Reserved (Handle.mint tag fingerprint digits).text fingerprint
  /-- Shorter handles are reserved for other contents. -/
  shorter : ∀ fewer, firstLength length ≤ fewer → fewer < digits → ∃ other, other ≠ fingerprint ∧
    table.Reserved (Handle.mint tag fingerprint fewer).text other

variable {table : Table} {tag : String} {fingerprint : Fingerprint} {length digits : Nat}

/-! ## Reservations last -/

/-- What is reserved stays so until retired handles are released. -/
theorem Reserved.runAll [Hashing] {key : String} (reserved : table.Reserved key fingerprint)
    (consistent : table.Consistent) {history : List Operation}
    (remembers : .forgetRetired ∉ history) : (table.runAll history).Reserved key fingerprint :=
  (reserved_runAll_iff consistent remembers).mpr (.inl reserved)

/-- Without aliases, a handle that is taken for content that is not stored is reserved for other
content. -/
theorem reserved_of_isTaken [Hashing] (consistent : table.Consistent) (unaliased : table.Unaliased)
    (absent : table.index.get? fingerprint.hex = none) {handle : Handle}
    (taken : table.isTaken handle fingerprint = true) :
    ∃ other, other ≠ fingerprint ∧ table.Reserved handle.text other := by
  rcases isTaken_eq_true_iff.mp taken with named | live | ⟨other, retired, different⟩
  · exact absurd named (unaliased.not_mem_names _)
  · obtain ⟨entry, found⟩ := NameMap.mem_names_iff.mp live
    have new := consistent.index_eq_none_iff.mp absent
    exact ⟨entry.fingerprint, new entry (NameMap.mem_values_iff.mpr ⟨_, found⟩),
      .inl ⟨entry, found, rfl⟩⟩
  · exact ⟨other, different, .inr ⟨consistent.retired_apart retired, retired⟩⟩

namespace Settled

/-- The settled handle has a determined number of digits. -/
theorem unique {others : Nat} (settled : table.Settled tag fingerprint length digits)
    (again : table.Settled tag fingerprint length others) : digits = others := by
  have notLess {few many : Nat} (short : table.Settled tag fingerprint length few)
      (long : table.Settled tag fingerprint length many) : ¬ few < many := by
    intro less
    obtain ⟨other, different, reserved⟩ := long.shorter few short.atLeast less
    exact different (reserved.unique short.reserved)
  exact Nat.le_antisymm (Nat.le_of_not_lt (notLess again settled))
    (Nat.le_of_not_lt (notLess settled again))

/-- A settled handle stays so until retired handles are released. -/
theorem runAll [Hashing] (settled : table.Settled tag fingerprint length digits)
    (consistent : table.Consistent) {history : List Operation}
    (remembers : .forgetRetired ∉ history) :
    (table.runAll history).Settled tag fingerprint length digits := by
  refine ⟨settled.atLeast, settled.reserved.runAll consistent remembers, ?_⟩
  intro fewer atLeast less
  obtain ⟨other, different, reserved⟩ := settled.shorter fewer atLeast less
  exact ⟨other, different, reserved.runAll consistent remembers⟩

end Settled

/-- Creating an entry in a table without aliases settles its handle. -/
theorem settled_of_collapse [Hashing] (consistent : table.Consistent) (unaliased : table.Unaliased)
    {value : Value} {handle : Handle}
    (created : (table.run (.collapse tag value length)).1 = .ok (.collapsed ⟨handle, true⟩)) :
    ∃ digits, handle = Handle.mint tag (Fingerprint.of value) digits ∧
      (table.run (.collapse tag value length)).2.Settled tag (Fingerprint.of value) length
        digits := by
  obtain ⟨absent, after, free, digits, atLeast, rfl, taken⟩ := shortest_of_collapse created
  refine ⟨digits, rfl, atLeast, ?_, ?_⟩
  · rw [after]
    refine (reserved_store_iff ?_).mpr (.inr ⟨rfl, rfl⟩)
    exact free
  · intro fewer inside less
    obtain ⟨other, different, reserved⟩ :=
      reserved_of_isTaken consistent unaliased absent (taken fewer inside less)
    rw [after]
    refine ⟨other, different, reserved.store ?_⟩
    exact free

/-- The handle of every entry that a history creates is settled after the history, when it gives no
names, releases no retired handles and stores with one number of digits. -/
theorem settled_of_creates [Hashing] (consistent : table.Consistent) (unaliased : table.Unaliased)
    {history : List Operation} {handle : Handle}
    (uniform : ∀ tag value other, .collapse tag value other ∈ history → other = length)
    (unnamed : ∀ name key, .addAlias name key ∉ history) (remembers : .forgetRetired ∉ history)
    (creates : table.Creates history tag fingerprint handle) :
    ∃ digits, handle = Handle.mint tag fingerprint digits ∧
      (table.runAll history).Settled tag fingerprint length digits := by
  obtain ⟨before, value, used, ⟨rest, rfl⟩, rfl, created⟩ := creates
  obtain rfl : used = length := uniform tag value used (by simp)
  simp only [List.mem_append, not_or] at unnamed remembers
  have earlier : (table.runAll before).Unaliased :=
    unaliased.runAll fun name key => (unnamed name key).1.1
  obtain ⟨digits, rfl, settled⟩ :=
    settled_of_collapse (consistent.runAll before) earlier created
  rw [← runAll_append_singleton] at settled
  refine ⟨digits, rfl, ?_⟩
  rw [runAll_append]
  exact settled.runAll (consistent.runAll _) remembers.2

/-- In a table that started empty, a history that gives no names, releases no retired handles and
stores with one number of digits answers the same handle whenever it creates an entry for the same
content with the same tag, whatever it stores, removes and clears in between. -/
theorem created_handle_unique [Hashing] (name : String) (parent : Option String)
    (history : List Operation) (length : Nat) (tag : String) (fingerprint : Fingerprint)
    (first second : Handle)
    (uniform : ∀ tag value other, .collapse tag value other ∈ history → other = length)
    (unnamed : ∀ name key, .addAlias name key ∉ history) (remembers : .forgetRetired ∉ history)
    (creates : Creates { name, parent } history tag fingerprint first)
    (again : Creates { name, parent } history tag fingerprint second) : first = second := by
  have consistent := consistent_empty name parent
  have unaliased := unaliased_empty name parent
  obtain ⟨digits, rfl, settled⟩ :=
    settled_of_creates consistent unaliased uniform unnamed remembers creates
  obtain ⟨others, rfl, resettled⟩ :=
    settled_of_creates consistent unaliased uniform unnamed remembers again
  rw [settled.unique resettled]

/-- An integer gets two digits, since one digit is given to another integer. That one is removed and
stored again with another tag, then both are removed. Stored again, the integer gets its two digits,
although nothing is stored with one. -/
theorem created_handle_unique_after_clear :
    let meanwhile : List Operation := [.delete "v:9", .collapse "w" (.int 3) 1, .clear]
    let before : List Operation := [.collapse "v" (.int 3) 1]
    let again : List Operation := before ++ [.collapse "v" (.int 19) 1] ++ meanwhile
    ((runAll (root "t") before).run (.collapse "v" (.int 19) 1)).1 =
        .ok (.collapsed ⟨⟨"v:9b"⟩, true⟩) ∧
      ((runAll (root "t") again).run (.collapse "v" (.int 19) 1)).1 =
        .ok (.collapsed ⟨⟨"v:9b"⟩, true⟩) := by
  intro meanwhile before again
  have first : ((runAll (root "t") before).run (.collapse "v" (.int 19) 1)).1 =
      .ok (.collapsed ⟨⟨"v:9b"⟩, true⟩) := answer_collapse_iff.mpr (by decide +kernel)
  have created : ((runAll (root "t") again).collapse "v" (.int 19) 1).toOption.map
      (·.1.created) = some true := by
    decide +kernel
  obtain ⟨⟨⟨handle, _⟩, after⟩, stored, rfl⟩ := Option.map_eq_some_iff.mp created
  have second : ((runAll (root "t") again).run (.collapse "v" (.int 19) 1)).1 =
      .ok (.collapsed ⟨handle, true⟩) := answer_collapse_iff.mpr (by rw [stored]; rfl)
  let history := again ++ [.collapse "v" (.int 19) 1]
  have uniform : ∀ tag value other, .collapse tag value other ∈ history → other = 1 := by
    intro tag value other member
    simp only [history, again, before, meanwhile, List.cons_append, List.nil_append, List.mem_cons,
      List.not_mem_nil, or_false, Operation.collapse.injEq, reduceCtorEq, false_or] at member
    rcases member with ⟨-, -, rfl⟩ | ⟨-, -, rfl⟩ | ⟨-, -, rfl⟩ | ⟨-, -, rfl⟩ <;> rfl
  have creates : Creates (root "t") history "v" (Fingerprint.of (.int 19)) ⟨"v:9b"⟩ :=
    ⟨before, .int 19, 1, ⟨meanwhile ++ [.collapse "v" (.int 19) 1], by simp [history, again]⟩, rfl,
      first⟩
  have recreates : Creates (root "t") history "v" (Fingerprint.of (.int 19)) handle :=
    ⟨again, .int 19, 1, List.prefix_rfl, rfl, second⟩
  have same : handle = ⟨"v:9b"⟩ :=
    created_handle_unique "t" none history 1 "v" (Fingerprint.of (.int 19)) _ _ uniform
      (by simp [history, again, before, meanwhile]) (by simp [history, again, before, meanwhile])
      recreates creates
  rw [second, same]
  exact ⟨first, rfl⟩

end ContentSpace.Table

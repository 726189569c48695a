import ContentSpace.Fields
import Mathlib.Data.List.Basic
import Mathlib.Data.List.Induction

/-!
# Fields made from pairs

Fields are made by inserting one pair after the other. What comes out is among the pairs, it is all
of them when no name comes twice, and it is the pairs as they stand when their names ascend.
-/

namespace ContentSpace.Fields

variable {α : Type} {name : String} {value : α} {fields pairs : List (String × α)}

/-- A field after all others is inserted at the end. -/
theorem insert_of_last (last : ∀ field ∈ fields, field.1 < name) :
    insert name value fields = fields ++ [(name, value)] := by
  induction fields with
  | nil => rfl
  | cons head rest ih =>
    obtain ⟨above, later⟩ := List.forall_mem_cons.mp last
    have notBelow : ¬ name < head.1 := fun below =>
      String.lt_irrefl _ (String.lt_trans above below)
    have different : name ≠ head.1 := by
      intro same
      rw [same] at above
      exact String.lt_irrefl _ above
    rw [insert, if_neg notBelow, if_neg different, ih later, List.cons_append]

/-- Fields in order are made from themselves. -/
theorem ofPairs_of_ascending (ascending : Ascending fields) : ofPairs fields = fields := by
  induction fields using List.reverseRecOn with
  | nil => rfl
  | append_singleton front last ih =>
    obtain ⟨before, -, above⟩ := List.pairwise_append.mp ascending
    rw [ofPairs_append_singleton, ih before]
    exact insert_of_last fun field member => above field member last (List.mem_singleton_self _)

/-- Fields made from pairs are among the pairs. -/
theorem mem_of_mem_ofPairs {field : String × α} (member : field ∈ ofPairs pairs) :
    field ∈ pairs := by
  induction pairs using List.reverseRecOn with
  | nil => cases member
  | append_singleton front last ih =>
    rw [ofPairs_append_singleton] at member
    rw [List.mem_append, List.mem_singleton]
    rcases mem_insert member with new | old
    · exact .inr new
    · exact .inl (ih old)

/-- Inserting a new name adds its field. -/
theorem insert_perm (absent : ∀ field ∈ fields, field.1 ≠ name) :
    (insert name value fields).Perm ((name, value) :: fields) := by
  induction fields with
  | nil => exact .refl _
  | cons head rest ih =>
    obtain ⟨different, others⟩ := List.forall_mem_cons.mp absent
    rw [insert]
    split
    next => exact .refl _
    next =>
      rw [if_neg (Ne.symm different)]
      exact ((ih others).cons head).trans (.swap ..)

/-- Fields made from pairs with different names are the pairs, in another order. -/
theorem ofPairs_perm (distinct : pairs.Pairwise fun left right => left.1 ≠ right.1) :
    (ofPairs pairs).Perm pairs := by
  induction pairs using List.reverseRecOn with
  | nil => exact .refl _
  | append_singleton front last ih =>
    obtain ⟨before, -, apart⟩ := List.pairwise_append.mp distinct
    have arranged := ih before
    have absent : ∀ field ∈ ofPairs front, field.1 ≠ last.1 :=
      fun field member => apart field (arranged.mem_iff.mp member) last (List.mem_singleton_self _)
    rw [ofPairs_append_singleton]
    exact (insert_perm absent).trans
      ((arranged.cons last).trans (List.perm_append_singleton ..).symm)

end ContentSpace.Fields

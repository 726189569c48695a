import ContentSpace.Proofs.Desugar.Run
import ContentSpace.Proofs.Desugar.Temporary

/-!
# Distinct temporary names

Names that one supply gives out for stems in a row take numbers in a row. All of them are temporary.
Two of them are equal exactly when the stem with the smaller number coincides with the other one, so
the names are distinct unless a stem ends in a digit, and the ten names with numbers of one digit are
distinct whatever their stems.
-/

namespace ContentSpace

open Desugaring

namespace Temporaries

variable {stems names : List String} {first last : Nat}

/-- The names for stems in a row have numbers in a row. -/
theorem gives_mapM_fresh :
    Gives (stems.mapM fresh) first names last ↔
      (stems.zipIdx first).map (fun entry => Temporaries.name entry.1 entry.2) = names ∧
        first + stems.length = last := by
  induction stems generalizing first names last with
  | nil => simp
  | cons stem rest ih =>
    simp only [List.mapM_cons, gives_bind, gives_fresh, gives_pure, ih, List.zipIdx_cons,
      List.map_cons, List.length_cons]
    constructor
    · rintro ⟨_, _, ⟨rfl, rfl⟩, _, _, ⟨rfl, rfl⟩, rfl, rfl⟩
      exact ⟨rfl, by omega⟩
    · rintro ⟨rfl, rfl⟩
      exact ⟨_, _, ⟨rfl, rfl⟩, _, _, ⟨rfl, rfl⟩, rfl, by omega⟩

/-- What a supply gives out for stems in a row. -/
theorem names_eq (stems : List String) (temporaries : Temporaries) :
    ((stems.mapM fresh).run temporaries).1 = (stems.zipIdx temporaries.issued).map
      fun entry => Temporaries.name entry.1 entry.2 :=
  (gives_mapM_fresh.mp (exists_gives (stems.mapM fresh) temporaries)).1.symm

/-- Numbers in a row ascend. -/
theorem pairwise_lt_zipIdx (stems : List String) (first : Nat) :
    (stems.zipIdx first).Pairwise fun entry later => entry.2 < later.2 := by
  rw [← List.pairwise_map (f := Prod.snd), List.zipIdx_map_snd]
  exact List.pairwise_lt_range' 1

/-- Names with numbers in a row are distinct when no two of the stems coincide, and only then. -/
theorem nodup_names_iff (stems : List String) (first : Nat) :
    ((stems.zipIdx first).map fun entry => Temporaries.name entry.1 entry.2).Nodup ↔
      (stems.zipIdx first).Pairwise fun entry later =>
        ¬ Coincide entry.1 entry.2 later.1 later.2 := by
  have ascending := pairwise_lt_zipIdx stems first
  rw [List.nodup_iff_pairwise_ne, List.pairwise_map]
  constructor
  · exact List.Pairwise.imp₂ (fun _ _ smaller => (name_eq_name_iff smaller).not.mp) ascending
  · exact List.Pairwise.imp₂ (fun _ _ smaller => (name_eq_name_iff smaller).not.mpr) ascending

/-- Names given out in a row are temporary. They are distinct unless a stem with its number spells
the name of a later stem with its number, in particular when no stem ends in a digit and when all
numbers have one digit. -/
theorem nodup_fresh_names_iff (stems : List String) (temporaries : Temporaries) :
    let names := ((stems.mapM fresh).run temporaries).1
    names.length = stems.length ∧ (∀ name ∈ names, isTemporary name = true) ∧
      (names.Nodup ↔ (stems.zipIdx temporaries.issued).Pairwise fun entry later =>
        ¬ Coincide entry.1 entry.2 later.1 later.2) ∧
      ((∀ stem ∈ stems, ¬ EndsInDigit stem) → names.Nodup) ∧
      (temporaries.issued + stems.length ≤ 10 → names.Nodup) := by
  intro names
  have given : names = _ := names_eq stems temporaries
  have distinct := nodup_names_iff stems temporaries.issued
  rw [← given] at distinct
  refine ⟨by simp [given], ?_, distinct, fun plain => ?_, fun few => ?_⟩
  · intro name member
    obtain ⟨entry, -, rfl⟩ := List.mem_map.mp (given ▸ member)
    exact isTemporary_name entry.1 entry.2
  · refine distinct.mpr (List.pairwise_of_forall_mem_list fun entry member later _ coincide => ?_)
    exact plain entry.1 (List.fst_mem_of_mem_zipIdx member) coincide.endsInDigit
  · refine distinct.mpr (List.pairwise_of_forall_mem_list fun entry _ later member coincide => ?_)
    have below := List.snd_lt_add_of_mem_zipIdx member
    exact absurd coincide.ten_le (by omega)

/-- Stems that do not end in digits have distinct names, also when their numbers do not have equally
many digits. -/
theorem nodup_fresh_names_past_ten :
    let stems := ["acc", "x2y", "i", "i"]
    let names := ((stems.mapM fresh).run ⟨8⟩).1
    names = ["$acc8", "$x2y9", "$i10", "$i11"] ∧ (∀ stem ∈ stems, ¬ EndsInDigit stem) ∧
      names.Nodup := by
  have plain : ∀ stem ∈ ["acc", "x2y", "i", "i"], ¬ EndsInDigit stem := by decide
  exact ⟨by decide +kernel, plain, (nodup_fresh_names_iff _ ⟨8⟩).2.2.2.1 plain⟩

/-- A stem that ends in a digit spells the name that another stem has ten names later. -/
theorem fresh_gives_name_again :
    let names := ((("i1" :: List.replicate 10 "i").mapM fresh).run {}).1
    names[0]? = some "$i10" ∧ names[10]? = some "$i10" ∧ ¬ names.Nodup := by
  decide +kernel

end Temporaries

end ContentSpace

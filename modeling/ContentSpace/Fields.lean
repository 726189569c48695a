/-!
# Named fields in order

A list of named values in which the names ascend holds each name at most once and has one form for
each content. Names ascend by code points, which is also the order of their UTF-8 bytes.
Insertion and removal keep the order, so that a list built by them alone is in order.
-/

namespace ContentSpace.Fields

variable {α : Type}

/-- Every name stands after all names before it. -/
def Ascending (fields : List (String × α)) : Prop :=
  fields.Pairwise fun left right => left.1 < right.1

instance (fields : List (String × α)) : Decidable (Ascending fields) :=
  inferInstanceAs (Decidable (fields.Pairwise fun left right => left.1 < right.1))

/-- The fields with one name bound to a value, in place of what it was bound to. -/
def insert (name : String) (value : α) : List (String × α) → List (String × α)
  | [] => [(name, value)]
  | field :: rest =>
    if name < field.1 then (name, value) :: field :: rest
    else if name = field.1 then (name, value) :: rest
    else field :: insert name value rest

/-- The fields without one name. -/
def erase (name : String) (fields : List (String × α)) : List (String × α) :=
  fields.filter fun field => field.1 != name

/-- The fields that pairs in any order make; the last pair of a name counts. -/
def ofPairs (pairs : List (String × α)) : List (String × α) :=
  pairs.foldl (fun fields pair => insert pair.1 pair.2 fields) []

/-- The names after an insertion are the old ones and the inserted one. -/
theorem mem_insert {name : String} {value : α} {fields : List (String × α)} {field : String × α}
    (h : field ∈ insert name value fields) : field = (name, value) ∨ field ∈ fields := by
  induction fields with
  | nil => simpa [insert] using h
  | cons head rest ih =>
    simp only [insert] at h
    split at h
    · simpa using h
    · split at h
      · rcases List.mem_cons.1 h with equal | inside
        · exact .inl equal
        · exact .inr (List.mem_cons_of_mem _ inside)
      · rcases List.mem_cons.1 h with equal | inside
        · exact .inr (by simp [equal])
        · exact (ih inside).imp_right (List.mem_cons_of_mem _)

/-- Insertion keeps names in order. -/
theorem ascending_insert {name : String} {value : α} {fields : List (String × α)}
    (h : Ascending fields) : Ascending (insert name value fields) := by
  induction fields with
  | nil => simp [insert, Ascending]
  | cons head rest ih =>
    obtain ⟨above, tail⟩ := List.pairwise_cons.1 h
    simp only [insert]
    split
    next less =>
      refine List.pairwise_cons.2 ⟨fun field inside => ?_, h⟩
      rcases List.mem_cons.1 inside with rfl | later
      · exact less
      · exact String.lt_trans less (above field later)
    next notLess =>
      split
      next equal =>
        exact List.pairwise_cons.2 ⟨fun field inside => equal ▸ above field inside, tail⟩
      next different =>
        refine List.pairwise_cons.2 ⟨fun field inside => ?_, ih tail⟩
        rcases mem_insert inside with rfl | old
        · have atLeast : head.1 ≤ name := String.not_lt.1 notLess
          exact Decidable.byContradiction fun notGreater =>
            different (String.le_antisymm (String.not_lt.1 notGreater) atLeast)
        · exact above field old

/-- Removal keeps names in order. -/
theorem ascending_erase {name : String} {fields : List (String × α)} (h : Ascending fields) :
    Ascending (erase name fields) :=
  List.Pairwise.filter _ h

/-- Fields made from one pair more are the fields made before, with the pair inserted. -/
theorem ofPairs_append_singleton (pairs : List (String × α)) (pair : String × α) :
    ofPairs (pairs ++ [pair]) = insert pair.1 pair.2 (ofPairs pairs) := by
  rw [ofPairs, List.foldl_append]
  rfl

/-- Fields made from pairs are in order. -/
theorem ascending_ofPairs (pairs : List (String × α)) : Ascending (ofPairs pairs) := by
  suffices step : ∀ (rest : List (String × α)) (fields : List (String × α)), Ascending fields →
      Ascending (rest.foldl (fun fields pair => insert pair.1 pair.2 fields) fields) from
    step pairs [] List.Pairwise.nil
  intro rest
  induction rest with
  | nil => exact fun _ h => h
  | cons pair rest ih => exact fun fields h => ih _ (ascending_insert h)

/-- Looking a name up in a list that starts with a field. -/
theorem lookup_cons (other name : String) (value : α) (rest : List (String × α)) :
    List.lookup other ((name, value) :: rest) =
      if other = name then some value else List.lookup other rest := by
  by_cases equal : other = name
  · simp [equal]
  · have unequal : (other == name) = false := by simpa using equal
    simp [List.lookup_cons, unequal, equal]

/-- Looking a name up after an insertion. -/
theorem lookup_insert (name other : String) (value : α) (fields : List (String × α)) :
    (insert name value fields).lookup other =
      if other = name then some value else fields.lookup other := by
  induction fields with
  | nil => simp [insert, lookup_cons]
  | cons head rest ih =>
    obtain ⟨label, old⟩ := head
    simp only [insert]
    split
    · rw [lookup_cons]
    · split
      next same =>
        subst same
        simp only [lookup_cons]
        split <;> rfl
      next different =>
        simp only [lookup_cons, ih]
        by_cases first : other = label
        · simp [first, Ne.symm different]
        · simp [first]

/-- Looking a name up after a removal. -/
theorem lookup_erase (name other : String) (fields : List (String × α)) :
    (erase name fields).lookup other = if other = name then none else fields.lookup other := by
  induction fields with
  | nil => simp [erase]
  | cons head rest ih =>
    obtain ⟨label, old⟩ := head
    simp only [erase, List.filter_cons] at ih ⊢
    by_cases removed : label = name
    · subst removed
      by_cases equal : other = label
      · simpa [equal] using ih
      · simpa [equal, lookup_cons] using ih
    · by_cases equal : other = label
      · subst equal
        simp [removed]
      · simpa [removed, lookup_cons, equal] using ih

end ContentSpace.Fields

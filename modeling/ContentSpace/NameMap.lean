import ContentSpace.Fields

/-!
# Finite maps from names

A name map is a list of fields together with the proof that their names ascend. Two maps with the
same content are therefore equal, whatever the order in which they were filled.
-/

namespace ContentSpace

/-- A finite map from names to values, listed by ascending names. -/
structure NameMap (α : Type) where
  /-- Names with their values. -/
  fields : List (String × α)
  /-- The names are in order. -/
  ascending : Fields.Ascending fields

namespace NameMap

variable {α : Type}

/-- The map without names. -/
def empty : NameMap α := ⟨[], List.Pairwise.nil⟩

instance : EmptyCollection (NameMap α) := ⟨empty⟩

instance : Inhabited (NameMap α) := ⟨empty⟩

/-- The value bound to a name. -/
def get? (map : NameMap α) (name : String) : Option α := map.fields.lookup name

/-- Whether a name is bound. -/
def contains (map : NameMap α) (name : String) : Bool := (map.get? name).isSome

/-- The map with a name bound to a value. -/
def insert (map : NameMap α) (name : String) (value : α) : NameMap α :=
  ⟨Fields.insert name value map.fields, Fields.ascending_insert map.ascending⟩

/-- The map without a name. -/
def erase (map : NameMap α) (name : String) : NameMap α :=
  ⟨Fields.erase name map.fields, Fields.ascending_erase map.ascending⟩

/-- The map of the bindings whose value passes a test. -/
def filterValues (keep : α → Bool) (map : NameMap α) : NameMap α :=
  ⟨map.fields.filter fun field => keep field.2, List.Pairwise.filter _ map.ascending⟩

/-- The map that pairs in any order make; the last pair of a name counts. -/
def ofPairs (pairs : List (String × α)) : NameMap α :=
  ⟨Fields.ofPairs pairs, Fields.ascending_ofPairs pairs⟩

/-- Number of names. -/
def size (map : NameMap α) : Nat := map.fields.length

/-- Whether no name is bound. -/
def isEmpty (map : NameMap α) : Bool := map.fields.isEmpty

/-- The names in order. -/
def names (map : NameMap α) : List String := map.fields.map Prod.fst

/-- The values in the order of their names. -/
def values (map : NameMap α) : List α := map.fields.map Prod.snd

/-- Looking a name up after an insertion. -/
@[simp] theorem get?_insert (map : NameMap α) (name other : String) (value : α) :
    (map.insert name value).get? other = if other = name then some value else map.get? other :=
  Fields.lookup_insert name other value map.fields

/-- Looking a name up after a removal. -/
@[simp] theorem get?_erase (map : NameMap α) (name other : String) :
    (map.erase name).get? other = if other = name then none else map.get? other :=
  Fields.lookup_erase name other map.fields

/-- No name is bound in the empty map. -/
@[simp] theorem get?_empty (name : String) : (∅ : NameMap α).get? name = none := rfl

/-- Removing a bound name leaves fewer names. -/
theorem size_erase_lt {map : NameMap α} {name : String} {value : α}
    (h : map.get? name = some value) : (map.erase name).size < map.size := by
  have bound : ∃ field ∈ map.fields, ¬ (field.1 != name) = true := by
    obtain ⟨fields, _⟩ := map
    simp only [get?] at h
    induction fields with
    | nil => simp at h
    | cons head rest ih =>
      obtain ⟨other, content⟩ := head
      by_cases same : other = name
      · exact ⟨(other, content), by simp, by simp [same]⟩
      · have unequal : (name == other) = false := by simpa using Ne.symm same
        simp only [List.lookup_cons, unequal] at h
        rename_i ordered
        obtain ⟨field, inside, removed⟩ := ih (List.pairwise_cons.1 ordered).2 h
        exact ⟨field, List.mem_cons_of_mem _ inside, removed⟩
  obtain ⟨field, inside, removed⟩ := bound
  exact List.length_filter_lt_length_iff_exists.2 ⟨field, inside, removed⟩

end NameMap

end ContentSpace

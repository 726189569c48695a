import ContentSpace.NameMap
import Mathlib.Data.List.Basic
import Mathlib.Data.List.Induction

/-!
# Bindings of name maps

A map is described by what each name is bound to. The lemmas here say what can be found after a
change, and what the operations do that go through all bindings at once: selecting by value, listing
the values, and adding many bindings one after another.
-/

namespace ContentSpace.NameMap

variable {α : Type}

/-- A name is not bound when looking it up finds nothing. -/
theorem contains_eq_false_iff {map : NameMap α} {name : String} :
    map.contains name = false ↔ map.get? name = none := by
  rw [contains, Option.isSome_eq_false_iff, Option.isNone_iff_eq_none]

/-- What is found after an insertion is the inserted value or an old one under another name. -/
theorem get?_insert_eq_some_iff {map : NameMap α} {name other : String} {value content : α} :
    (map.insert name value).get? other = some content ↔
      (other = name ∧ value = content) ∨ (other ≠ name ∧ map.get? other = some content) := by
  rw [get?_insert]
  by_cases same : other = name
  · simp [same]
  · simp [same]

/-- What is found after a removal is an old value under another name. -/
theorem get?_erase_eq_some_iff {map : NameMap α} {name other : String} {content : α} :
    (map.erase name).get? other = some content ↔
      other ≠ name ∧ map.get? other = some content := by
  rw [get?_erase]
  by_cases same : other = name
  · simp [same]
  · simp [same]

/-- The fields of a map are its bindings. -/
theorem mem_fields_iff {map : NameMap α} {name : String} {value : α} :
    (name, value) ∈ map.fields ↔ map.get? name = some value := by
  obtain ⟨fields, ascending⟩ := map
  simp only [get?]
  induction fields with
  | nil => simp
  | cons head rest ih =>
    obtain ⟨label, content⟩ := head
    obtain ⟨above, tail⟩ := List.pairwise_cons.mp ascending
    rw [List.mem_cons, Fields.lookup_cons, ih tail]
    by_cases same : name = label
    · subst same
      have absent : rest.lookup name ≠ some value := by
        intro found
        exact absurd (above _ ((ih tail).mpr found)) (String.lt_irrefl _)
      simp [absent, eq_comm]
    · simp [same]

/-- The names of a map are the ones that are bound. -/
theorem mem_names_iff {map : NameMap α} {name : String} :
    name ∈ map.names ↔ ∃ value, map.get? name = some value := by
  simp only [names, List.mem_map, Prod.exists, mem_fields_iff]
  constructor
  · rintro ⟨_, value, found, rfl⟩
    exact ⟨value, found⟩
  · rintro ⟨value, found⟩
    exact ⟨name, value, found, rfl⟩

/-- There are as many names as the map has bindings. -/
@[simp] theorem length_names (map : NameMap α) : map.names.length = map.size := by
  rw [names, List.length_map, size]

/-- No name is listed twice. -/
theorem nodup_names (map : NameMap α) : map.names.Nodup := by
  apply List.Pairwise.map Prod.fst _ map.ascending
  intro field other less same
  rw [same] at less
  exact String.lt_irrefl _ less

/-- The values of a map are what its names are bound to. -/
theorem mem_values_iff {map : NameMap α} {value : α} :
    value ∈ map.values ↔ ∃ name, map.get? name = some value := by
  simp only [values, List.mem_map, Prod.exists, mem_fields_iff]
  constructor
  · rintro ⟨name, _, found, rfl⟩
    exact ⟨name, found⟩
  · rintro ⟨name, found⟩
    exact ⟨name, value, found, rfl⟩

/-- The only field of a name is its binding. -/
theorem filter_fields (map : NameMap α) (name : String) :
    map.fields.filter (fun field => field.1 = name) =
      (map.get? name).toList.map fun value => (name, value) := by
  obtain ⟨fields, ascending⟩ := map
  simp only [get?]
  induction fields with
  | nil => rfl
  | cons head rest ih =>
    obtain ⟨label, content⟩ := head
    obtain ⟨above, tail⟩ := List.pairwise_cons.mp ascending
    rw [List.filter_cons, Fields.lookup_cons, ih tail]
    by_cases same : label = name
    · subst same
      have absent : rest.lookup label = none := by
        rw [Option.eq_none_iff_forall_ne_some]
        intro value found
        have member : (label, value) ∈ rest := (@mem_fields_iff α ⟨rest, tail⟩ _ _).mpr found
        exact String.lt_irrefl label (above (label, value) member)
      simp [absent]
    · simp [same, Ne.symm same]

/-- What is found after selecting by value is an old value that passes the test. -/
theorem get?_filterValues_eq_some_iff {keep : α → Bool} {map : NameMap α} {name : String}
    {content : α} :
    (map.filterValues keep).get? name = some content ↔
      map.get? name = some content ∧ keep content = true := by
  rw [← mem_fields_iff, ← mem_fields_iff, filterValues, List.mem_filter]

/-- After many bindings a name is bound to one of the new values or to what it was bound to. -/
theorem get?_foldl_insert {β : Type} (name : β → String) (value : β → α) (items : List β)
    (map : NameMap α) (other : String) :
    let after := items.foldl (fun map item => map.insert (name item) (value item)) map
    (∃ item ∈ items, name item = other ∧ after.get? other = some (value item)) ∨
      ((∀ item ∈ items, name item ≠ other) ∧ after.get? other = map.get? other) := by
  induction items generalizing map with
  | nil => exact .inr ⟨by simp, rfl⟩
  | cons item rest ih =>
    rw [List.foldl_cons]
    rcases ih (map.insert (name item) (value item)) with ⟨later, member, named, found⟩ | ⟨apart, kept⟩
    · exact .inl ⟨later, List.mem_cons_of_mem _ member, named, found⟩
    · rw [get?_insert] at kept
      by_cases same : other = name item
      · rw [if_pos same] at kept
        exact .inl ⟨item, List.mem_cons_self .., same.symm, kept⟩
      · rw [if_neg same] at kept
        refine .inr ⟨?_, kept⟩
        intro earlier member
        rcases List.mem_cons.mp member with rfl | later
        · exact Ne.symm same
        · exact apart earlier later

/-- Two maps with the same bindings are the same map. -/
theorem ext_get? {left right : NameMap α} (same : ∀ name, left.get? name = right.get? name) :
    left = right := by
  have distinct (map : NameMap α) : map.fields.Nodup := by
    apply List.Pairwise.imp _ map.ascending
    rintro field _ less rfl
    exact String.lt_irrefl _ less
  have members (field : String × α) : field ∈ left.fields ↔ field ∈ right.fields := by
    rw [mem_fields_iff, mem_fields_iff, same]
  have arranged : left.fields.Perm right.fields :=
    (List.perm_ext_iff_of_nodup (distinct left) (distinct right)).mpr members
  have equal : left.fields = right.fields :=
    List.Perm.eq_of_pairwise
      (fun _ _ _ _ less greater => absurd (String.lt_trans less greater) (String.lt_irrefl _))
      left.ascending right.ascending arranged
  cases left
  cases right
  cases equal
  rfl

/-- Binding a name twice is binding it to the later value. -/
theorem insert_insert (map : NameMap α) (name : String) (first second : α) :
    (map.insert name first).insert name second = map.insert name second := by
  apply ext_get?
  intro other
  simp only [get?_insert]
  split <;> rfl

/-- Binding a name to what it is bound to changes nothing. -/
theorem insert_of_get? {map : NameMap α} {name : String} {value : α}
    (bound : map.get? name = some value) : map.insert name value = map := by
  apply ext_get?
  intro other
  rw [get?_insert]
  split
  next same => rw [same, bound]
  next => rfl

/-- A map made from pairs binds a name to the value of the last pair with that name. -/
theorem get?_ofPairs (pairs : List (String × α)) (name : String) :
    (ofPairs pairs).get? name = pairs.reverse.lookup name := by
  induction pairs using List.reverseRecOn with
  | nil => rfl
  | append_singleton front last ih =>
    have step : (ofPairs (front ++ [last])).fields =
        Fields.insert last.1 last.2 (ofPairs front).fields :=
      Fields.ofPairs_append_singleton front last
    rw [get?, step, Fields.lookup_insert, List.reverse_concat, Fields.lookup_cons, ← ih, get?]

end ContentSpace.NameMap

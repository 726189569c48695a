import ContentSpace.Proofs.Space.Composite

/-!
# The parts of an object

Decomposing an object reads the names of its fields as numbers, while projecting looks a name up as
it stands. Both find the same parts exactly when every name that is read as a number is the name of
that position, and every name of a position is read. A plus sign, a leading zero, and a number from
two to the 64th on tell them apart: a name with one of the first two is listed besides the name of
the position or in its place, and a position beyond the last number that is read is left out.
-/

namespace ContentSpace

namespace Space

variable {space : Space} {name key : String} {table : Table} {entry : Entry} {value part : Value}
  {fields : List (String × Value)} {position : Nat} {handles : List Handle}

/-! ## Two readings of names -/

/-- A value has a part at a position: its items reach that far, or a field has the name of the
position. -/
def HasPart : Value → Nat → Prop
  | .array items, position => position < items.length
  | .object fields, position => ∃ part, fields.lookup (positionName position) = some part
  | _, _ => False

/-- The positions at which a value has a part, in ascending order. -/
structure PartsAt (value : Value) (positions : List Nat) : Prop where
  /-- No position comes twice, and they ascend. -/
  ascending : positions.Pairwise (· < ·)
  /-- They are the positions of parts. -/
  mem_iff : ∀ position, position ∈ positions ↔ HasPart value position

/-- The fields whose names are read as numbers, with the numbers. -/
def readings (fields : List (String × Value)) : List (Nat × Value) :=
  fields.filterMap fun field => (position? field.1).map (·, field.2)

/-- The parts of a value in the order in which it is decomposed, with the numbers that order
them. -/
def listing : Value → List (Nat × Value)
  | .array items => items.zipIdx.map Prod.swap
  | .object fields => (readings fields).mergeSort fun left right => left.1 ≤ right.1
  | _ => []

/-- Names of fields are read as the positions whose names they are, and as nothing else. -/
def PlainlyNumbered : Value → Prop
  | .object fields => ∀ name part, (name, part) ∈ fields →
      ∀ position, position? name = some position ↔ name = positionName position
  | _ => True

/-- The numbers that names are read as are below two to the 64th. -/
theorem lt_of_position? (read : position? name = some position) : position < UInt64.size := by
  unfold position? at read
  split at read
  · simp only [Option.ite_none_right_eq_some, Option.some.injEq] at read
    obtain ⟨-, small, rfl⟩ := read
    exact small
  · cases read

/-- The parts that a value is decomposed into are listed. -/
theorem eq_of_parts {values : List Value} (found : parts value = .ok values) :
    values = (listing value).map Prod.snd := by
  cases value with
  | array items =>
    cases found
    rw [listing, List.map_map]
    exact (List.zipIdx_map_fst 0 values).symm
  | object fields =>
    cases found
    rfl
  | _ => cases found

/-- A part is listed when its field is read as a number. -/
theorem mem_readings_iff : (position, part) ∈ readings fields ↔
    ∃ name, (name, part) ∈ fields ∧ position? name = some position := by
  simp only [readings, List.mem_filterMap, Option.map_eq_some_iff, Prod.mk.injEq, Prod.exists]
  constructor
  · rintro ⟨name, _, member, _, read, rfl, rfl⟩
    exact ⟨name, member, read⟩
  · rintro ⟨name, member, read⟩
    exact ⟨name, part, member, position, read, rfl, rfl⟩

/-- The numbers of the listed parts are those that names are read as. -/
theorem map_fst_readings (fields : List (String × Value)) :
    (readings fields).map Prod.fst = fields.filterMap fun field => position? field.1 := by
  rw [readings, List.map_filterMap]
  simp [Function.comp_def]

/-- Listing an object sorts what is read. -/
theorem listing_perm (fields : List (String × Value)) :
    (listing (.object fields)).Perm (readings fields) :=
  List.mergeSort_perm ..

/-- A number is listed when a name is read as it. -/
theorem mem_map_fst_listing : position ∈ (listing (.object fields)).map Prod.fst ↔
    ∃ name part, (name, part) ∈ fields ∧ position? name = some position := by
  rw [((listing_perm fields).map Prod.fst).mem_iff, map_fst_readings]
  simp

/-- The numbers of the listed parts do not descend. -/
theorem pairwise_listing (fields : List (String × Value)) :
    ((listing (.object fields)).map Prod.fst).Pairwise (· ≤ ·) := by
  have sorted := @List.pairwise_mergeSort (Nat × Value) (fun left right => left.1 ≤ right.1)
    (by simpa using fun _ _ _ => Nat.le_trans) (by simpa using fun _ _ => Nat.le_total _ _)
    (readings fields)
  rw [List.pairwise_map]
  exact sorted.imp fun le => of_decide_eq_true le

example : (listing (.object [("@0", .null), ("@1", .null), ("@10", .null), ("@2", .null)])).map
    Prod.fst = [0, 1, 2, 10] := by
  cbv

/-- In ordered fields each field is what is looked up under its name. -/
theorem mem_iff_lookup (ascending : Fields.Ascending fields) :
    (name, part) ∈ fields ↔ fields.lookup name = some part :=
  @NameMap.mem_fields_iff _ ⟨fields, ascending⟩ name part

/-- No number is listed twice when names are read as their positions. -/
theorem nodup_listing (ascending : Fields.Ascending fields)
    (plain : PlainlyNumbered (.object fields)) :
    ((listing (.object fields)).map Prod.fst).Nodup := by
  rw [((listing_perm fields).map Prod.fst).nodup_iff, map_fst_readings, List.Nodup,
    List.pairwise_filterMap]
  refine ascending.imp_of_mem ?_
  intro left right first second less position read other again same
  subst same
  rw [(plain left.1 left.2 first position).mp read,
    (plain right.1 right.2 second position).mp again] at less
  exact String.lt_irrefl _ less

/-- Two fields that are read as one number are one field, when no number is listed twice. -/
theorem name_unique (distinct : ((listing (.object fields)).map Prod.fst).Nodup)
    {other : String} {twin : Value} (member : (name, part) ∈ fields)
    (inside : (other, twin) ∈ fields) (read : position? name = some position)
    (again : position? other = some position) : name = other := by
  rw [((listing_perm fields).map Prod.fst).nodup_iff, map_fst_readings, List.Nodup,
    List.pairwise_filterMap] at distinct
  have symmetric : Std.Symm fun left right : String × Value => ∀ number,
      position? left.1 = some number → ∀ numberToo, position? right.1 = some numberToo →
        number ≠ numberToo :=
    ⟨fun _ _ apart number here numberToo there same => apart numberToo there number here same.symm⟩
  by_contra different
  have fieldsDiffer : (name, part) ≠ (other, twin) := fun same => different (Prod.mk.inj same).1
  exact distinct.forall member inside fieldsDiffer position read position again rfl

/-- Objects are decomposed into their parts at positions exactly when names are read as their
positions. -/
theorem partsAt_listing_iff (ordered : value.Ordered) :
    PartsAt value ((listing value).map Prod.fst) ↔ PlainlyNumbered value := by
  cases value with
  | object fields =>
    have ascending : Fields.Ascending fields := ordered.1
    constructor
    · intro partsAt name part member position
      constructor
      · intro read
        obtain ⟨twin, field⟩ := (partsAt.mem_iff position).mp
          (mem_map_fst_listing.mpr ⟨name, part, member, read⟩)
        have distinct := partsAt.ascending.imp fun less => Nat.ne_of_lt less
        exact name_unique distinct member ((mem_iff_lookup ascending).mpr field) read
          (position?_positionName (lt_of_position? read))
      · rintro rfl
        have listed : position ∈ (listing (.object fields)).map Prod.fst :=
          (partsAt.mem_iff position).mpr ⟨part, (mem_iff_lookup ascending).mp member⟩
        obtain ⟨other, -, -, read⟩ := mem_map_fst_listing.mp listed
        exact position?_positionName (lt_of_position? read)
    · intro plain
      refine ⟨?_, fun position => ?_⟩
      · exact ((pairwise_listing fields).and (nodup_listing ascending plain)).imp
          fun both => Nat.lt_of_le_of_ne both.1 both.2
      · rw [mem_map_fst_listing]
        constructor
        · rintro ⟨name, part, member, read⟩
          rw [(plain name part member position).mp read] at member
          exact ⟨part, (mem_iff_lookup ascending).mp member⟩
        · rintro ⟨part, field⟩
          have member := (mem_iff_lookup ascending).mpr field
          exact ⟨_, part, member, (plain _ part member position).mpr rfl⟩
  | array items =>
    have positions : (listing (.array items)).map Prod.fst = List.range items.length := by
      rw [listing, List.map_map, List.range_eq_range']
      exact List.zipIdx_map_snd 0 items
    refine iff_of_true ⟨?_, fun position => ?_⟩ trivial
    · rw [positions]
      exact List.pairwise_lt_range
    · rw [positions, List.mem_range]
      rfl
  | _ => exact iff_of_true ⟨.nil, fun _ => iff_of_false List.not_mem_nil id⟩ trivial

/-- Whether names are read as their positions is the same for values that are the same. -/
theorem plainlyNumbered_unified (value : Value) :
    PlainlyNumbered value.unified ↔ PlainlyNumbered value := by
  cases value with
  | object fields =>
    rw [Value.unified, PlainlyNumbered, PlainlyNumbered, Value.unifiedFields_eq_map]
    simp only [List.mem_map, Prod.exists, Prod.mk.injEq]
    constructor
    · intro plain name part member
      exact plain name part.unified ⟨name, part, member, rfl, rfl⟩
    · rintro plain _ _ ⟨name, part, member, rfl, rfl⟩
      exact plain name part member
  | _ => exact iff_of_true trivial trivial

/-! ## Decomposing and projecting -/

/-- Projecting to the position of a listed part gives the part, when names are read as their
positions. -/
theorem project_of_mem_listing (looked : space.lookup name key = .ok entry)
    (ordered : entry.value.Ordered)
    (small : ∀ items, entry.value = .array items → items.length ≤ UInt64.size)
    (plain : PlainlyNumbered entry.value) (listed : (position, part) ∈ listing entry.value) :
    space.project name key (positionName position) = .ok part := by
  obtain ⟨_, value, _, _⟩ := entry
  dsimp only at ordered small plain listed
  rw [project, looked]
  cases value with
  | object fields =>
    obtain ⟨name, member, read⟩ := mem_readings_iff.mp ((listing_perm fields).mem_iff.mp listed)
    rw [(plain name part member position).mp read] at member
    simp [bind, Except.bind, (mem_iff_lookup ordered.1).mp member, Value.ofOption]
  | array items =>
    obtain ⟨⟨item, index⟩, member, same⟩ := List.mem_map.mp listed
    obtain ⟨rfl, rfl⟩ := Prod.mk.inj same
    have here : items[index]? = some item := List.mem_zipIdx_iff_getElem?.mp member
    have inside : index < items.length := (List.getElem?_eq_some_iff.mp here).1
    have read := position?_positionName (Nat.lt_of_lt_of_le inside (small items rfl))
    simp [bind, Except.bind, read, here, Value.ofOption]
  | _ => cases listed

/-- Decomposing what a key stands for stores the listed parts. -/
theorem decompose_eq_listing [Hashing] (looked : space.lookup name key = .ok entry)
    (decomposed : (space.decompose name key).1 = .ok handles) :
    space.decompose name key =
      space.collapseAll name entry.tag ((listing entry.value).map Prod.snd) := by
  rw [decompose, looked] at decomposed ⊢
  dsimp only at decomposed ⊢
  cases found : parts entry.value with
  | error fault =>
    rw [found] at decomposed
    cases decomposed
  | ok values => rw [eq_of_parts found]

/-- In every space that a history reaches, a key stands for an entry whose objects list each name
once, and decomposing it answers handles. Among the parts and what the table stores different values
have different fingerprints, and arrays have no more items than memory can hold. Then the handles
resolve to the listed parts. The numbers of the listed parts are the positions at which the content
has parts exactly when the names of its fields are read as their positions, and as nothing else. In
that case the handles resolve, in order, to what the key is projected to at these positions. Where
the table itself binds the key, projecting gives the same before and after. -/
theorem decompose_agrees_with_project [Hashing] (configuration : SpaceConfiguration)
    (history : List Operation) (name key : String) (table : Table) (entry : Entry)
    (handles : List Handle) :
    let space := (ofConfiguration configuration).runAll history
    let after := (space.decompose name key).2
    space.table name = .ok table → space.lookup name key = .ok entry → entry.value.Ordered →
    (∀ items, entry.value = .array items → items.length ≤ UInt64.size) →
    Fingerprint.Separates (table.contents ++ (listing entry.value).map Prod.snd) →
    (space.decompose name key).1 = .ok handles →
      ∃ contents, after.resolveAll name (handles.map Handle.text) = .ok contents ∧
        List.Forall₂ (fun content part => (content == part) = true) contents
          ((listing entry.value).map Prod.snd) ∧
        (PartsAt entry.value ((listing entry.value).map Prod.fst) ↔
          PlainlyNumbered entry.value) ∧
        (PlainlyNumbered entry.value → List.Forall₂
          (fun content position => ∃ part,
            space.project name key (positionName position) = .ok part ∧ (content == part) = true)
          contents ((listing entry.value).map Prod.fst)) ∧
        (table.contains key = true → ∀ field,
          after.project name key field = space.project name key field) := by
  intro space after known looked ordered small separates decomposed
  have reached : space.TablesReached := tablesReached_runAll configuration history
  have found := get?_of_table known
  have stored := decompose_eq_listing looked decomposed
  rw [stored] at decomposed
  obtain ⟨final, bound, adds, indexed⟩ := reached.adds_collapseAll found decomposed
  rw [← stored] at bound
  have consistent : final.Consistent :=
    (reached.moves (space.moves_decompose name key)).consistent bound
  obtain ⟨contents, resolved, same⟩ := resolveAll_of_indexes bound consistent separates
    adds.contents (List.subset_append_right ..) indexed
  refine ⟨contents, resolved, same, partsAt_listing_iff ordered, fun plain => ?_, ?_⟩
  · rw [List.forall₂_map_right_iff, List.forall₂_iff_zip] at same ⊢
    refine ⟨same.1, fun {content numbered} pair => ⟨numbered.2, ?_, same.2 pair⟩⟩
    exact project_of_mem_listing looked ordered small plain (List.of_mem_zip pair).2
  · intro binds field
    obtain ⟨live, here⟩ := Option.isSome_iff_exists.mp binds
    rw [project, project, lookup_of_get? found here, lookup_of_get? bound (adds.bound here)]

/-- In a scope an object of the enclosing table is decomposed. Only the field with the name of a
position is a part, a number alone is none, and its value is stored already with another tag. -/
theorem decompose_agrees_with_project_in_scope :
    let value : Value := .object [("12", .int 1), ("@12", .int 19), ("x", .int 5)]
    let space := (ofConfiguration { digestLength := 1 }).runAll
      [.createTable "t", .collapse "t" "v" value, .openScope "t" "s",
        .collapse "s" "w" (.int 19)]
    let after := (space.decompose "s" "v:e").2
    (space.decompose "s" "v:e").1 = .ok [⟨"w:9"⟩] ∧
      ∃ contents, after.resolveAll "s" ["w:9"] = .ok contents ∧
        List.Forall₂ (fun content position => ∃ part,
          space.project "s" "v:e" (positionName position) = .ok part ∧ (content == part) = true)
          contents [12] := by
  intro value space after
  have plain : PlainlyNumbered value := by
    intro name part member position
    have names : position? name = none ∧ name.toList.head? ≠ some '@' ∨
        name = positionName 12 := by
      have all : ∀ field ∈ [("12", Value.int 1), ("@12", .int 19), ("x", .int 5)],
          position? field.1 = none ∧ field.1.toList.head? ≠ some '@' ∨
            field.1 = positionName 12 := by
        decide +kernel
      exact all (name, part) member
    rcases names with ⟨unread, first⟩ | rfl
    · rw [unread]
      refine iff_of_false nofun ?_
      rintro rfl
      simp [positionName] at first
    · rw [position?_positionName (by decide), positionName_inj, Option.some.injEq]
  have evaluated : ((space.tables.get? "s").bind fun table =>
      (space.lookup "s" "v:e").toOption.map fun entry =>
        (entry.value == value, (listing entry.value).map Prod.fst,
          decide (Fingerprint.Separates
            (table.contents ++ (listing entry.value).map Prod.snd)))) =
      some (true, [12], true) := by
    decide +kernel
  obtain ⟨table, found, both⟩ := Option.bind_eq_some_iff.mp evaluated
  obtain ⟨entry, looked, facts⟩ := Option.map_eq_some_iff.mp both
  obtain ⟨same, rest⟩ := Prod.mk.inj facts
  obtain ⟨positions, separates⟩ := Prod.mk.inj rest
  have known : space.table "s" = .ok table := by rw [Space.table, found]
  have looked : space.lookup "s" "v:e" = .ok entry := by
    cases answer : space.lookup "s" "v:e" with
    | error fault =>
      rw [answer] at looked
      cases looked
    | ok other =>
      rw [answer] at looked
      rw [Option.some.inj looked]
  rw [Value.beq_iff] at same
  have ordered : entry.value.Ordered := by
    rw [← Value.ordered_unified, same, Value.ordered_unified]
    exact ⟨by decide, trivial, trivial, trivial, trivial⟩
  have object : ∀ items, entry.value = .array items → items.length ≤ UInt64.size := by
    intro items array
    rw [array] at same
    cases same
  have numbered : PlainlyNumbered entry.value := by
    rw [← plainlyNumbered_unified, same, plainlyNumbered_unified]
    exact plain
  have decomposed : (space.decompose "s" "v:e").1 = .ok [⟨"w:9"⟩] := by decide +kernel
  obtain ⟨contents, resolved, -, -, projected, -⟩ := decompose_agrees_with_project
    { digestLength := 1 } [.createTable "t", .collapse "t" "v" value, .openScope "t" "s",
      .collapse "s" "w" (.int 19)] "s" "v:e" table entry [⟨"w:9"⟩] known looked ordered object
    (of_decide_eq_true separates) decomposed
  rw [positions] at projected
  exact ⟨decomposed, contents, resolved, projected numbered⟩

/-- An object has no field with the name of a position, and projecting it to position zero gives
null. But it has a name that is read as zero with a plus sign, and decomposing it answers a handle
that stands for the value of this field. -/
theorem decompose_lists_signed_name :
    let value : Value := .object [("@+0", .int 1)]
    let space := (ofConfiguration { digestLength := 1 }).runAll
      [.createTable "t", .collapse "t" "v" value]
    PartsAt value [] ∧ (space.project "t" "v:0" (positionName 0)).map Value.isNull = .ok true ∧
      (space.decompose "t" "v:0").1 = .ok [⟨"v:d"⟩] ∧
      ((space.decompose "t" "v:0").2.resolve "t" "v:d").map (· == .int 1) = .ok true := by
  intro value space
  refine ⟨⟨.nil, fun position => iff_of_false List.not_mem_nil ?_⟩, ?_⟩
  · rintro ⟨part, found⟩
    rw [Fields.lookup_cons] at found
    split at found
    next same =>
      -- The name of a position has a digit after the at sign.
      have digits : Numeral.digits position = ['+', '0'] :=
        (List.cons.inj (String.ofList_injective same)).2
      have digital : ('+').isDigit = true :=
        Numeral.isDigit_of_mem_digits (by rw [digits]; exact List.mem_cons_self)
      cases digital
    · cases found
  · decide +kernel

end Space

end ContentSpace

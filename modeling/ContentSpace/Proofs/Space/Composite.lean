import ContentSpace.Proofs.Space.Batch
import ContentSpace.Proofs.Space.Position

/-!
# Composing and decomposing

Composing stores one object whose numbered fields are what the keys stand for. Decomposing it stores
these contents again. A table that binds the keys itself lists the contents already, so decomposing
answers the handles that the keys name and changes nothing. What is found further outward is stored
in the table itself, and the new handles stand for the same contents.
-/

namespace ContentSpace

/-- A list of contents that are the same as indexed ones is indexed under the same handles. -/
theorem Table.indexes_of_beq [Hashing] {table : Table} {values contents : List Value}
    {handles : List Handle}
    (same : List.Forall₂ (fun value content => (value == content) = true) values contents)
    (indexed : List.Forall₂ table.Indexes contents handles) :
    List.Forall₂ table.Indexes values handles := by
  induction same generalizing handles with
  | nil => exact indexed
  | cons first _ ih =>
    cases indexed with
    | cons listed others =>
      refine .cons ?_ (ih others)
      rw [Table.Indexes, Fingerprint.of_eq_of_beq first]
      exact listed

namespace Space

variable {space : Space} {name key tag : String} {table : Table} {entry : Entry}
  {keys : List String} {contents values : List Value} {handle : Handle}
  {fields : List (String × Value)}

/-- Composing stores the composite of what the keys stand for. -/
theorem compose_eq [Hashing] (resolved : space.resolveAll name keys = .ok contents) :
    space.compose name tag keys = space.collapse name tag (composite contents) := by
  rw [compose, resolved]
  rfl

/-- Decomposing an object stores its parts with the tag of the object. -/
theorem decompose_eq [Hashing] (looked : space.lookup name key = .ok entry)
    (object : entry.value = .object fields) :
    space.decompose name key = space.collapseAll name entry.tag (numberedParts fields) := by
  rw [decompose, looked]
  simp only [object, parts]

/-- Projecting an object looks a field up. -/
theorem project_eq (looked : space.lookup name key = .ok entry)
    (object : entry.value = .object fields) (field : String) :
    space.project name key field = .ok (.ofOption (fields.lookup field)) := by
  rw [project, looked]
  simp only [bind, Except.bind, object]

/-- What keys stand for the space stores. -/
theorem TablesReached.subset_of_resolveAll [Hashing] (reached : space.TablesReached)
    (resolved : space.resolveAll name keys = .ok contents) : contents ⊆ space.contents := by
  rw [resolveAll_eq_ok_iff] at resolved
  induction resolved with
  | nil => exact List.nil_subset _
  | @cons key content _ _ first _ ih =>
    rw [resolve] at first
    cases looked : space.lookup name key with
    | error fault =>
      rw [looked] at first
      cases first
    | ok entry =>
      rw [looked] at first
      cases first
      exact List.cons_subset.mpr ⟨(reached.sound_of_lookup looked).2, ih⟩

/-- Each of the keys stands for the content at its position. -/
theorem resolve_at (resolved : space.resolveAll name keys = .ok contents) {position : Nat}
    (here : keys[position]? = some key) :
    ∃ content, contents[position]? = some content ∧ space.resolve name key = .ok content := by
  rw [resolveAll_eq_ok_iff] at resolved
  obtain ⟨below, rfl⟩ := List.getElem?_eq_some_iff.mp here
  have inside : position < contents.length := by rwa [← resolved.length_eq]
  exact ⟨contents[position], List.getElem?_eq_getElem inside, resolved.get below inside⟩

/-- What keys of a table itself stand for is listed under the handles that the keys name. -/
theorem indexes_of_keys [Hashing] (found : space.tables.get? name = some table)
    (consistent : table.Consistent) (bound : ∀ key ∈ keys, table.contains key = true)
    (resolved : space.resolveAll name keys = .ok contents) :
    ∃ handles, keys.map (fun key => (table.get? key).map Entry.handle) = handles.map some ∧
      List.Forall₂ table.Indexes contents handles := by
  rw [resolveAll_eq_ok_iff] at resolved
  induction resolved with
  | nil => exact ⟨[], rfl, .nil⟩
  | @cons key content _ _ first _ ih =>
    obtain ⟨here, others⟩ := List.forall_mem_cons.mp bound
    obtain ⟨entry, live⟩ := Option.isSome_iff_exists.mp here
    obtain ⟨handles, named, indexed⟩ := ih others
    rw [resolve, lookup_of_get? found live] at first
    cases first
    refine ⟨entry.handle :: handles, ?_, .cons ?_ indexed⟩
    · rw [List.map_cons, live, named, List.map_cons, Option.map_some]
    · exact consistent.indexes_of_get? live ((Value.beq_iff _ _).mpr rfl)

/-- A key of a table stands for an object that is the same as a composite. -/
structure Composed (table : Table) (key : String) (contents : List Value) (entry : Entry)
    (fields : List (String × Value)) : Prop where
  /-- The key stands for the entry. -/
  live : table.get? key = some entry
  /-- The entry stores an object. -/
  object : entry.value = .object fields
  /-- The parts of the object are the same as the contents. -/
  parts : contents.length ≤ UInt64.size →
    List.Forall₂ (fun part content => (part == content) = true) (numberedParts fields) contents
  /-- The fields of positions are the same as the contents there. -/
  lookup : ∀ position, (fields.lookup (positionName position)).map Value.unified =
    contents[position]?.map Value.unified

/-- The handle under which a composite is listed stands for an object that is the same. -/
theorem exists_composed [Hashing] {base : List Value} (consistent : table.Consistent)
    (separates : Fingerprint.Separates base) (stored : table.contents ⊆ base)
    (member : composite contents ∈ base) (indexed : table.Indexes (composite contents) handle) :
    ∃ entry fields, Composed table handle.text contents entry fields := by
  obtain ⟨entry, live, same⟩ := consistent.beq_of_indexes separates stored member indexed
  obtain ⟨fields, object, parts, lookup⟩ := exists_of_beq_composite same
  exact ⟨entry, fields, live, object, parts, lookup⟩

namespace Composed

/-- Projecting to a position gives what is the same as the content there. -/
theorem project_content (composed : Composed table key contents entry fields)
    (found : space.tables.get? name = some table) {position : Nat} {content : Value}
    (here : contents[position]? = some content) :
    ∃ value, space.project name key (positionName position) = .ok value ∧
      (value == content) = true := by
  have same := composed.lookup position
  rw [here, Option.map_some, Option.map_eq_some_iff] at same
  obtain ⟨value, field, same⟩ := same
  refine ⟨value, ?_, (Value.beq_iff _ _).mpr same⟩
  rw [project_eq (lookup_of_get? found composed.live) composed.object, field]
  rfl

/-- Projecting to a position that no content has gives null. -/
theorem project_beyond (composed : Composed table key contents entry fields)
    (found : space.tables.get? name = some table) {position : Nat}
    (beyond : contents.length ≤ position) :
    space.project name key (positionName position) = .ok .null := by
  have none := composed.lookup position
  rw [List.getElem?_eq_none beyond, Option.map_none, Option.map_eq_none_iff] at none
  rw [project_eq (lookup_of_get? found composed.live) composed.object, none]
  rfl

/-- Decomposing listed contents answers their handles and changes nothing. -/
theorem decompose_indexed [Hashing] (composed : Composed table key contents entry fields)
    (found : space.tables.get? name = some table) (small : contents.length ≤ UInt64.size)
    {handles : List Handle} (indexed : List.Forall₂ table.Indexes contents handles) :
    space.decompose name key = (.ok handles, space) := by
  rw [decompose_eq (lookup_of_get? found composed.live) composed.object]
  exact collapseAll_of_indexes found (Table.indexes_of_beq (composed.parts small) indexed)

/-- When decomposing answers handles, they stand for the contents. -/
theorem resolve_decomposed [Hashing] (composed : Composed table key contents entry fields)
    (reached : space.TablesReached) (found : space.tables.get? name = some table)
    (small : contents.length ≤ UInt64.size) {base : List Value}
    (separates : Fingerprint.Separates base) (stored : table.contents ⊆ base)
    (member : contents ⊆ base) {handles : List Handle}
    (answered : (space.decompose name key).1 = .ok handles) :
    ∃ again, (space.decompose name key).2.resolveAll name (handles.map Handle.text) = .ok again ∧
      List.Forall₂ (fun again content => (again == content) = true) again contents := by
  have parts := composed.parts small
  rw [decompose_eq (lookup_of_get? found composed.live) composed.object] at answered ⊢
  obtain ⟨after, bound, adds, indexed⟩ := reached.adds_collapseAll found answered
  have consistent : after.Consistent :=
    (reached.moves (space.moves_collapseAll ..)).consistent bound
  -- The parts differ from the contents at most in their words for no number.
  have separated : Fingerprint.Separates (base ++ numberedParts fields) := by
    apply separates.of_beq
    intro value inside
    rcases List.mem_append.mp inside with old | part
    · exact ⟨value, old, (Value.beq_iff _ _).mpr rfl⟩
    · obtain ⟨content, pair, same⟩ := Value.exists_beq_of_mem parts part
      exact ⟨content, member pair, same⟩
  have kept : after.contents ⊆ base ++ numberedParts fields := by
    intro value inside
    exact List.mem_append.mpr ((List.mem_append.mp (adds.contents inside)).imp_left (@stored value))
  obtain ⟨again, resolved, same⟩ := resolveAll_of_indexes bound consistent separated kept
    (List.subset_append_right ..) indexed
  refine ⟨again, resolved, ?_⟩
  rw [Value.forall₂_beq_iff] at parts same ⊢
  rw [same, parts]

end Composed

/-- After composing the table keeps everything and stores at most the composite, and the handle
stands for it. -/
theorem TablesReached.composed [Hashing] (reached : space.TablesReached)
    (found : space.tables.get? name = some table)
    (resolved : space.resolveAll name keys = .ok contents)
    (separates : Fingerprint.Separates (composite contents :: space.contents))
    (stored : (space.compose name tag keys).1 = .ok handle) :
    ∃ after entry fields, (space.compose name tag keys).2.tables.get? name = some after ∧
      table.Adds [composite contents] after ∧
      after.contents ⊆ composite contents :: space.contents ∧
      Composed after handle.text contents entry fields := by
  have moved := reached.moves (space.moves_compose name tag keys)
  rw [compose_eq resolved] at stored moved ⊢
  obtain ⟨after, bound, adds, indexed⟩ := reached.adds_collapse found stored
  have kept : after.contents ⊆ composite contents :: space.contents := by
    intro value member
    rcases List.mem_append.mp (adds.contents member) with old | new
    · exact List.mem_cons_of_mem _ (contents_subset found old)
    · rw [List.mem_singleton.mp new]
      exact List.mem_cons_self
  obtain ⟨entry, fields, whole⟩ :=
    exists_composed (moved.consistent bound) separates kept List.mem_cons_self indexed
  exact ⟨after, entry, fields, bound, adds, kept, whole⟩

/-- In every space that a history reaches, keys of a table stand for contents, and these are
composed under a handle. Among the composite and what the space stores different values have
different fingerprints, and every key has a position below two to the 64th, as in every list that
memory holds. If the table itself binds all keys, then decomposing the handle answers the live
handles that the keys name, in their order, and changes nothing in the space; projecting it to a
position gives what the key at the position stands for, and null where there is no key. In any case,
when decomposing answers handles, there is one for each key, and they stand for the contents. -/
theorem decompose_after_compose [Hashing] (configuration : SpaceConfiguration)
    (history : List Operation) (name tag : String) (table : Table) (keys : List String)
    (contents : List Value) (handle : Handle) :
    let space := (ofConfiguration configuration).runAll history
    let composed := (space.compose name tag keys).2
    let decomposed := composed.decompose name handle.text
    space.table name = .ok table → keys.length ≤ UInt64.size →
    space.resolveAll name keys = .ok contents →
    Fingerprint.Separates (composite contents :: space.contents) →
    (space.compose name tag keys).1 = .ok handle →
      ((∀ key ∈ keys, table.contains key = true) →
        (∃ handles, keys.map (fun key => (table.get? key).map Entry.handle) = handles.map some ∧
          decomposed = (.ok handles, composed)) ∧
        (∀ position key, keys[position]? = some key → ∃ value content,
          composed.project name handle.text (positionName position) = .ok value ∧
          composed.resolve name key = .ok content ∧ (value == content) = true) ∧
        ∀ position, keys.length ≤ position →
          composed.project name handle.text (positionName position) = .ok .null) ∧
      ∀ handles, decomposed.1 = .ok handles → handles.length = keys.length ∧
        ∃ again, decomposed.2.resolveAll name (handles.map Handle.text) = .ok again ∧
          List.Forall₂ (fun again content => (again == content) = true) again contents := by
  intro space composed decomposed known small resolved separates stored
  have reached : space.TablesReached := tablesReached_runAll configuration history
  have found := get?_of_table known
  have count : keys.length = contents.length := (resolveAll_eq_ok_iff.mp resolved).length_eq
  have room : contents.length ≤ UInt64.size := by rwa [← count]
  obtain ⟨after, entry, fields, bound, adds, kept, whole⟩ :=
    reached.composed found resolved separates stored
  refine ⟨fun binds => ⟨?_, ?_, ?_⟩, ?_⟩
  · obtain ⟨handles, named, listed⟩ :=
      indexes_of_keys found (reached.consistent found) binds resolved
    have still : List.Forall₂ after.Indexes contents handles :=
      listed.imp fun _ _ here => adds.index here
    exact ⟨handles, named, whole.decompose_indexed bound room still⟩
  · intro position key here
    obtain ⟨content, there, resolves⟩ := resolve_at resolved here
    obtain ⟨value, projected, equal⟩ := whole.project_content bound there
    obtain ⟨source, live⟩ := Option.isSome_iff_exists.mp (binds key (List.mem_of_getElem? here))
    have again : composed.resolve name key = space.resolve name key := by
      rw [resolve, resolve, lookup_of_get? found live, lookup_of_get? bound (adds.bound live)]
    exact ⟨value, content, projected, again.trans resolves, equal⟩
  · exact fun position beyond => whole.project_beyond bound (count ▸ beyond)
  · intro handles answered
    have moved : composed.TablesReached := reached.moves (space.moves_compose name tag keys)
    have member : contents ⊆ composite contents :: space.contents :=
      List.subset_cons_of_subset _ (reached.subset_of_resolveAll resolved)
    obtain ⟨again, resolves, equal⟩ :=
      whole.resolve_decomposed moved bound room separates kept member answered
    have length : handles.length = again.length := by
      simpa using (resolveAll_eq_ok_iff.mp resolves).length_eq
    exact ⟨by rw [length, equal.length_eq, count], again, resolves, equal⟩

/-- Twelve keys, among them an alias and repeated ones, are composed. The object lists the fields of
the positions ten and eleven before that of position two, but decomposing answers the handles in the
order of the keys. -/
theorem decompose_after_compose_twelve_keys :
    let space := (ofConfiguration { digestLength := 1 }).runAll
      [.createTable "t", .collapse "t" "v" (.int 3), .collapse "t" "v" (.int 1),
        .addAlias "t" "three" "v:9"]
    let keys := ["three", "v:d"] ++ List.replicate 9 "v:9" ++ ["v:d"]
    let handles : List Handle := [⟨"v:9"⟩, ⟨"v:d"⟩] ++ List.replicate 9 ⟨"v:9"⟩ ++ [⟨"v:d"⟩]
    let composed := (space.compose "t" "w" keys).2
    (space.compose "t" "w" keys).1 = .ok ⟨"w:7"⟩ ∧
      composed.decompose "t" "w:7" = (.ok handles, composed) ∧
      composed.project "t" "w:7" (positionName 12) = .ok .null := by
  intro space keys handles composed
  have names : (space.tables.get? "t").map
      (fun table => (keys.map (fun key => (table.get? key).map Entry.handle),
        keys.all table.contains)) = some (handles.map some, true) := by
    decide +kernel
  obtain ⟨table, found, both⟩ := Option.map_eq_some_iff.mp names
  obtain ⟨named, binds⟩ := Prod.mk.inj both
  rw [List.all_eq_true] at binds
  have known : space.table "t" = .ok table := by rw [Space.table, found]
  have different : (space.resolveAll "t" keys).toOption.map
      (fun contents => decide (Fingerprint.Separates (composite contents :: space.contents))) =
      some true := by
    decide +kernel
  have stored : (space.compose "t" "w" keys).1 = .ok ⟨"w:7"⟩ := by decide +kernel
  cases resolved : space.resolveAll "t" keys with
  | error fault =>
    rw [resolved] at different
    cases different
  | ok contents =>
    rw [resolved] at different
    have separates := of_decide_eq_true (Option.some.inj different)
    obtain ⟨bound, -⟩ := decompose_after_compose { digestLength := 1 }
      [.createTable "t", .collapse "t" "v" (.int 3), .collapse "t" "v" (.int 1),
        .addAlias "t" "three" "v:9"] "t" "w" table keys contents ⟨"w:7"⟩ known (by decide)
      resolved separates stored
    obtain ⟨⟨given, answered, decomposed⟩, -, beyond⟩ := bound binds
    rw [named] at answered
    have same := List.map_injective_iff.mpr (Option.some_injective Handle) answered
    exact ⟨stored, by rw [decomposed, same], beyond 12 (by decide)⟩

end Space

end ContentSpace

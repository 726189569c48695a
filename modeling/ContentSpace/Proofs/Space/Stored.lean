import ContentSpace.Proofs.Snapshot.Packed
import ContentSpace.Proofs.Space.Frame
import ContentSpace.Proofs.Space.Part
import ContentSpace.Proofs.Space.Snapshot

/-!
# What a space stores, and its snapshots as bytes

A table only stores what an operation gives it. A property of values therefore holds of everything a
space stores once it holds of what is given, of composites and of parts. That every object lists its
fields in order is such a property, and with it a snapshot of any reached space is read back from
its bytes, whichever library writes them.
-/

namespace ContentSpace

/-! ## Ordered values -/

namespace Value

variable {value part : Value} {values : List Value}

/-- An object made of pairs with ordered values is ordered. -/
theorem ordered_ofPairs {pairs : List (String × Value)}
    (ordered : ∀ pair ∈ pairs, pair.2.Ordered) : (ofPairs pairs).Ordered := by
  rw [ofPairs, Ordered, orderedFields_iff]
  refine ⟨Fields.ascending_ofPairs pairs, ?_⟩
  intro field member
  exact ordered field (Fields.mem_of_mem_ofPairs member)

/-- The parts of an ordered value are ordered. -/
theorem ordered_of_parts (ordered : value.Ordered) (found : Space.parts value = .ok values)
    (member : part ∈ values) : part.Ordered := by
  cases value with
  | array items =>
    rw [Space.parts, Except.ok.injEq] at found
    rw [Ordered, orderedItems_iff] at ordered
    exact ordered part (found ▸ member)
  | object fields =>
    rw [Ordered, orderedFields_iff] at ordered
    rw [Space.eq_of_parts found, List.mem_map] at member
    obtain ⟨⟨position, item⟩, listed, rfl⟩ := member
    have read := (Space.listing_perm fields).mem_iff.mp listed
    obtain ⟨name, field, -⟩ := Space.mem_readings_iff.mp read
    exact ordered.2 (name, item) field
  | _ => cases found

end Value

/-! ## What tables store -/

namespace Table

variable {table after : Table} {operation : Operation} {answer : Except Fault Answer}
  {value : Value}

/-- The values that an operation stores, if they are new. -/
def Operation.stored : Operation → List Value
  | .collapse _ value _ => [value]
  | _ => []

/-- What a table stores after an operation it stored before, or the operation stores it. -/
theorem mem_contents_of_effect [Hashing] (effect : Effect table operation answer after)
    (member : value ∈ after.contents) : value ∈ table.contents ∨ value ∈ operation.stored := by
  cases effect with
  | stored =>
    obtain ⟨key, entry, live, rfl⟩ := mem_contents_iff.mp member
    rcases NameMap.get?_insert_eq_some_iff.mp live with ⟨-, rfl⟩ | ⟨-, old⟩
    · exact .inr (List.mem_singleton_self _)
    · exact .inl (mem_contents_iff.mpr ⟨key, entry, old, rfl⟩)
  | deleted =>
    obtain ⟨key, entry, live, rfl⟩ := mem_contents_iff.mp member
    exact .inl (mem_contents_iff.mpr ⟨key, entry, (NameMap.get?_erase_eq_some_iff.mp live).2, rfl⟩)
  | cleared => cases member
  | refused | known | forgotten | named | unnamed | watched | listened | unwatched =>
    exact .inl member

end Table

/-! ## What spaces store -/

namespace Space

variable {α β : Type} {space after : Space} {holds : Value → Prop} {name : String}

/-- Everything that a space stores has a property. -/
def AllContents (space : Space) (holds : Value → Prop) : Prop :=
  ∀ value ∈ space.contents, holds value

namespace AllContents

/-- A space with the same tables stores the same. -/
theorem congr (all : space.AllContents holds) (same : after.tables = space.tables) :
    after.AllContents holds := by
  rwa [AllContents, contents, same]

/-- What a table of the space stores has the property. -/
theorem of_table (all : space.AllContents holds) {table : Table}
    (found : space.tables.get? name = some table) : ∀ value ∈ table.contents, holds value :=
  fun value member => all value (contents_subset found member)

/-- Exchanging or adding a table whose contents have the property keeps it. -/
theorem insert (all : space.AllContents holds) {table : Table}
    (inside : ∀ value ∈ table.contents, holds value)
    (exchanged : after.tables = space.tables.insert name table) : after.AllContents holds := by
  intro value member
  obtain ⟨owner, present, stored⟩ := List.mem_flatMap.mp member
  obtain ⟨other, bound⟩ := NameMap.mem_values_iff.mp present
  rw [exchanged] at bound
  rcases NameMap.get?_insert_eq_some_iff.mp bound with ⟨-, rfl⟩ | ⟨-, old⟩
  · exact inside value stored
  · exact all.of_table old value stored

/-- Discarding a table keeps the property. -/
theorem erase (all : space.AllContents holds) (erased : after.tables = space.tables.erase name) :
    after.AllContents holds := by
  intro value member
  obtain ⟨owner, present, stored⟩ := List.mem_flatMap.mp member
  obtain ⟨other, bound⟩ := NameMap.mem_values_iff.mp present
  rw [erased] at bound
  exact all.of_table (NameMap.get?_erase_eq_some_iff.mp bound).2 value stored

/-- An action of a table keeps the property when what it stores has it. The action is given with the
operation that it is and with the form of its answers. -/
theorem onTable [Hashing] (all : space.AllContents holds) {act : Table → Except Fault (α × Table)}
    (operation : Table.Operation) (answer : α → Table.Answer)
    (runs : ∀ table, table.run operation = Table.run.settle table answer (act table))
    (new : ∀ value ∈ operation.stored, holds value) :
    (space.onTable name act).2.AllContents holds := by
  rcases space.onTable_cases name act with
    ⟨fault, refused⟩ | ⟨table, result, other, found, acted, done⟩
  · rw [refused]
    exact all
  · have ran : (table.run operation).2 = other := by rw [runs, acted, Table.run.settle]
    rw [done]
    apply all.insert _ rfl
    intro value member
    rw [← ran] at member
    rcases Table.mem_contents_of_effect (table.run_effect operation) member with old | given
    · exact all.of_table found value old
    · exact new value given

/-- A record keeps the property. -/
theorem recorded {outcome : Except Fault α × Space} (all : outcome.2.AllContents holds)
    (answer : α → β) {record : α → Space → Space}
    (keeps : ∀ result after, (record result after).tables = after.tables) :
    (recorded outcome answer record).2.AllContents holds :=
  all.congr (tables_recorded outcome answer keeps)

/-- Storing a value that has the property keeps it. -/
theorem collapse [Hashing] (all : space.AllContents holds) (tag : String) {value : Value}
    (new : holds value) : (space.collapse name tag value).2.AllContents holds := by
  have keeps (collapsed : Collapsed) (after : Space) :
      (if collapsed.created then after.record name collapsed.handle .created
        else after).tables = after.tables := by
    split
    · exact tables_record ..
    · rfl
  have stored : (space.onTable name
      (·.collapse tag value space.configuration.effectiveLength)).2.AllContents holds :=
    all.onTable (.collapse tag value space.configuration.effectiveLength) .collapsed
      (fun _ => rfl) (List.forall_mem_singleton.mpr new)
  rw [collapse_eq]
  exact stored.recorded _ keeps

/-- Storing values that have the property keeps it. -/
theorem collapseAll [Hashing] (all : space.AllContents holds) (tag : String) {values : List Value}
    (new : ∀ value ∈ values, holds value) :
    (space.collapseAll name tag values).2.AllContents holds := by
  induction values generalizing space with
  | nil => exact all
  | cons value rest ih =>
    obtain ⟨first, later⟩ := List.forall_mem_cons.mp new
    have stored : (space.collapse name tag value).2.AllContents holds := all.collapse tag first
    rw [Space.collapseAll]
    split
    next refused => rwa [refused] at stored
    next middle done =>
      rw [done] at stored
      exact ih stored later

end AllContents

/-- The values that an operation is given to store list the fields of their objects in order. -/
def Operation.Ordered : Operation → Prop
  | .collapse _ _ value => value.Ordered
  | .collapseAll _ _ values => ∀ value ∈ values, value.Ordered
  | _ => True

/-- An operation that is given ordered values keeps everything that is stored ordered. -/
theorem AllContents.ordered_run [Hashing] (all : space.AllContents Value.Ordered)
    (reached : space.TablesReached) {operation : Operation} (given : operation.Ordered) :
    (space.run operation).2.AllContents Value.Ordered := by
  cases operation with
  | hasTable | tableNames | table | lookup | resolve | resolveAll | resolveOr | snapshot | pending
  | project | sameContent | encode | decode => exact all
  | drain => exact all.congr rfl
  | createTable name =>
    rw [run, createTable]
    split
    · exact all
    · exact all.insert (List.forall_mem_nil _) rfl
  | openScope parent child =>
    rcases space.openScope_cases parent child with ⟨fault, refused⟩ | ⟨outer, -, -, done⟩
    · rw [run, refused]
      exact all
    · rw [run, done]
      exact all.insert (List.forall_mem_nil _) rfl
  | closeScope child =>
    rcases space.closeScope_cases child with ⟨fault, refused⟩ | ⟨scope, -, -, -, done⟩
    · rw [run, refused]
      exact all
    · rw [run, done]
      exact all.erase rfl
  | collapse name tag value => exact all.collapse tag given
  | collapseAll name tag values => exact all.collapseAll tag given
  | delete name key =>
    have removed : (space.onTable name (·.delete key)).2.AllContents Value.Ordered :=
      all.onTable (.delete key) .entry (fun _ => rfl) (List.forall_mem_nil _)
    rw [run, delete_eq]
    exact removed.recorded _ fun _ _ => tables_record ..
  | clear name =>
    have removed : (space.onTable name fun table =>
        .ok (table.entries.values, table.clear.2)).2.AllContents Value.Ordered := by
      apply all.onTable .clear (fun entries => .count entries.length) _ (List.forall_mem_nil _)
      intro table
      simp [Table.run, Table.run.settle, Table.clear, Table.size, NameMap.size, NameMap.values]
    rw [run, clear_eq]
    exact removed.recorded _ fun _ _ => tables_recordAll ..
  | addAlias name label handle =>
    have aliased : (space.onTable name (·.addAlias label handle)).2.AllContents Value.Ordered :=
      all.onTable (.addAlias label handle) .handle (fun _ => rfl) (List.forall_mem_nil _)
    rw [run, addAlias_eq]
    exact aliased.recorded _ fun _ _ => tables_record ..
  | removeAlias name label =>
    have unaliased : (space.onTable name (·.removeAlias label)).2.AllContents Value.Ordered :=
      all.onTable (.removeAlias label) .handle (fun _ => rfl) (List.forall_mem_nil _)
    rw [run, removeAlias_eq]
    exact unaliased.recorded _ fun _ _ => tables_record ..
  | forgetRetired name =>
    exact all.onTable .forgetRetired .count (fun _ => rfl) (List.forall_mem_nil _)
  | watch name key =>
    exact all.onTable (.watch key) .handle (fun _ => rfl) (List.forall_mem_nil _)
  | unwatch name key =>
    exact all.onTable (.unwatch key) .flag (fun _ => rfl) (List.forall_mem_nil _)
  | onChange name key listener =>
    exact all.onTable (.onChange key listener) .handle (fun _ => rfl) (List.forall_mem_nil _)
  | promote child key =>
    rw [run]
    cases source : space.promotable child key with
    | error fault =>
      rw [promote, source]
      exact all
    | ok origin =>
      obtain ⟨parent, entry⟩ := origin
      obtain ⟨scope, found, -, bound⟩ := of_promotable source
      have content : entry.value.Ordered :=
        all.of_table found _ ((reached.consistent found).mem_contents bound)
      rw [promote_eq source]
      exact (all.collapse entry.tag content).recorded _ fun _ _ => tables_record ..
  | compose name tag keys =>
    rw [run, compose]
    cases resolved : space.resolveAll name keys with
    | error fault => exact all
    | ok contents =>
      have stored : contents ⊆ space.contents := reached.subset_of_resolveAll resolved
      apply all.collapse tag
      apply Value.ordered_ofPairs
      intro pair member
      obtain ⟨⟨content, position⟩, listed, rfl⟩ := List.mem_map.mp member
      exact all content (stored (List.fst_mem_of_mem_zipIdx listed))
  | decompose name key =>
    rw [run, decompose]
    cases looked : space.lookup name key with
    | error fault => exact all
    | ok entry =>
      have content : entry.value.Ordered := all _ (reached.sound_of_lookup looked).2
      dsimp only
      cases found : parts entry.value with
      | error fault => exact all
      | ok values =>
        exact all.collapseAll entry.tag fun part member =>
          Value.ordered_of_parts content found member

/-- A history whose operations are given ordered values stores ordered values only. -/
theorem AllContents.ordered_runAll [Hashing] (all : space.AllContents Value.Ordered)
    (reached : space.TablesReached) {history : List Operation}
    (given : ∀ operation ∈ history, operation.Ordered) :
    (space.runAll history).AllContents Value.Ordered := by
  induction history generalizing space with
  | nil => exact all
  | cons operation rest ih =>
    obtain ⟨first, later⟩ := List.forall_mem_cons.mp given
    exact ih (all.ordered_run reached first) (reached.effect (space.run_effect operation)) later

/-! ## Snapshots as bytes -/

/-- The contents in a snapshot of a table that stores ordered values are ordered. -/
theorem ordered_of_mem_capture {table : Table} {withContent : Bool} {row : SnapshotRow}
    (ordered : ∀ value ∈ table.contents, value.Ordered)
    (member : row ∈ (Snapshot.capture table withContent).rows) :
    ∀ value ∈ row.value, value.Ordered := by
  obtain ⟨entry, live, rfl⟩ := List.mem_map.mp member
  intro value listed
  cases withContent with
  | false => cases listed
  | true =>
    cases listed
    exact ordered _ (List.mem_map_of_mem live)

/-- In every space that a history of operations on ordered values reaches, a snapshot of a table,
with or without content, is written to bytes and read back from them as the same snapshot. This holds
of every library that does what is documented, for the snapshots whose texts, arrays and maps it
keeps and whose contents nest within its limit. -/
theorem snapshot_read_back [Hashing] {codec : Codec} (documented : codec.Documented)
    (configuration : SpaceConfiguration) (history : List Operation)
    (given : ∀ operation ∈ history, operation.Ordered) (name : String) (withContent : Bool) :
    let space := (ofConfiguration configuration).runAll history
    ∀ snapshot, (space.run (.snapshot name withContent)).1 = .ok (.snapshot snapshot) →
      codec.Keeps snapshot → codec.Nests snapshot →
        ∃ bytes, snapshot.toBytes codec = .ok bytes ∧
          Snapshot.ofBytes codec bytes = .ok snapshot ∧ (snapshot == snapshot) = true := by
  intro space snapshot captured kept nests
  have reached : (ofConfiguration configuration).TablesReached :=
    tablesReached_runAll configuration []
  have stored : space.AllContents Value.Ordered := by
    apply AllContents.ordered_runAll _ reached given
    intro value member
    cases member
  have ordered : ∀ row ∈ snapshot.rows, ∀ value ∈ row.value, value.Ordered := by
    rw [run] at captured
    cases known : space.table name with
    | error fault =>
      rw [known] at captured
      cases captured
    | ok table =>
      rw [known] at captured
      cases captured
      exact fun row => ordered_of_mem_capture (stored.of_table (get?_of_table known))
  have same : (snapshot == snapshot) = true := by
    rw [← Snapshot.toValue_beq]
    exact (Value.beq_iff _ _).mpr rfl
  obtain ⟨bytes, wrote, read⟩ := Codec.ofBytes_of_toBytes documented ordered kept nests
  exact ⟨bytes, wrote, read, same⟩

/-- A snapshot with a null by itself and one inside, a word for no number, integers of several
widths, and an empty object inside another one is read back from what the compact library writes. -/
theorem snapshot_read_back_nested :
    let space := (ofConfiguration { digestLength := 1 }).runAll
      [.createTable "t", .collapse "t" "v" .null,
        .collapseAll "t" "ns:w" [.ofPairs [("b", .array [.string "é", .null, .int (-129)]),
          ("a", .float ⟨0xfff0000000000001⟩), ("c", .object [("", .object [])])], .int 70000]]
    ∃ snapshot : Snapshot,
      (space.run (.snapshot "t" true)).1 = .ok (.snapshot snapshot) ∧ snapshot.size = 3 ∧
        Codec.compact.Keeps snapshot ∧ Codec.compact.Nests snapshot ∧
          ∃ bytes, snapshot.toBytes .compact = .ok bytes ∧
            Snapshot.ofBytes .compact bytes = .ok snapshot := by
  intro space
  have facts : (space.tables.get? "t").any (fun table =>
      decide ((Snapshot.capture table true).Short ∧ Codec.compact.Nests (.capture table true) ∧
        (Snapshot.capture table true).size = 3)) = true := by decide +kernel
  obtain ⟨table, found, holds⟩ := (Option.any_eq_true _ _).mp facts
  obtain ⟨short, nests, size⟩ := of_decide_eq_true holds
  have captured : (space.run (.snapshot "t" true)).1 =
      .ok (.snapshot (.capture table true)) := by
    rw [run, table_of_get? found]
    rfl
  have given : ∀ operation ∈ ([.createTable "t", .collapse "t" "v" .null,
      .collapseAll "t" "ns:w" [.ofPairs [("b", .array [.string "é", .null, .int (-129)]),
        ("a", .float ⟨0xfff0000000000001⟩), ("c", .object [("", .object [])])], .int 70000]] :
          List Operation), operation.Ordered := by
    have nested : (Value.ofPairs [("b", .array [.string "é", .null, .int (-129)]),
        ("a", .float ⟨0xfff0000000000001⟩), ("c", .object [("", .object [])])]).Ordered :=
      Value.ordered_ofPairs (by
        simp [Value.Ordered, Value.OrderedItems, Value.OrderedFields, Fields.Ascending])
    simp [Operation.Ordered, nested, Value.Ordered]
  have kept : Codec.compact.Keeps (.capture table true) := Codec.compact_keeps short
  obtain ⟨bytes, wrote, read, -⟩ := snapshot_read_back Codec.compact_documented
    { digestLength := 1 } _ given "t" true _ captured kept nests
  exact ⟨_, captured, size, kept, nests, bytes, wrote, read⟩

end Space

end ContentSpace

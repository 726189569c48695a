import ContentSpace.Proofs.Space.Effect
import ContentSpace.Proofs.Table.Representation
import Mathlib.Data.Finset.Dedup
import Mathlib.Data.Finset.Insert

/-!
# What happenings tell of a handle

The standing of a handle says whether content is live under it and which further names it has.
`Standing.replay` goes through happenings in order and keeps track of the standing. What an
operation of a table reports on a handle leads from its standing before to its standing after the
operation, and reports that content is created or deleted in turn.
-/

namespace ContentSpace

/-- Whether a handle is live, and its further names. -/
structure Standing where
  /-- Content is stored under the handle. -/
  live : Bool
  /-- The aliases that stand for the handle. -/
  names : Finset String
  deriving DecidableEq

namespace Standing

/-- The standing after something happened to the handle. -/
def after (standing : Standing) : Happening → Standing
  | .created => ⟨true, ∅⟩
  | .deleted => ⟨false, ∅⟩
  | .aliased name => { standing with names := insert name standing.names }
  | .unaliased name => { standing with names := standing.names.erase name }
  | .promoted .. => standing

/-- The standing after everything that happened to the handle. -/
def replay (standing : Standing) (happenings : List Happening) : Standing :=
  happenings.foldl after standing

/-- From a handle that is live or not, content is created only where there is none, and deleted only
where there is some. -/
def Alternating : Bool → List Happening → Prop
  | _, [] => True
  | live, .created :: rest => live = false ∧ Alternating true rest
  | live, .deleted :: rest => live = true ∧ Alternating false rest
  | live, _ :: rest => Alternating live rest

/-- Happenings lead from one standing to another one. -/
structure Leads (before : Standing) (happenings : List Happening) (result : Standing) : Prop where
  /-- Going through the happenings ends in the standing. -/
  replay_eq : before.replay happenings = result
  /-- Content is created and deleted in turn. -/
  alternating : Alternating before.live happenings

/-- Nothing happened. -/
theorem Leads.nil (standing : Standing) : Leads standing [] standing := ⟨rfl, trivial⟩

/-- What alternates goes on to alternate with what alternates from where it leads. -/
theorem alternating_append (standing : Standing) {first second : List Happening}
    (start : Alternating standing.live first)
    (rest : Alternating (standing.replay first).live second) :
    Alternating standing.live (first ++ second) := by
  induction first generalizing standing with
  | nil => exact rest
  | cons happening later ih =>
    cases happening with
    | created => exact ⟨start.1, ih ⟨true, ∅⟩ start.2 rest⟩
    | deleted => exact ⟨start.1, ih ⟨false, ∅⟩ start.2 rest⟩
    | aliased name => exact ih (standing.after (.aliased name)) start rest
    | unaliased name => exact ih (standing.after (.unaliased name)) start rest
    | promoted => exact ih standing start rest

/-- Happenings after others lead on from where these lead. -/
theorem Leads.append {before middle result : Standing} {first second : List Happening}
    (start : Leads before first middle) (rest : Leads middle second result) :
    Leads before (first ++ second) result := by
  have reached := start.replay_eq
  subst reached
  exact ⟨by rw [replay, List.foldl_append]; exact rest.replay_eq,
    alternating_append before start.alternating rest.alternating⟩

end Standing

/-- What happened to one handle. -/
def happeningsTo (handle : Handle) (happenings : List (Handle × Happening)) : List Happening :=
  (happenings.filter fun happening => happening.1 = handle).map Prod.snd

/-- What happened to a handle, the first happening apart. -/
theorem happeningsTo_cons (handle : Handle) (first : Handle × Happening)
    (rest : List (Handle × Happening)) :
    happeningsTo handle (first :: rest) =
      happeningsTo handle [first] ++ happeningsTo handle rest := by
  rw [happeningsTo, happeningsTo, happeningsTo, ← List.map_append, ← List.filter_append,
    List.singleton_append]

namespace Table

variable {table after : Table} {handle : Handle}

/-- The standing of a handle in a table. -/
def standing (table : Table) (handle : Handle) : Standing where
  live := table.entries.contains handle.text
  names := (table.aliases.filterValues (· == handle)).names.toFinset

/-- The further names of a handle are the aliases that stand for it. -/
theorem mem_names_standing {name : String} :
    name ∈ (table.standing handle).names ↔ table.aliases.get? name = some handle := by
  rw [standing, List.mem_toFinset, NameMap.mem_names_iff]
  simp [NameMap.get?_filterValues_eq_some_iff]

/-- A standing is given by what is live and by the aliases. -/
theorem standing_eq {live : Bool} {names : Finset String}
    (entries : table.entries.contains handle.text = live)
    (aliases : ∀ name, table.aliases.get? name = some handle ↔ name ∈ names) :
    table.standing handle = ⟨live, names⟩ := by
  have same : (table.standing handle).names = names := by
    ext name
    rw [mem_names_standing, aliases]
  rw [← same, ← entries]
  rfl

/-- Tables with the same entry and the same aliases of a handle agree on its standing. -/
theorem standing_congr
    (entries : after.entries.get? handle.text = table.entries.get? handle.text)
    (aliases : ∀ name, after.aliases.get? name = some handle ↔
      table.aliases.get? name = some handle) :
    after.standing handle = table.standing handle := by
  refine standing_eq ?_ ?_
  · rw [NameMap.contains, entries]
    rfl
  · exact fun name => (aliases name).trans mem_names_standing.symm

/-- A handle that is not live has no further names. -/
theorem Consistent.standing_of_not_live [Hashing] (consistent : table.Consistent)
    (absent : table.entries.get? handle.text = none) : table.standing handle = ⟨false, ∅⟩ := by
  refine standing_eq (NameMap.contains_eq_false_iff.mpr absent) ?_
  intro name
  simp only [Finset.notMem_empty, iff_false]
  intro named
  obtain ⟨entry, live⟩ := consistent.alias_live named
  rw [absent] at live
  cases live

/-- The entries with a handle are the one that is stored under it. -/
theorem Consistent.filter_values [Hashing] (consistent : table.Consistent) (handle : Handle) :
    table.entries.values.filter (fun entry => entry.handle = handle) =
      (table.entries.get? handle.text).toList := by
  have stored : table.entries.fields.filter (fun field => field.2.handle = handle) =
      table.entries.fields.filter fun field => field.1 = handle.text := by
    apply List.filter_congr
    rintro ⟨key, entry⟩ member
    have named : entry.handle.text = key := consistent.handle (NameMap.mem_fields_iff.mp member)
    rw [decide_eq_decide, ← named]
    exact ⟨congrArg Handle.text, Handle.text_inj⟩
  rw [NameMap.values, List.filter_map, Function.comp_def, stored, NameMap.filter_fields,
    List.map_map]
  exact List.map_id _

/-! ## What operations report -/

/-- A refused operation reports nothing. -/
theorem happenings_error (table : Table) (operation : Operation) (fault : Fault) :
    table.happenings operation (.error fault) = [] := by
  cases operation <;> rfl

/-- What is reported on another handle does not concern a handle. -/
theorem happeningsTo_singleton_ne {other : Handle} (different : other ≠ handle)
    (happening : Happening) : happeningsTo handle [(other, happening)] = [] := by
  rw [happeningsTo, List.filter_singleton]
  simp [different]

/-- What is reported on a handle concerns it. -/
theorem happeningsTo_singleton_self (handle : Handle) (happening : Happening) :
    happeningsTo handle [(handle, happening)] = [happening] := by
  rw [happeningsTo, List.filter_singleton]
  simp

/-- Storing new content creates its handle and leaves other handles as they are. -/
theorem Consistent.leads_store [Hashing] (consistent : table.Consistent) (entry : Entry)
    (free : table.isTaken entry.handle entry.fingerprint = false) (handle : Handle) :
    (table.standing handle).Leads (happeningsTo handle [(entry.handle, .created)])
      ((table.store entry).standing handle) := by
  obtain ⟨noEntry, -, -⟩ := isTaken_eq_false_iff.mp free
  by_cases same : entry.handle = handle
  · subst same
    have before := consistent.standing_of_not_live noEntry
    have result : (table.store entry).standing entry.handle = ⟨true, ∅⟩ := by
      have aliases : (table.standing entry.handle).names = ∅ := by rw [before]
      refine standing_eq ?_ ?_
      · simp [Table.store, NameMap.contains]
      · intro name
        rw [← aliases]
        exact mem_names_standing.symm
    rw [happeningsTo_singleton_self, before, result]
    exact ⟨rfl, rfl, trivial⟩
  · have kept : (table.store entry).standing handle = table.standing handle := by
      refine standing_congr ?_ ?_
      · simp only [Table.store, NameMap.get?_insert]
        rw [if_neg fun text => same (Handle.text_inj text).symm]
      · exact fun name => Iff.rfl
    rw [happeningsTo_singleton_ne same, kept]
    exact .nil _

/-- Removing an entry deletes its handle and leaves other handles as they are. -/
theorem leads_removed {entry : Entry}
    (live : table.entries.get? entry.handle.text = some entry) (handle : Handle) :
    (table.standing handle).Leads (happeningsTo handle [(entry.handle, .deleted)])
      ((table.removed entry).standing handle) := by
  by_cases same : entry.handle = handle
  · subst same
    have before : (table.standing entry.handle).live = true := by
      rw [standing, NameMap.contains, live, Option.isSome_some]
    have result : (table.removed entry).standing entry.handle = ⟨false, ∅⟩ := by
      refine standing_eq ?_ ?_
      · simp [Table.removed, NameMap.contains]
      · intro name
        simp [Table.removed, NameMap.get?_filterValues_eq_some_iff]
    rw [happeningsTo_singleton_self, result]
    exact ⟨rfl, before, trivial⟩
  · have kept : (table.removed entry).standing handle = table.standing handle := by
      refine standing_congr ?_ ?_
      · simp only [Table.removed, NameMap.get?_erase]
        rw [if_neg fun text => same (Handle.text_inj text).symm]
      · intro name
        simp only [Table.removed, NameMap.get?_filterValues_eq_some_iff, bne_iff_ne]
        exact and_iff_left (Ne.symm same)
    rw [happeningsTo_singleton_ne same, kept]
    exact .nil _

/-- Removing all entries deletes every live handle once. -/
theorem Consistent.leads_clear [Hashing] (consistent : table.Consistent) (handle : Handle) :
    (table.standing handle).Leads
      (happeningsTo handle (table.entries.values.map fun entry => (entry.handle, .deleted)))
      (table.clear.2.standing handle) := by
  have reported : happeningsTo handle
      (table.entries.values.map fun entry => (entry.handle, Happening.deleted)) =
      (table.entries.get? handle.text).toList.map fun _ => Happening.deleted := by
    rw [happeningsTo, List.filter_map, Function.comp_def, consistent.filter_values, List.map_map]
    rfl
  have result : table.clear.2.standing handle = ⟨false, ∅⟩ := by
    refine standing_eq ?_ ?_
    · rfl
    · intro name
      simp [clear]
  rw [reported, result]
  cases live : table.entries.get? handle.text with
  | some entry =>
    have before : (table.standing handle).live = true := by
      rw [standing, NameMap.contains, live, Option.isSome_some]
    exact ⟨rfl, before, trivial⟩
  | none =>
    rw [consistent.standing_of_not_live live]
    exact .nil _

/-- A further name for a live handle is added to the names of that handle only. -/
theorem leads_named {name : String} {target : Handle}
    (free : ∀ other, table.aliases.get? name = some other → other = target) (handle : Handle) :
    (table.standing handle).Leads (happeningsTo handle [(target, .aliased name)])
      (standing { table with aliases := table.aliases.insert name target } handle) := by
  by_cases same : target = handle
  · subst same
    rw [happeningsTo_singleton_self]
    refine ⟨?_, trivial⟩
    symm
    refine standing_eq rfl ?_
    intro other
    rw [NameMap.get?_insert_eq_some_iff, Finset.mem_insert, mem_names_standing]
    by_cases here : other = name
    · simp [here]
    · simp [here]
  · have kept : standing { table with aliases := table.aliases.insert name target } handle =
        table.standing handle := by
      refine standing_congr rfl ?_
      intro other
      rw [NameMap.get?_insert_eq_some_iff]
      constructor
      · rintro (⟨-, equal⟩ | ⟨-, old⟩)
        · exact absurd equal same
        · exact old
      · intro old
        refine .inr ⟨?_, old⟩
        rintro rfl
        exact same (free handle old).symm
    rw [happeningsTo_singleton_ne same, kept]
    exact .nil _

/-- A further name that is taken away is taken from the names of its handle only. -/
theorem leads_unnamed {name : String} {target : Handle}
    (found : table.aliases.get? name = some target) (handle : Handle) :
    (table.standing handle).Leads (happeningsTo handle [(target, .unaliased name)])
      (standing { table with aliases := table.aliases.erase name } handle) := by
  by_cases same : target = handle
  · subst same
    rw [happeningsTo_singleton_self]
    refine ⟨?_, trivial⟩
    symm
    refine standing_eq rfl ?_
    intro other
    rw [NameMap.get?_erase_eq_some_iff, Finset.mem_erase, mem_names_standing]
  · have kept : standing { table with aliases := table.aliases.erase name } handle =
        table.standing handle := by
      refine standing_congr rfl ?_
      intro other
      rw [NameMap.get?_erase_eq_some_iff]
      refine and_iff_right_of_imp ?_
      rintro old rfl
      rw [found, Option.some.injEq] at old
      exact same old
    rw [happeningsTo_singleton_ne same, kept]
    exact .nil _

/-- What an operation of a table reports on a handle leads from its standing before the operation to
its standing after it. -/
theorem Consistent.leads [Hashing] (consistent : table.Consistent) {operation : Operation}
    {answer : Except Fault Answer} (effect : Effect table operation answer after)
    (handle : Handle) :
    (table.standing handle).Leads (happeningsTo handle (table.happenings operation answer))
      (after.standing handle) := by
  cases effect with
  | refused =>
    rw [happenings_error]
    exact .nil _
  | known => exact .nil _
  | @stored tag value length fresh absent candidate free =>
    exact consistent.leads_store ⟨fresh, value, Fingerprint.of value, tag⟩ free handle
  | deleted found => exact leads_removed (consistent.live found) handle
  | cleared => exact consistent.leads_clear handle
  | forgotten => exact .nil _
  | named live apart free => exact leads_named free handle
  | unnamed found => exact leads_unnamed found handle
  | watched => exact .nil _
  | listened => exact .nil _
  | unwatched => exact .nil _

end Table

end ContentSpace

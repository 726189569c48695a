import ContentSpace.Proofs.Space.Reached
import ContentSpace.Proofs.Space.Standing

/-!
# The log of a watched handle

The log of a run is what its drains take, in order, followed by what is recorded and not taken yet.
While changes are tracked and a handle is watched, the log tells everything that happens to the
handle: from the standing at the start it leads to the standing at the end. Each move is shown to
record what it does to the handle; moves are then put together to operations, and operations to
runs.
-/

namespace ContentSpace

/-- Only the end of a watch takes the listeners of a handle away. -/
theorem Table.isSome_listeners_of_effect [Hashing] {table after : Table}
    {operation : Table.Operation} {answer : Except Fault Table.Answer} {handle : Handle}
    (watched : (table.listeners? handle).isSome = true)
    (effect : table.Effect operation answer after)
    (keepsWatches : ∀ key, operation ≠ .unwatch key) : (after.listeners? handle).isSome = true := by
  cases effect with
  | watched | listened =>
    rw [listeners?, NameMap.get?_insert]
    split
    · rfl
    · exact watched
  | @unwatched key => exact absurd rfl (keepsWatches key)
  | _ => exact watched

namespace Space

variable {space after : Space} {name : String} {handle : Handle}

/-- The listeners of a handle of a table, or none when it is not watched. -/
def listeners? (space : Space) (name : String) (handle : Handle) : Option (List String) :=
  (space.tables.get? name).bind (·.listeners? handle)

/-- A handle of a table is watched. -/
def Watches (space : Space) (name : String) (handle : Handle) : Prop :=
  (space.listeners? name handle).isSome = true

instance (space : Space) (name : String) (handle : Handle) :
    Decidable (space.Watches name handle) := inferInstanceAs (Decidable (_ = true))

/-- The standing of a handle in a table of the space. -/
def standing (space : Space) (name : String) (handle : Handle) : Standing :=
  (space.tables.get? name).elim ⟨false, ∅⟩ (·.standing handle)

/-- What changes tell of a handle of a table. -/
def happeningsOf (name : String) (handle : Handle) (changes : List Change) : List Happening :=
  (changes.filter fun change => change.table = name ∧ change.handle = handle).map Change.happening

/-- What more changes tell comes after what fewer of them tell. -/
theorem happeningsOf_append (name : String) (handle : Handle) (first second : List Change) :
    happeningsOf name handle (first ++ second) =
      happeningsOf name handle first ++ happeningsOf name handle second := by
  rw [happeningsOf, List.filter_append, List.map_append]
  rfl

/-! ## Records -/

/-- The changes that are recorded for what happens to handles of one table: one for each time that
something happens to a watched handle. -/
def noted (space : Space) (name : String) (happenings : List (Handle × Happening)) :
    List Change :=
  happenings.flatMap fun (handle, happening) =>
    (space.listeners? name handle).toList.map (Change.mk name handle happening)

/-- What is recorded for several happenings is what is recorded for each of them in order. -/
theorem noted_cons (space : Space) (name : String) (first : Handle × Happening)
    (rest : List (Handle × Happening)) :
    space.noted name (first :: rest) = space.noted name [first] ++ space.noted name rest := by
  rw [noted, noted, noted, List.flatMap_singleton, List.flatMap_cons]

/-- With tracking on, what happens to a watched handle is recorded, and nothing else changes. -/
theorem record_eq (tracked : space.configuration.trackChanges = true) (name : String)
    (handle : Handle) (happening : Happening) :
    space.record name handle happening =
      { space with changes := space.changes ++ space.noted name [(handle, happening)] } := by
  rw [record, if_pos tracked, noted, List.flatMap_singleton]
  dsimp only [Space.listeners?]
  cases (space.tables.get? name).bind (·.listeners? handle) with
  | none => simp
  | some listeners => rfl

/-- With tracking on, all that happens to watched handles is recorded in order. -/
theorem recordAll_eq (tracked : space.configuration.trackChanges = true) (name : String)
    (happenings : List (Handle × Happening)) :
    space.recordAll name happenings =
      { space with changes := space.changes ++ space.noted name happenings } := by
  induction happenings generalizing space with
  | nil => simp [recordAll, noted]
  | cons first rest ih =>
    have one := record_eq tracked name first.1 first.2
    have later := @ih { space with changes := space.changes ++ space.noted name [first] } tracked
    calc space.recordAll name (first :: rest)
        = (space.record name first.1 first.2).recordAll name rest := rfl
      _ = _ := by rw [one, later, noted_cons space name first rest, ← List.append_assoc]; rfl

/-- The record of one happening tells of a watched handle what happened to it, or nothing if it
happened to another handle or in another table. -/
theorem happeningsOf_noted_singleton (watched : space.Watches name handle) (other : String)
    (first : Handle × Happening) :
    happeningsOf name handle (space.noted other [first]) =
      if other = name then happeningsTo handle [first] else [] := by
  obtain ⟨listeners, listening⟩ := Option.isSome_iff_exists.mp watched
  rw [noted, List.flatMap_singleton]
  by_cases sameTable : other = name
  · subst sameTable
    rw [if_pos rfl]
    by_cases same : first.1 = handle
    · simp [happeningsOf, happeningsTo, same, listening]
    · simp [happeningsOf, happeningsTo, same]
  · simp [happeningsOf, sameTable]

/-- What is recorded for one table tells of a watched handle what happened to it, or nothing if the
handle is one of another table. -/
theorem happeningsOf_noted (watched : space.Watches name handle) (other : String)
    (happenings : List (Handle × Happening)) :
    happeningsOf name handle (space.noted other happenings) =
      if other = name then happeningsTo handle happenings else [] := by
  induction happenings with
  | nil => simp [noted, happeningsOf, happeningsTo]
  | cons first rest ih =>
    rw [noted_cons, happeningsOf_append, happeningsOf_noted_singleton watched, ih]
    by_cases same : other = name
    · simp only [if_pos same]
      rw [happeningsTo_cons handle first rest]
    · simp only [if_neg same, List.append_nil]

/-! ## Moves -/

/-- A handle stays watched, and the changes that are added tell how it comes from its standing
before to its standing after. -/
structure Tells (space after : Space) (name : String) (handle : Handle) : Prop where
  /-- The handle is still watched. -/
  watches : after.Watches name handle
  /-- The added changes lead from one standing to the other. -/
  leads : ∃ news, after.changes = space.changes ++ news ∧
    (space.standing name handle).Leads (happeningsOf name handle news) (after.standing name handle)

/-- Nothing is told when nothing happens. -/
theorem Tells.refl (watched : space.Watches name handle) : Tells space space name handle :=
  ⟨watched, [], (List.append_nil _).symm, .nil _⟩

/-- What is told of one step after another is told of both. -/
theorem Tells.trans {middle : Space} (first : Tells space middle name handle)
    (second : Tells middle after name handle) : Tells space after name handle := by
  obtain ⟨early, added, start⟩ := first.leads
  obtain ⟨late, more, rest⟩ := second.leads
  refine ⟨second.watches, early ++ late, ?_, ?_⟩
  · rw [more, added, List.append_assoc]
  · rw [happeningsOf_append]
    exact start.append rest

/-- A watched handle is a handle of some table. -/
theorem Watches.exists_table (watched : space.Watches name handle) :
    ∃ table, space.tables.get? name = some table ∧ (table.listeners? handle).isSome = true := by
  rw [Watches, Space.listeners?, Option.isSome_bind] at watched
  cases found : space.tables.get? name with
  | none => simp [found] at watched
  | some table => exact ⟨table, rfl, by simpa [found] using watched⟩

/-- Spaces with the same table of a name agree on who listens to its handles. -/
theorem listeners?_congr (same : after.tables.get? name = space.tables.get? name)
    (handle : Handle) : after.listeners? name handle = space.listeners? name handle := by
  rw [Space.listeners?, same]
  rfl

/-- Spaces with the same table of a name agree on the standing of its handles. -/
theorem standing_congr (same : after.tables.get? name = space.tables.get? name)
    (handle : Handle) : after.standing name handle = space.standing name handle := by
  rw [standing, same]
  rfl

/-- A step that keeps the table of a watched handle and records nothing tells nothing of it. -/
theorem Tells.of_same (watched : space.Watches name handle)
    (same : after.tables.get? name = space.tables.get? name)
    (silent : after.changes = space.changes) : Tells space after name handle := by
  refine ⟨?_, [], ?_, ?_⟩
  · rw [Watches, listeners?_congr same]
    exact watched
  · rw [silent, List.append_nil]
  · rw [standing_congr same]
    exact .nil _

/-- A step that exchanges tables and records what happened to handles of one of them tells of a
watched handle, provided that it tells what happened to it. -/
theorem Tells.of_recordAll (tracked : space.configuration.trackChanges = true)
    {tables : NameMap Table} {other : String} {happenings : List (Handle × Happening)}
    (watched : Watches { space with tables } name handle)
    (leads : (space.standing name handle).Leads
      (if other = name then happeningsTo handle happenings else [])
      (standing { space with tables } name handle)) :
    Tells space (recordAll { space with tables } other happenings) name handle := by
  have recorded : recordAll { space with tables } other happenings =
      { space with
        tables
        changes := space.changes ++ noted { space with tables } other happenings } :=
    @recordAll_eq { space with tables } tracked other happenings
  rw [recorded]
  refine ⟨watched, _, rfl, ?_⟩
  rw [happeningsOf_noted watched]
  exact leads

/-- An operation of a table that keeps its watches tells of every watched handle. -/
theorem tells_afterTable [Hashing] (tracked : space.configuration.trackChanges = true)
    (watched : space.Watches name handle) {other : String} {table : Table}
    (consistent : table.Consistent) (found : space.tables.get? other = some table)
    {operation : Table.Operation} (keepsWatches : ∀ key, operation ≠ .unwatch key) :
    Tells space (space.afterTable other table operation) name handle := by
  have effect := table.run_effect operation
  by_cases same : other = name
  · subst same
    have listened : (table.listeners? handle).isSome = true := by
      rw [Watches, Space.listeners?, found] at watched
      exact watched
    have still := Table.isSome_listeners_of_effect listened effect keepsWatches
    have leads := consistent.leads effect handle
    refine .of_recordAll tracked ?_ ?_
    · simpa [Watches, Space.listeners?] using still
    · simpa [standing, found] using leads
  · have kept : ({ space with tables := space.tables.insert other (table.run operation).2 } :
        Space).tables.get? name = space.tables.get? name := by
      rw [NameMap.get?_insert, if_neg (Ne.symm same)]
    refine .of_recordAll tracked ?_ ?_
    · rw [Watches, listeners?_congr kept]
      exact watched
    · rw [if_neg same, standing_congr kept]
      exact .nil _

/-- The record of a promotion tells of every watched handle, since a promotion leaves the content
where it is. -/
theorem tells_promoted (tracked : space.configuration.trackChanges = true)
    (watched : space.Watches name handle) (child : String) (source : Handle) (parent : String)
    (copy : Handle) :
    Tells space (space.record child source (.promoted parent copy)) name handle := by
  have told : Tells space (space.recordAll child [(source, .promoted parent copy)]) name
      handle := by
    refine .of_recordAll tracked watched ?_
    split
    · by_cases same : source = handle
      · subst same
        rw [Table.happeningsTo_singleton_self]
        exact ⟨rfl, trivial⟩
      · rw [Table.happeningsTo_singleton_ne same]
        exact .nil _
    · exact .nil _
  exact told

/-- Every move tells of every watched handle. -/
theorem Move.tells [Hashing] (move : Move space after) (reached : space.TablesReached)
    (tracked : space.configuration.trackChanges = true) (watched : space.Watches name handle) :
    Tells space after name handle := by
  cases move with
  | ran operation found keepsWatches =>
    exact tells_afterTable tracked watched (reached.consistent found) found keepsWatches
  | added absent =>
    obtain ⟨table, found, -⟩ := watched.exists_table
    refine .of_same watched ?_ rfl
    rw [NameMap.get?_insert, if_neg]
    rintro rfl
    rw [absent] at found
    cases found
  | promoted child source parent copy => exact tells_promoted tracked watched ..

/-- Any number of moves tells of every watched handle. -/
theorem tells_of_moves [Hashing] (moves : Moves space after) (reached : space.TablesReached)
    (tracked : space.configuration.trackChanges = true) (watched : space.Watches name handle) :
    Tells space after name handle := by
  induction moves with
  | refl => exact .refl watched
  | tail earlier move ih =>
    have still := configuration_of_moves earlier
    exact ih.trans (move.tells (reached.moves earlier) (by rw [still, tracked]) ih.watches)

/-! ## Runs -/

/-- The changes that an operation takes. -/
def taken : Operation → Except Fault Answer → List Change
  | .drain, .ok (.changes changes) => changes
  | _, _ => []

/-- The log of a run: the changes that its operations take, one after another, and then the changes
that are recorded and not taken yet. -/
def logged [Hashing] (space : Space) : List Operation → List Change
  | [] => space.changes
  | operation :: rest =>
    taken operation (space.run operation).1 ++ (space.run operation).2.logged rest

/-- Operations other than a drain take nothing. -/
theorem taken_eq_nil {operation : Operation} (other : operation ≠ .drain)
    (answer : Except Fault Answer) : taken operation answer = [] := by
  rw [taken]
  rintro _ rfl
  exact absurd rfl other

/-- Whether an operation can end watches on a table: it stops watching one of its handles, or
discards the table. -/
def Operation.mayEndWatch (name : String) : Operation → Bool
  | .unwatch other _ => other == name
  | .closeScope child => child == name
  | _ => false

/-- No operation of a run takes the watch of a handle away: neither does it end that watch, nor does
it discard the table. -/
def KeepsWatch [Hashing] (space : Space) (name : String) (handle : Handle) : List Operation → Prop
  | [] => True
  | operation :: rest =>
    (operation.mayEndWatch name = true → (space.run operation).2.Watches name handle) ∧
      (space.run operation).2.KeepsWatch name handle rest

instance decidableKeepsWatch [Hashing] (space : Space) (name : String) (handle : Handle) :
    (history : List Operation) → Decidable (space.KeepsWatch name handle history)
  | [] => inferInstanceAs (Decidable True)
  | operation :: rest =>
    have := decidableKeepsWatch (space.run operation).2 name handle rest
    inferInstanceAs (Decidable
      ((operation.mayEndWatch name = true → (space.run operation).2.Watches name handle) ∧
        (space.run operation).2.KeepsWatch name handle rest))

/-- An operation that does not take the watch of a handle away tells of the handle: what it takes
and leaves extends what was recorded by changes that lead from the standing before the operation to
the standing after it. -/
theorem run_tells [Hashing] (reached : space.TablesReached)
    (tracked : space.configuration.trackChanges = true) (watched : space.Watches name handle)
    (operation : Operation)
    (kept : operation.mayEndWatch name = true → (space.run operation).2.Watches name handle) :
    (space.run operation).2.Watches name handle ∧
      ∃ news, taken operation (space.run operation).1 ++ (space.run operation).2.changes =
          space.changes ++ news ∧
        (space.standing name handle).Leads (happeningsOf name handle news)
          ((space.run operation).2.standing name handle) := by
  by_cases draining : operation = .drain
  · subst draining
    exact ⟨watched, [], rfl, .nil _⟩
  · rw [taken_eq_nil draining, List.nil_append]
    suffices told : Tells space (space.run operation).2 name handle from ⟨told.watches, told.leads⟩
    have effect := space.run_effect operation
    generalize (space.run operation).2 = after at effect kept ⊢
    cases effect with
    | moved moves => exact tells_of_moves moves reached tracked watched
    | @unwatched other key table found =>
      by_cases here : other = name
      · subst here
        refine ⟨kept (beq_self_eq_true _), [], (List.append_nil _).symm, ?_⟩
        have same : ({ space with tables := space.tables.insert other (table.unwatch key).2 } :
            Space).standing other handle = space.standing other handle := by
          simp only [standing, NameMap.get?_insert, if_pos, found]
          rfl
        rw [same]
        exact .nil _
      · refine .of_same watched ?_ rfl
        rw [NameMap.get?_insert, if_neg (Ne.symm here)]
    | @closed child scope found isScope innermost =>
      refine .of_same watched ?_ rfl
      rw [NameMap.get?_erase, if_neg]
      rintro rfl
      obtain ⟨table, bound, -⟩ := (kept (beq_self_eq_true _)).exists_table
      exact (NameMap.get?_erase_eq_some_iff.mp bound).1 rfl
    | drained => exact absurd rfl draining

/-- The log of a run that keeps the watch of a handle extends what was recorded by changes that lead
from the standing of the handle before the run to its standing after it. -/
theorem runAll_tells [Hashing] (reached : space.TablesReached)
    (tracked : space.configuration.trackChanges = true) (watched : space.Watches name handle)
    (history : List Operation) (kept : space.KeepsWatch name handle history) :
    ∃ news, space.logged history = space.changes ++ news ∧
      (space.standing name handle).Leads (happeningsOf name handle news)
        ((space.runAll history).standing name handle) := by
  induction history generalizing space with
  | nil => exact ⟨[], (List.append_nil _).symm, .nil _⟩
  | cons operation rest ih =>
    have effect := space.run_effect operation
    obtain ⟨still, early, added, start⟩ := run_tells reached tracked watched operation kept.1
    have goesOn : (space.run operation).2.configuration.trackChanges = true := by
      rw [effect.configuration, tracked]
    obtain ⟨late, more, onward⟩ := ih (reached.effect effect) goesOn still kept.2
    refine ⟨early ++ late, ?_, ?_⟩
    · rw [logged, more, ← List.append_assoc, added, List.append_assoc]
    · rw [happeningsOf_append]
      exact start.append onward

/-- With tracking on, the log of a run replays every handle that is watched when the run begins and
whose watch no operation of the run takes away. Whatever the drains of the run are, the log consists
of what was recorded before and of new changes. What these tell of the handle, gone through in order
from its liveness and further names when the run begins, gives its liveness and further names when
the run ends, and tells that its content is created and deleted in turn. -/
theorem log_replays_watched_handle [Hashing] (configuration : SpaceConfiguration)
    (tracked : configuration.trackChanges = true) (before history : List Operation) (name : String)
    (handle : Handle)
    (watched : ((ofConfiguration configuration).runAll before).Watches name handle)
    (kept : ((ofConfiguration configuration).runAll before).KeepsWatch name handle history) :
    let start := (ofConfiguration configuration).runAll before
    let standing := start.standing name handle
    ∃ news, start.logged history = start.changes ++ news ∧
      standing.replay (happeningsOf name handle news) =
        (start.runAll history).standing name handle ∧
      Standing.Alternating standing.live (happeningsOf name handle news) := by
  intro start standing
  have reached : start.TablesReached := tablesReached_runAll configuration before
  have tracks : start.configuration.trackChanges = true := by
    rw [configuration_runAll]
    exact tracked
  obtain ⟨news, log, leads⟩ := runAll_tells reached tracks watched history kept
  exact ⟨news, log, leads.replay_eq, leads.alternating⟩

/-- The log of a watched handle across a drain: its content is deleted through a further name, and
stored again. -/
theorem log_replays_watched_handle_across_drain :
    let start := (ofConfiguration { trackChanges := true }).runAll
      [.createTable "t", .collapse "t" "v" (.int 1), .watch "t" "v:d990d1e16b8bd986"]
    let history : List Operation :=
      [.addAlias "t" "one" "v:d990d1e16b8bd986", .delete "t" "one", .drain,
        .collapse "t" "v" (.int 1), .unwatch "t" "one",
        .addAlias "t" "uno" "v:d990d1e16b8bd986"]
    let handle : Handle := ⟨"v:d990d1e16b8bd986"⟩
    let told := happeningsOf "t" handle (start.logged history)
    start.Watches "t" handle ∧ start.KeepsWatch "t" handle history ∧
      told = [.aliased "one", .deleted, .created, .aliased "uno"] ∧
      start.standing "t" handle = ⟨true, ∅⟩ ∧
      (start.standing "t" handle).replay told = (start.runAll history).standing "t" handle ∧
      (start.runAll history).standing "t" handle = ⟨true, {"uno"}⟩ := by
  intro start history handle told
  have watched : start.Watches "t" handle := by decide +kernel
  have kept : start.KeepsWatch "t" handle history := by decide +kernel
  have recorded : start.changes = [] := by decide +kernel
  have happened : told = [.aliased "one", .deleted, .created, .aliased "uno"] := by decide +kernel
  have standing : start.standing "t" handle = ⟨true, ∅⟩ := by decide +kernel
  obtain ⟨news, log, replayed, -⟩ :=
    log_replays_watched_handle { trackChanges := true } rfl _ history "t" handle watched kept
  have logged : start.logged history = news := by
    rw [← List.nil_append news, ← recorded]
    exact log
  have replayed : (start.standing "t" handle).replay told =
      (start.runAll history).standing "t" handle := by
    rw [← logged] at replayed
    exact replayed
  refine ⟨watched, kept, happened, standing, replayed, ?_⟩
  rw [← replayed, standing, happened]
  decide

end Space

end ContentSpace

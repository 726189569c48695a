import ContentSpace.Proofs.Space.Effect
import ContentSpace.Proofs.Table.Representation

/-!
# The tables of a reached space

Whatever a space does, each of its tables only ever runs operations of tables. So every table of a
space that a history reaches has a history of its own, which starts from the empty table of its
name, and what holds of all such tables holds of the tables of the space.
-/

namespace ContentSpace

namespace Space

variable {space after : Space}

/-! ## Records leave everything else as it is -/

/-- Recording a change leaves the tables as they are. -/
@[simp] theorem tables_record (space : Space) (name : String) (handle : Handle)
    (happening : Happening) : (space.record name handle happening).tables = space.tables := by
  rw [record]
  split
  · split <;> rfl
  · rfl

/-- Recording a change leaves the settings as they are. -/
@[simp] theorem configuration_record (space : Space) (name : String) (handle : Handle)
    (happening : Happening) :
    (space.record name handle happening).configuration = space.configuration := by
  rw [record]
  split
  · split <;> rfl
  · rfl

/-- Recording changes leaves the tables as they are. -/
@[simp] theorem tables_recordAll (space : Space) (name : String)
    (happenings : List (Handle × Happening)) :
    (space.recordAll name happenings).tables = space.tables := by
  induction happenings generalizing space with
  | nil => rfl
  | cons first rest ih => exact (ih _).trans (tables_record ..)

/-- Recording changes leaves the settings as they are. -/
@[simp] theorem configuration_recordAll (space : Space) (name : String)
    (happenings : List (Handle × Happening)) :
    (space.recordAll name happenings).configuration = space.configuration := by
  induction happenings generalizing space with
  | nil => rfl
  | cons first rest ih => exact (ih _).trans (configuration_record ..)

/-- After an operation on a table, the table that it leaves is bound. -/
@[simp] theorem tables_afterTable [Hashing] (space : Space) (name : String) (table : Table)
    (operation : Table.Operation) :
    (space.afterTable name table operation).tables =
      space.tables.insert name (table.run operation).2 := by
  rw [afterTable, tables_recordAll]

/-! ## Histories -/

/-- The settings of a space never change. -/
theorem Move.configuration [Hashing] (move : Move space after) :
    after.configuration = space.configuration := by
  cases move with
  | ran => rw [afterTable, configuration_recordAll]
  | added => rfl
  | promoted => rw [configuration_record]

/-- The settings of a space never change in any number of moves. -/
theorem configuration_of_moves [Hashing] (moves : Moves space after) :
    after.configuration = space.configuration := by
  induction moves with
  | refl => rfl
  | tail _ move ih => rw [move.configuration, ih]

/-- The settings of a space never change in an operation. -/
theorem Effect.configuration [Hashing] {operation : Operation}
    (effect : Effect space operation after) : after.configuration = space.configuration := by
  cases effect with
  | moved moves => exact configuration_of_moves moves
  | unwatched | closed | drained => rfl

/-- The settings of a space never change in a history. -/
theorem configuration_runAll [Hashing] (space : Space) (history : List Operation) :
    (space.runAll history).configuration = space.configuration :=
  @runAll_preserves space _ (fun other => other.configuration = space.configuration)
    (fun _ _ _ same effect => effect.configuration.trans same) rfl history

/-- Every table has a history that starts from the empty table of its name. -/
def TablesReached [Hashing] (space : Space) : Prop :=
  ∀ name table, space.tables.get? name = some table →
    ∃ parent history, table = Table.runAll { name, parent } history

/-- An exchange of a table for one that it runs into keeps the tables reached. -/
theorem TablesReached.exchange [Hashing] (reached : space.TablesReached) {name : String}
    {table : Table} (found : space.tables.get? name = some table) (operation : Table.Operation)
    (exchanged : after.tables = space.tables.insert name (table.run operation).2) :
    after.TablesReached := by
  intro other content bound
  rw [exchanged] at bound
  rcases NameMap.get?_insert_eq_some_iff.mp bound with ⟨rfl, rfl⟩ | ⟨-, old⟩
  · obtain ⟨parent, history, rfl⟩ := reached _ _ found
    exact ⟨parent, history ++ [operation], (Table.runAll_append_singleton ..).symm⟩
  · exact reached other content old

/-- A move keeps the tables reached. -/
theorem TablesReached.move [Hashing] (reached : space.TablesReached) (move : Move space after) :
    after.TablesReached := by
  cases move with
  | ran operation found => exact reached.exchange found operation (tables_afterTable ..)
  | @added name parent absent =>
    intro other content bound
    rcases NameMap.get?_insert_eq_some_iff.mp bound with ⟨rfl, rfl⟩ | ⟨-, old⟩
    · exact ⟨parent, [], rfl⟩
    · exact reached other content old
  | promoted =>
    intro other content bound
    rw [tables_record] at bound
    exact reached other content bound

/-- Any number of moves keeps the tables reached. -/
theorem TablesReached.moves [Hashing] (reached : space.TablesReached) (moves : Moves space after) :
    after.TablesReached := by
  induction moves with
  | refl => exact reached
  | tail _ move ih => exact ih.move move

/-- Every effect keeps the tables reached. -/
theorem TablesReached.effect [Hashing] (reached : space.TablesReached) {operation : Operation}
    (effect : Effect space operation after) : after.TablesReached := by
  cases effect with
  | moved moves => exact reached.moves moves
  | @unwatched name key table found => exact reached.exchange found (.unwatch key) rfl
  | closed =>
    intro other content bound
    exact reached other content (NameMap.get?_erase_eq_some_iff.mp bound).2
  | drained => exact reached

/-- Every table of a space that a history reaches has a history of its own. -/
theorem tablesReached_runAll [Hashing] (configuration : SpaceConfiguration)
    (history : List Operation) :
    ((ofConfiguration configuration).runAll history).TablesReached := by
  apply runAll_preserves fun _ _ _ reached effect => TablesReached.effect reached effect
  intro name table found
  simp [ofConfiguration] at found

/-- The maps of every reached table agree. -/
theorem TablesReached.consistent [Hashing] (reached : space.TablesReached) {name : String}
    {table : Table} (found : space.tables.get? name = some table) : table.Consistent := by
  obtain ⟨parent, history, rfl⟩ := reached name table found
  exact (Table.consistent_empty name parent).runAll history

end Space

end ContentSpace

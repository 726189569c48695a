import ContentSpace.Sha256
import ContentSpace.Snapshot.Packed
import ContentSpace.Space.Composite
import ContentSpace.Space.Scope

/-!
# Histories of a space

An operation on a space is a value, so that a history of a space is a list of operations. Running
an operation gives its answer and the space after it; questions leave the space as it is.
-/

namespace ContentSpace.Space

/-- One operation on a space. -/
inductive Operation where
  /-- Add an empty table. -/
  | createTable (table : String)
  /-- Ask whether a table exists. -/
  | hasTable (table : String)
  /-- Ask for the names of all tables. -/
  | tableNames
  /-- Ask for a table. -/
  | table (table : String)
  /-- Ask for the entry of a key. -/
  | lookup (table key : String)
  /-- Store a value. -/
  | collapse (table tag : String) (value : Value)
  /-- Store several values. -/
  | collapseAll (table tag : String) (values : List Value)
  /-- Ask for the content of a key. -/
  | resolve (table key : String)
  /-- Ask for the contents of several keys. -/
  | resolveAll (table : String) (keys : List String)
  /-- Ask for the content of a key, or else for another value. -/
  | resolveOr (table key : String) (other : Value)
  /-- Ask for a snapshot. -/
  | snapshot (table : String) (withContent : Bool)
  /-- Remove an entry. -/
  | delete (table key : String)
  /-- Remove all entries of a table. -/
  | clear (table : String)
  /-- Release the retired handles of a table. -/
  | forgetRetired (table : String)
  /-- Give a handle a further name. -/
  | addAlias (table name handle : String)
  /-- Remove a further name. -/
  | removeAlias (table name : String)
  /-- Open a scope. -/
  | openScope (parent child : String)
  /-- Copy an entry of a scope outward. -/
  | promote (child key : String)
  /-- Discard a scope. -/
  | closeScope (child : String)
  /-- Start to watch a handle. -/
  | watch (table key : String)
  /-- Stop watching a handle. -/
  | unwatch (table key : String)
  /-- Add a listener to a handle. -/
  | onChange (table key listener : String)
  /-- Ask for the recorded changes. -/
  | pending
  /-- Take the recorded changes. -/
  | drain
  /-- Store several contents as one object. -/
  | compose (table tag : String) (keys : List String)
  /-- Store the parts of a content. -/
  | decompose (table key : String)
  /-- Ask for one field of a content. -/
  | project (table key field : String)
  /-- Ask whether two keys stand for the same content. -/
  | sameContent (table key other : String)
  /-- Ask for the canonical text of a value. -/
  | encode (value : Value)
  /-- Ask for the value of a canonical text. -/
  | decode (text : String)

/-- What an operation answers. -/
inductive Answer where
  /-- Nothing but success. -/
  | done
  /-- Yes or no. -/
  | flag (flag : Bool)
  /-- A number of entries or handles. -/
  | count (count : Nat)
  /-- A text. -/
  | text (text : String)
  /-- Names. -/
  | names (names : List String)
  /-- A handle. -/
  | handle (handle : Handle)
  /-- Handles. -/
  | handles (handles : List Handle)
  /-- A value. -/
  | value (value : Value)
  /-- Values. -/
  | values (values : List Value)
  /-- An entry. -/
  | entry (entry : Entry)
  /-- A table. -/
  | table (table : Table)
  /-- A snapshot. -/
  | snapshot (snapshot : Snapshot)
  /-- Changes. -/
  | changes (changes : List Change)

/-- The answer of an operation and the space after it. -/
def run [Hashing] (space : Space) : Operation → Except Fault Answer × Space
  | .createTable table => (.ok (.flag (space.createTable table).1), (space.createTable table).2)
  | .hasTable table => (.ok (.flag (space.hasTable table)), space)
  | .tableNames => (.ok (.names space.tableNames), space)
  | .table table => ((space.table table).map .table, space)
  | .lookup table key => ((space.lookup table key).map .entry, space)
  | .collapse table tag value => change .handle (space.collapse table tag value)
  | .collapseAll table tag values => change .handles (space.collapseAll table tag values)
  | .resolve table key => ((space.resolve table key).map .value, space)
  | .resolveAll table keys => ((space.resolveAll table keys).map .values, space)
  | .resolveOr table key other => ((space.resolveOr table key other).map .value, space)
  | .snapshot table withContent =>
    ((space.table table).map fun table => .snapshot (.capture table withContent), space)
  | .delete table key => change (fun _ => .done) (space.delete table key)
  | .clear table => change .count (space.clear table)
  | .forgetRetired table => change .count (space.forgetRetired table)
  | .addAlias table name handle => change .handle (space.addAlias table name handle)
  | .removeAlias table name => change .handle (space.removeAlias table name)
  | .openScope parent child => change (fun _ => .done) (space.openScope parent child)
  | .promote child key => change .handle (space.promote child key)
  | .closeScope child => change .count (space.closeScope child)
  | .watch table key => change .handle (space.watch table key)
  | .unwatch table key => change .flag (space.unwatch table key)
  | .onChange table key listener => change .handle (space.onChange table key listener)
  | .pending => (.ok (.changes space.changes), space)
  | .drain => (.ok (.changes space.drainChanges.1), space.drainChanges.2)
  | .compose table tag keys => change .handle (space.compose table tag keys)
  | .decompose table key => change .handles (space.decompose table key)
  | .project table key field => ((space.project table key field).map .value, space)
  | .sameContent table key other => ((space.sameContent table key other).map .flag, space)
  | .encode value => (.ok (.text (CanonicalText.encodeText value)), space)
  | .decode text => ((space.decode text).map .value, space)
where
  /-- The answer of an operation that may change the space. -/
  change {α : Type} (answer : α → Answer) (result : Except Fault α × Space) :
      Except Fault Answer × Space :=
    (result.1.map answer, result.2)

/-- The space after a history. -/
def runAll [Hashing] (space : Space) (history : List Operation) : Space :=
  history.foldl (fun space operation => (space.run operation).2) space

end ContentSpace.Space

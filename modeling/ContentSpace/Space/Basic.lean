import ContentSpace.CanonicalText.Reader
import ContentSpace.Space.Change
import ContentSpace.Space.Configuration

/-!
# Spaces

A space is a set of named tables with a record of the changes of watched handles. A table can be a
scope inside another one: what it does not bind itself is looked up in the enclosing table, and so
on outward. An operation returns its answer together with the space after it; a refused operation
returns a fault, and the space it then returns is again the space after it.
-/

namespace ContentSpace

/-- Named tables with a record of changes. -/
structure Space where
  /-- The settings. -/
  configuration : SpaceConfiguration := {}
  /-- The tables by name. -/
  tables : NameMap Table := ∅
  /-- The changes recorded and not taken yet, oldest first. -/
  changes : List Change := []

namespace Space

variable {α : Type}

/-- The space without tables. -/
def ofConfiguration (configuration : SpaceConfiguration) : Space := { configuration }

/-- Adds an empty table, unless there is one of this name. The answer says whether it was added. -/
def createTable (space : Space) (name : String) : Bool × Space :=
  if space.tables.contains name then (false, space)
  else (true, { space with tables := space.tables.insert name (.root name) })

/-- Whether there is a table of this name. -/
def hasTable (space : Space) (name : String) : Bool := space.tables.contains name

/-- The names of the tables in order. -/
def tableNames (space : Space) : List String := space.tables.names

/-- The table of a name. -/
def table (space : Space) (name : String) : Except Fault Table :=
  match space.tables.get? name with
  | some table => .ok table
  | none => .error (.unknownTable name)

/-- A table followed by the tables that enclose it, from the inside outward. No table comes twice,
because each one is left out once it has been passed. -/
def ancestry (tables : NameMap Table) (name : String) : List Table :=
  match h : tables.get? name with
  | none => []
  | some table =>
    have := NameMap.size_erase_lt h
    table :: match table.parent with
      | none => []
      | some parent => ancestry (tables.erase name) parent
termination_by tables.size

/-- The entry that a key stands for in a table, or else in the nearest enclosing table that binds
the key. -/
def lookup (space : Space) (name key : String) : Except Fault Entry := do
  let _ ← space.table name
  match (ancestry space.tables name).findSome? (·.get? key) with
  | some entry => .ok entry
  | none => .error (.notFound name key)

/-- The content that a key stands for in a table or around it. -/
def resolve (space : Space) (name key : String) : Except Fault Value :=
  (space.lookup name key).map Entry.value

/-- The contents that keys stand for; the first key that stands for none is the fault. -/
def resolveAll (space : Space) (name : String) (keys : List String) : Except Fault (List Value) :=
  keys.mapM (space.resolve name)

/-- The content that a key stands for, or another value if it stands for none. -/
def resolveOr (space : Space) (name key : String) (other : Value) : Except Fault Value :=
  match space.resolve name key with
  | .error (.notFound ..) => .ok other
  | result => result

/-- Whether two keys stand for the same content. -/
def sameContent (space : Space) (name key other : String) : Except Fault Bool := do
  let left ← space.lookup name key
  let right ← space.lookup name other
  .ok (left.fingerprint == right.fingerprint)

/-- Runs an operation of one table. -/
def onTable (space : Space) (name : String) (operation : Table → Except Fault (α × Table)) :
    Except Fault α × Space :=
  match space.tables.get? name with
  | none => (.error (.unknownTable name), space)
  | some table =>
    match operation table with
    | .error fault => (.error fault, space)
    | .ok (result, after) => (.ok result, { space with tables := space.tables.insert name after })

/-- Records a change of a handle if changes are tracked and the handle is watched. -/
def record (space : Space) (name : String) (handle : Handle) (happening : Happening) : Space :=
  if space.configuration.trackChanges then
    match (space.tables.get? name).bind (·.listeners? handle) with
    | some listeners =>
      { space with changes := space.changes ++ [⟨name, handle, happening, listeners⟩] }
    | none => space
  else space

/-- Stores a value in a table and returns its handle. -/
def collapse [Hashing] (space : Space) (name tag : String) (value : Value) :
    Except Fault Handle × Space :=
  match space.onTable name (·.collapse tag value space.configuration.effectiveLength) with
  | (.error fault, space) => (.error fault, space)
  | (.ok ⟨handle, true⟩, space) => (.ok handle, space.record name handle .created)
  | (.ok ⟨handle, false⟩, space) => (.ok handle, space)

/-- Stores values one after the other and stops at the first fault. -/
def collapseAll [Hashing] (space : Space) (name tag : String) :
    List Value → Except Fault (List Handle) × Space
  | [] => (.ok [], space)
  | value :: rest =>
    match space.collapse name tag value with
    | (.error fault, space) => (.error fault, space)
    | (.ok handle, space) =>
      let (handles, space) := collapseAll space name tag rest
      (handles.map (handle :: ·), space)

/-- Removes an entry of a table itself. -/
def delete (space : Space) (name key : String) : Except Fault Unit × Space :=
  match space.onTable name (·.delete key) with
  | (.error fault, space) => (.error fault, space)
  | (.ok entry, space) => (.ok (), space.record name entry.handle .deleted)

/-- Removes all entries of a table and returns their count. -/
def clear (space : Space) (name : String) : Except Fault Nat × Space :=
  match space.onTable name fun table => .ok (table.entries.values, table.clear.2) with
  | (.error fault, space) => (.error fault, space)
  | (.ok entries, space) =>
    (.ok entries.length,
      entries.foldl (fun space entry => space.record name entry.handle .deleted) space)

/-- Releases the retired handles of a table and returns their count. -/
def forgetRetired (space : Space) (name : String) : Except Fault Nat × Space :=
  space.onTable name fun table => .ok table.forgetRetired

/-- Gives a live handle of a table a further name. -/
def addAlias (space : Space) (name label handle : String) : Except Fault Handle × Space :=
  match space.onTable name (·.addAlias label handle) with
  | (.error fault, space) => (.error fault, space)
  | (.ok target, space) => (.ok target, space.record name target (.aliased label))

/-- Removes a further name and returns the handle it stood for. -/
def removeAlias (space : Space) (name label : String) : Except Fault Handle × Space :=
  match space.onTable name (·.removeAlias label) with
  | (.error fault, space) => (.error fault, space)
  | (.ok target, space) => (.ok target, space.record name target (.unaliased label))

/-- Starts to watch a handle. -/
def watch (space : Space) (name key : String) : Except Fault Handle × Space :=
  space.onTable name (·.watch key)

/-- Stops watching a handle. The answer says whether it was watched. -/
def unwatch (space : Space) (name key : String) : Except Fault Bool × Space :=
  space.onTable name fun table => .ok (table.unwatch key)

/-- Watches a handle and adds a listener. -/
def onChange (space : Space) (name key listener : String) : Except Fault Handle × Space :=
  space.onTable name (·.onChange key listener)

/-- Takes the recorded changes. -/
def drainChanges (space : Space) : List Change × Space :=
  (space.changes, { space with changes := [] })

/-- Reads canonical text with the limit of the space. -/
def decode (space : Space) (text : String) : Except Fault Value :=
  CanonicalText.decode space.configuration.decodeLimit text.toList

end Space

end ContentSpace

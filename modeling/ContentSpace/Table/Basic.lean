import ContentSpace.Fault.Basic
import ContentSpace.Handle
import ContentSpace.NameMap

/-!
# Tables of stored content

A table stores values under handles that are made from their content. Equal content is stored
once. A handle that was given out keeps meaning the content it was given out for: when the content
is deleted the handle is retired, and until retired handles are forgotten it can only be bound to
the same content again. Names given to live handles are aliases. Handles can be watched, with
listeners to be told of changes; a watch outlives the content.

Every operation that can fail returns either a fault or the table after it.
-/

namespace ContentSpace

/-- Stored content with the names it has. -/
structure Entry where
  /-- The handle it is stored under. -/
  handle : Handle
  /-- The content. -/
  value : Value
  /-- The fingerprint of the content. -/
  fingerprint : Fingerprint
  /-- The tag it was first stored with. -/
  tag : String

/-- What storing a value came to. -/
structure Collapsed where
  /-- The handle of the value. -/
  handle : Handle
  /-- Whether the value was not stored before. -/
  created : Bool
  deriving DecidableEq

/-- A store of entries by handle. -/
structure Table where
  /-- The name of the table. -/
  name : String
  /-- The table that encloses it, for a scope. -/
  parent : Option String
  /-- The entries by the text of their handles. -/
  entries : NameMap Entry := ∅
  /-- The handles of entries by the hexadecimal form of their fingerprints. -/
  index : NameMap Handle := ∅
  /-- The fingerprints for which handles without an entry are kept. -/
  retired : NameMap Fingerprint := ∅
  /-- The handles that further names stand for. -/
  aliases : NameMap Handle := ∅
  /-- The listeners of watched handles. -/
  watched : NameMap (List String) := ∅

namespace Table

/-- The empty table with a name, not enclosed by another one. -/
def root (name : String) : Table := { name, parent := none }

/-- The empty table with a name that another table encloses. -/
def enclosed (name parent : String) : Table := { name, parent := some parent }

/-- Whether another table encloses the table. -/
def isScope (table : Table) : Bool := table.parent.isSome

/-- Number of entries. -/
def size (table : Table) : Nat := table.entries.size

/-- Whether nothing is stored. -/
def isEmpty (table : Table) : Bool := table.entries.isEmpty

/-- The entry that a handle or alias stands for. -/
def get? (table : Table) (key : String) : Option Entry :=
  table.entries.get? key <|>
    (table.aliases.get? key).bind fun handle => table.entries.get? handle.text

/-- Whether a handle or alias stands for an entry. -/
def contains (table : Table) (key : String) : Bool := (table.get? key).isSome

/-- The entry that a handle or alias stands for, or the fault that there is none. -/
def find (table : Table) (key : String) : Except Fault Entry :=
  match table.get? key with
  | some entry => .ok entry
  | none => .error (.notFound table.name key)

/-- The content that a handle or alias stands for. -/
def resolve (table : Table) (key : String) : Except Fault Value :=
  (table.find key).map Entry.value

/-- Whether a handle is held by an entry, by an alias, or for other content. -/
def isTaken (table : Table) (handle : Handle) (fingerprint : Fingerprint) : Bool :=
  table.entries.contains handle.text || table.aliases.contains handle.text ||
    (table.retired.get? handle.text).any (· != fingerprint)

/-- The number of fingerprint digits that a new handle starts from. -/
def firstLength (length : Nat) : Nat := max 1 (min length Fingerprint.hexLength)

/-- The handles that content may get, the shortest first: one digit is added at a time. -/
def candidates (tag : String) (fingerprint : Fingerprint) (length : Nat) : List Handle :=
  (List.range' (firstLength length) (Fingerprint.hexLength + 1 - firstLength length)).map
    (Handle.mint tag fingerprint)

/-- The table with an entry for content that it does not store yet. -/
def store (table : Table) (entry : Entry) : Table :=
  { table with
    entries := table.entries.insert entry.handle.text entry
    index := table.index.insert entry.fingerprint.hex entry.handle
    retired := table.retired.erase entry.handle.text }

/-- Stores a value under the shortest free handle, unless an equal one is stored already. -/
def collapse [Hashing] (table : Table) (tag : String) (value : Value) (length : Nat) :
    Except Fault (Collapsed × Table) :=
  let fingerprint := Fingerprint.of value
  match table.index.get? fingerprint.hex with
  | some handle => .ok (⟨handle, false⟩, table)
  | none =>
    match (candidates tag fingerprint length).find? fun handle =>
      !table.isTaken handle fingerprint with
    | some handle => .ok (⟨handle, true⟩, table.store ⟨handle, value, fingerprint, tag⟩)
    | none => .error (.internal (.fingerprintCollision fingerprint.hex table.name))

/-- Removes an entry and its aliases; its handle is retired. -/
def delete (table : Table) (key : String) : Except Fault (Entry × Table) := do
  let entry ← table.find key
  .ok (entry, { table with
    entries := table.entries.erase entry.handle.text
    index := table.index.erase entry.fingerprint.hex
    retired := table.retired.insert entry.handle.text entry.fingerprint
    aliases := table.aliases.filterValues (· != entry.handle) })

/-- Removes all entries and aliases; the handles are retired. The count of entries is returned. -/
def clear (table : Table) : Nat × Table :=
  (table.size, { table with
    entries := ∅
    index := ∅
    retired := table.entries.values.foldl
      (fun retired entry => retired.insert entry.handle.text entry.fingerprint) table.retired
    aliases := ∅ })

/-- Number of retired handles. -/
def retiredCount (table : Table) : Nat := table.retired.size

/-- Releases all retired handles and returns their count. -/
def forgetRetired (table : Table) : Nat × Table :=
  (table.retiredCount, { table with retired := ∅ })

/-- Gives a live handle a further name. Giving the same name again changes nothing. -/
def addAlias (table : Table) (name handle : String) : Except Fault (Handle × Table) := do
  let target ← match table.entries.get? handle with
    | some entry => .ok entry.handle
    | none => .error (.notFound table.name handle)
  if table.entries.contains name then
    .error (.aliasRefused (.isHandle name table.name))
  else
    match (table.aliases.get? name).filter (· != target) with
    | some other => .error (.aliasRefused (.namesOther name other.text table.name))
    | none => .ok (target, { table with aliases := table.aliases.insert name target })

/-- Removes a further name and returns the handle it stood for. -/
def removeAlias (table : Table) (name : String) : Except Fault (Handle × Table) :=
  match table.aliases.get? name with
  | some handle => .ok (handle, { table with aliases := table.aliases.erase name })
  | none => .error (.aliasRefused (.notAnAlias name table.name))

/-- The listeners of a handle, or none when it is not watched. -/
def listeners? (table : Table) (handle : Handle) : Option (List String) :=
  table.watched.get? handle.text

/-- Starts to watch the handle that a key stands for; a watched handle keeps its listeners. -/
def watch (table : Table) (key : String) : Except Fault (Handle × Table) := do
  let entry ← table.find key
  let listeners := (table.listeners? entry.handle).getD []
  .ok (entry.handle, { table with watched := table.watched.insert entry.handle.text listeners })

/-- Watches the handle that a key stands for and adds a listener, unless it listens already. -/
def onChange (table : Table) (key listener : String) : Except Fault (Handle × Table) := do
  let entry ← table.find key
  let listeners := (table.listeners? entry.handle).getD []
  let listeners := if listeners.contains listener then listeners else listeners ++ [listener]
  .ok (entry.handle, { table with watched := table.watched.insert entry.handle.text listeners })

/-- Stops watching the handle that a key stands for, or that it spells when it stands for none.
The answer says whether the handle was watched. -/
def unwatch (table : Table) (key : String) : Bool × Table :=
  let handle := (table.get? key).elim key fun entry => entry.handle.text
  (table.watched.contains handle, { table with watched := table.watched.erase handle })

end Table

end ContentSpace

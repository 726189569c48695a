import ContentSpace.Table.Basic

/-!
# Histories of a table

An operation on a table is a value, so that a history of a table is a list of operations. A refused
operation leaves the table as it was.
-/

namespace ContentSpace.Table

/-- One operation that can change a table. -/
inductive Operation where
  /-- Store a value with a tag and a number of fingerprint digits. -/
  | collapse (tag : String) (value : Value) (length : Nat)
  /-- Remove an entry. -/
  | delete (key : String)
  /-- Remove all entries. -/
  | clear
  /-- Release retired handles. -/
  | forgetRetired
  /-- Give a live handle a further name. -/
  | addAlias (name handle : String)
  /-- Remove a further name. -/
  | removeAlias (name : String)
  /-- Start to watch a handle. -/
  | watch (key : String)
  /-- Add a listener to a handle. -/
  | onChange (key listener : String)
  /-- Stop watching a handle. -/
  | unwatch (key : String)

/-- What an operation answers. -/
inductive Answer where
  /-- A value is stored. -/
  | collapsed (collapsed : Collapsed)
  /-- An entry is removed. -/
  | entry (entry : Entry)
  /-- The handle concerned. -/
  | handle (handle : Handle)
  /-- A number of entries or handles. -/
  | count (count : Nat)
  /-- Whether there was something to do. -/
  | flag (flag : Bool)

/-- The answer of an operation and the table after it. -/
def run [Hashing] (table : Table) : Operation → Except Fault Answer × Table
  | .collapse tag value length => settle .collapsed (table.collapse tag value length)
  | .delete key => settle .entry (table.delete key)
  | .clear => (.ok (.count table.clear.1), table.clear.2)
  | .forgetRetired => (.ok (.count table.forgetRetired.1), table.forgetRetired.2)
  | .addAlias name handle => settle .handle (table.addAlias name handle)
  | .removeAlias name => settle .handle (table.removeAlias name)
  | .watch key => settle .handle (table.watch key)
  | .onChange key listener => settle .handle (table.onChange key listener)
  | .unwatch key => (.ok (.flag (table.unwatch key).1), (table.unwatch key).2)
where
  /-- The answer of an operation that may be refused. -/
  settle {α : Type} (answer : α → Answer) :
      Except Fault (α × Table) → Except Fault Answer × Table
    | .ok (result, after) => (.ok (answer result), after)
    | .error fault => (.error fault, table)

/-- The table after a history. -/
def runAll [Hashing] (table : Table) (history : List Operation) : Table :=
  history.foldl (fun table operation => (table.run operation).2) table

end ContentSpace.Table

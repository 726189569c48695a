import ContentSpace.Handle

/-!
# Changes of watched handles

A space records what happens to watched handles. Each record names the table and the handle, what
happened, and who listened at that time.
-/

namespace ContentSpace

/-- What happened to a watched handle. -/
inductive Happening where
  /-- The handle was bound again. -/
  | created
  /-- The content of the handle was removed. -/
  | deleted
  /-- The handle got a further name. -/
  | aliased (name : String)
  /-- A further name of the handle was removed. -/
  | unaliased (name : String)
  /-- The content was copied to the enclosing table, where it has another handle. -/
  | promoted (table : String) (handle : Handle)
  deriving DecidableEq

/-- The text of a happening. -/
def Happening.display : Happening → String
  | created => "created"
  | deleted => "deleted"
  | aliased name => "aliased as " ++ name
  | unaliased name => "unaliased " ++ name
  | promoted table handle => "promoted to " ++ table ++ "/" ++ handle.text

/-- One record of a change. -/
structure Change where
  /-- The table of the handle. -/
  table : String
  /-- The watched handle. -/
  handle : Handle
  /-- What happened to it. -/
  happening : Happening
  /-- Who listened to the handle. -/
  listeners : List String
  deriving DecidableEq

/-- The text of a change. -/
def Change.display (change : Change) : String :=
  change.table ++ "/" ++ change.handle.text ++ " " ++ change.happening.display

end ContentSpace

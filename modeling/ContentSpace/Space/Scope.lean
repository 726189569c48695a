import ContentSpace.Space.Basic

/-!
# Scopes of a space

A scope is a table opened inside another one. Its own content can be copied outward, and closing it
discards what was not. Scopes close from the inside outward.
-/

namespace ContentSpace.Space

/-- Opens an empty table inside another one. -/
def openScope (space : Space) (parent child : String) : Except Fault Unit × Space :=
  if !space.hasTable parent then (.error (.unknownTable parent), space)
  else if space.hasTable child then (.error (.scopeRefused (.alreadyExists child)), space)
  else (.ok (), { space with tables := space.tables.insert child (.enclosed child parent) })

/-- The entry of a scope itself that a key stands for, with the name of the enclosing table. -/
def promotable (space : Space) (child key : String) : Except Fault (String × Entry) := do
  let scope ← space.table child
  match scope.parent with
  | none => .error (.scopeRefused (.notAScope child))
  | some parent =>
    match scope.get? key with
    | none => .error (.notFound child key)
    | some entry => .ok (parent, entry)

/-- Copies an entry of a scope into the enclosing table and returns its handle there. -/
def promote [Hashing] (space : Space) (child key : String) : Except Fault Handle × Space :=
  match space.promotable child key with
  | .error fault => (.error fault, space)
  | .ok (parent, entry) =>
    match space.collapse parent entry.tag entry.value with
    | (.error fault, space) => (.error fault, space)
    | (.ok handle, space) =>
      (.ok handle, space.record child entry.handle (.promoted parent handle))

/-- Discards a scope and returns the number of its entries. -/
def closeScope (space : Space) (child : String) : Except Fault Nat × Space :=
  match space.tables.get? child with
  | none => (.error (.unknownTable child), space)
  | some scope =>
    if !scope.isScope then (.error (.scopeRefused (.notAScope child)), space)
    else
      match space.tables.values.find? fun table => table.parent == some child with
      | some inner => (.error (.scopeRefused (.hasOpenScope child inner.name)), space)
      | none => (.ok scope.size, { space with tables := space.tables.erase child })

end ContentSpace.Space

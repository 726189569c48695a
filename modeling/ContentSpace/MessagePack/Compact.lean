import ContentSpace.MessagePack.Reader

/-!
# A compact library for MessagePack

The library that the program runs with writes every item in its shortest form and reads any form.
Nothing but its use for storing snapshots depends on it.
-/

namespace ContentSpace.MessagePack

/-- Writes things one after the other. -/
def writeMany {α : Type} (item : Writer α) : Writer (List α)
  | [] => .ok []
  | first :: others => do
    let head ← item first
    let rest ← writeMany item others
    .ok (head ++ rest)

/-- Writes a name and a thing. -/
def writePair {α : Type} (item : Writer α) : Writer (String × α) := fun (name, thing) => do
  let content ← item thing
  .ok (writeText name ++ content)

/-- The library that writes every item in its shortest form. -/
def Library.compact : Library where
  nothing := writeNothing
  bool := ⟨fun b => .ok (writeBool b), readBool⟩
  int := ⟨fun n => .ok (writeInt n.toInt), readInt⟩
  double := ⟨fun x => .ok (writeDouble x), readDouble⟩
  text := ⟨fun text => .ok (writeText text), readText⟩
  writeArray item things := do
    let items ← writeMany item things
    .ok (writeArrayHead things.length ++ items)
  readArray := MessagePack.readArray 1
  writeMap item fields := do
    let pairs ← writeMany (writePair item) fields
    .ok (writeMapHead fields.length ++ pairs)
  readMap := MessagePack.readMap 1 readText
  writeRecord fields := do
    let pairs ← writeMany (writePair .ok) fields
    .ok (writeMapHead fields.length ++ pairs)

end ContentSpace.MessagePack

import ContentSpace.Tree.Basic

/-!
# Equality of syntax trees

Two trees are the same when they have the same form and the same parts. Literal doubles are compared
as numbers: zeros of either sign are the same, and a literal that is no number is the same as
nothing, not even as itself.
-/

namespace ContentSpace

/-- Whether two literals are the same. -/
def Literal.same : Literal → Literal → Bool
  | .null, .null => true
  | .bool left, .bool right => left == right
  | .int left, .int right => left == right
  | .float left, .float right => left.sameNumber right
  | .string left, .string right => left == right
  | .blob left, .blob right => left == right
  | _, _ => false

namespace Node

mutual

/-- Whether two nodes are the same. -/
def same : Node → Node → Bool
  | .literal left, .literal right => left.same right
  | .var left, .var right => left == right
  | .assign name left isNew, .assign other right isNewToo =>
    name == other && same left right && isNew == isNewToo
  | .assignLocal name left, .assignLocal other right => name == other && same left right
  | .branch left yes no, .branch right yesToo noToo =>
    same left right && sameAll yes yesToo && sameAll no noToo
  | .sequence left, .sequence right => sameAll left right
  | .apply primitive left, .apply other right => primitive == other && sameAll left right
  | .call left operands, .call right operandsToo =>
    same left right && sameAll operands operandsToo
  | .finish left, .finish right => sameOption left right
  | .store left, .store right => sameStore left right
  | .labeled label left, .labeled other right => label == other && same left right
  | .jump left, .jump right => left == right
  | .sugar left, .sugar right => sameSugar left right
  | _, _ => false

/-- Whether two lists hold the same nodes. -/
def sameAll : List Node → List Node → Bool
  | [], [] => true
  | left :: lefts, right :: rights => same left right && sameAll lefts rights
  | _, _ => false

/-- Whether two optional nodes are the same. -/
def sameOption : Option Node → Option Node → Bool
  | none, none => true
  | some left, some right => same left right
  | _, _ => false

/-- Whether two store operations are the same. -/
def sameStore : StoreCall Node → StoreCall Node → Bool
  | ⟨operator, table, handle, value, tag, operands⟩,
    ⟨operatorToo, tableToo, handleToo, valueToo, tagToo, operandsToo⟩ =>
    operator == operatorToo && table == tableToo && sameOption handle handleToo &&
      sameOption value valueToo && tag == tagToo && sameAll operands operandsToo

/-- Whether two forms are the same. -/
def sameSugar : Sugar Node → Sugar Node → Bool
  | .pipeline left stage, .pipeline right stageToo => same left right && same stage stageToo
  | .whileLoop left body, .whileLoop right bodyToo => same left right && sameAll body bodyToo
  | .forLoop name left body, .forLoop other right bodyToo =>
    name == other && same left right && sameAll body bodyToo
  | .bind name table left, .bind other tableToo right =>
    name == other && table == tableToo && same left right
  | .bindContent name table left, .bindContent other tableToo right =>
    name == other && table == tableToo && same left right
  | .bindSnapshot name table, .bindSnapshot other tableToo => name == other && table == tableToo
  | .bindInside name table left body, .bindInside other tableToo right bodyToo =>
    name == other && table == tableToo && same left right && sameAll body bodyToo
  | .guard left, .guard right => same left right
  | .batch name table left mode, .batch other tableToo right modeToo =>
    name == other && table == tableToo && same left right && mode == modeToo
  | .scope name parent body, .scope other parentToo bodyToo =>
    name == other && parent == parentToo && sameAll body bodyToo
  | .within table body, .within tableToo bodyToo => table == tableToo && sameAll body bodyToo
  | _, _ => false

end

instance : BEq Node := ⟨same⟩

end Node

/-- Whether two blocks are the same. -/
def Block.same (left right : Block) : Bool :=
  left.name == right.name && left.parameters == right.parameters &&
    left.activeTable == right.activeTable && Node.sameAll left.body right.body

instance : BEq Block := ⟨Block.same⟩

/-- Whether two programs are the same. -/
def Program.same (left right : Program) : Bool :=
  left.name == right.name && left.tables == right.tables && left.blocks == right.blocks

instance : BEq Program := ⟨Program.same⟩

end ContentSpace

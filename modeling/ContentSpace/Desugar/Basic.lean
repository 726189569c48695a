import ContentSpace.Desugar.Expansion
import ContentSpace.Desugar.Temporary

/-!
# Desugaring

Desugaring replaces every form of sugar by its expansion, from the leaves to the root. All other
nodes stay as they are around their desugared children. The value of a pipeline is passed to its
stage while the stage is desugared: a name is called with it, a call takes it as its first argument,
and a store operation as its main operand.
-/

namespace ContentSpace

/-- What is built with temporary names. -/
abbrev Desugaring := StateM Temporaries

namespace Node

mutual

/-- A node without sugar, to which a value is passed if there is one. -/
def desugarWith (piped : Option Node) : Node → Desugaring Node
  | .literal content => return Expansion.applied (.literal content) piped
  | .var name => return match piped with
    | none => .var name
    | some value => .call (.var name) [value]
  | .assign name value isNew => do
    let value ← desugarWith none value
    return Expansion.applied (.assign name value isNew) piped
  | .assignLocal name value => do
    let value ← desugarWith none value
    return Expansion.applied (.assignLocal name value) piped
  | .branch condition yes no => do
    let condition ← desugarWith none condition
    let yes ← desugarAll yes
    let no ← desugarAll no
    return Expansion.applied (.branch condition yes no) piped
  | .sequence body => do
    let body ← desugarAll body
    return Expansion.applied (.sequence body) piped
  | .apply primitive operands => do
    let operands ← desugarAll operands
    return Expansion.applied (.apply primitive operands) piped
  | .call target arguments =>
    match piped with
    | none => do
      let target ← desugarWith none target
      let arguments ← desugarAll arguments
      return .call target arguments
    | some value => do
      let arguments ← desugarAll arguments
      let target ← desugarWith none target
      return .call target (value :: arguments)
  | .finish none => return Expansion.applied (.finish none) piped
  | .finish (some result) => do
    let result ← desugarWith none result
    return Expansion.applied (.finish (some result)) piped
  | .store operation => do
    let operation ← desugarStore operation
    return Expansion.supplied operation piped
  | .labeled label body => do
    let body ← desugarWith none body
    return Expansion.applied (.labeled label body) piped
  | .jump label => return Expansion.applied (.jump label) piped
  | .sugar form => do
    let node ← desugarForm form
    return Expansion.applied node piped

/-- Each node without sugar. -/
def desugarAll : List Node → Desugaring (List Node)
  | [] => return []
  | node :: rest => do
    let node ← desugarWith none node
    let rest ← desugarAll rest
    return node :: rest

/-- An optional node without sugar. -/
def desugarOption : Option Node → Desugaring (Option Node)
  | none => return none
  | some node => do
    let node ← desugarWith none node
    return some node

/-- A store operation whose operands are without sugar. -/
def desugarStore : StoreCall Node → Desugaring (StoreCall Node)
  | ⟨operator, table, handle, value, tag, arguments⟩ => do
    let handle ← desugarOption handle
    let value ← desugarOption value
    let arguments ← desugarAll arguments
    return ⟨operator, table, handle, value, tag, arguments⟩

/-- The expansion of a form. -/
def desugarForm : Sugar Node → Desugaring Node
  | .pipeline value stage => do
    let value ← desugarWith none value
    desugarWith (some value) stage
  | .whileLoop condition body => do
    let condition ← desugarWith none condition
    let body ← desugarAll body
    let label ← Temporaries.fresh "loop"
    return Expansion.loop label condition body
  | .forLoop binding iterable body => do
    let collection ← Temporaries.fresh "coll"
    let index ← Temporaries.fresh "idx"
    let iterable ← desugarWith none iterable
    let body ← desugarAll body
    let label ← Temporaries.fresh "loop"
    return Expansion.forLoop collection index label binding iterable body
  | .bind name table value => do
    let temporary ← Temporaries.fresh "bind"
    let value ← desugarWith none value
    return Expansion.bind temporary name table value
  | .bindContent name table handle => do
    let handle ← desugarWith none handle
    return .assign name (Expansion.content table handle) true
  | .bindSnapshot name table => return .assign name (Expansion.snapshot table) true
  | .bindInside name table handle body => do
    let handle ← desugarWith none handle
    let body ← desugarAll body
    return .sequence (.assignLocal name (Expansion.content table handle) :: body)
  | .guard condition => do
    let condition ← desugarWith none condition
    return .apply .assert [condition]
  | .batch name table elements mode => do
    let collection ← Temporaries.fresh "src"
    let results ← Temporaries.fresh "acc"
    let index ← Temporaries.fresh "i"
    let elements ← desugarWith none elements
    let label ← Temporaries.fresh "loop"
    return Expansion.batch collection results index label name table elements mode
  | .scope name parent body => do
    let body ← desugarAll body
    return Expansion.scope name parent body
  | .within _ body => do
    let body ← desugarAll body
    return .sequence body

end

/-- A node without sugar. -/
def desugar (node : Node) : Desugaring Node := desugarWith none node

end Node

/-- A block without sugar. -/
def Block.desugar (block : Block) : Desugaring Block := do
  let body ← Node.desugarAll block.body
  return { block with body }

/-- The blocks without sugar, with temporary names of one supply. -/
def Block.desugarAll : List Block → Desugaring (List Block)
  | [] => return []
  | block :: rest => do
    let block ← block.desugar
    let rest ← Block.desugarAll rest
    return block :: rest

/-- A program without sugar. -/
def Program.desugar (program : Program) : Desugaring Program := do
  let blocks ← Block.desugarAll program.blocks
  return { program with blocks }

end ContentSpace

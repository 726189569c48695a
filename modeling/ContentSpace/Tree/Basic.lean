import ContentSpace.Number.Double
import ContentSpace.Tree.Operator

/-!
# Syntax trees

A program is a tree of nodes. Some forms are there for convenience only; they are wrapped as sugar
and stand for combinations of the other forms. A tree without sugar is canonical.

The children of a node are listed in the order in which they are evaluated. They are smaller than
the node, so a function on nodes may call itself on them, and a property of nodes that holds of a
node whenever it holds of its children holds of all nodes.
-/

namespace ContentSpace

/-- A literal. -/
inductive Literal where
  /-- The null literal. -/
  | null
  /-- A truth value. -/
  | bool (b : Bool)
  /-- A whole number. -/
  | int (n : Int64)
  /-- A double. -/
  | float (x : Double)
  /-- Text, with its escapes interpreted. -/
  | string (text : String)
  /-- An embedded value, as it was written. -/
  | blob (text : String)

/-- A call of a store operation. Its table is always named. -/
structure StoreCall (α : Type) where
  /-- The operation. -/
  operator : StoreOperator
  /-- The table it works on. -/
  table : String
  /-- The handle to work on. -/
  handle : Option α := none
  /-- The value to store. -/
  value : Option α := none
  /-- The tag of what is stored, or the name of the scope that is opened. -/
  tag : Option String := none
  /-- The other operands. -/
  arguments : List α := []

namespace StoreCall

variable {α : Type}

/-- The operands in the order in which they are evaluated. -/
def operands (call : StoreCall α) : List α :=
  call.handle.toList ++ call.value.toList ++ call.arguments

/-- Whether the main operand was left out. -/
def lacksMain (call : StoreCall α) : Bool :=
  match call.operator.slot with
  | .value => call.value.isNone
  | .handle => call.handle.isNone
  | .arguments => call.arguments.length < call.operator.leastArity
  | .none => false

/-- Whether a pipeline can supply the main operand. -/
def acceptsPiped (call : StoreCall α) : Bool :=
  match call.operator.slot with
  | .value => call.value.isNone
  | .handle => call.handle.isNone
  | .arguments => true
  | .none => false

/-- The call with its main operand supplied; an operation without one refuses it. -/
def supply? (call : StoreCall α) (operand : α) : Option (StoreCall α) :=
  match call.operator.slot with
  | .value => some { call with value := some operand }
  | .handle => some { call with handle := some operand }
  | .arguments => some { call with arguments := operand :: call.arguments }
  | .none => none

end StoreCall

/-- What a batch does with each element. -/
inductive BatchMode where
  /-- Each element is stored. -/
  | collapse
  /-- Each element is a handle whose content is looked up. -/
  | resolve
  deriving DecidableEq

/-- The store operation of a batch. -/
def BatchMode.operator : BatchMode → StoreOperator
  | collapse => .collapse
  | resolve => .resolve

/-- The name of a mode. -/
def BatchMode.name (mode : BatchMode) : String := mode.operator.name

/-- Forms that stand for combinations of other forms. -/
inductive Sugar (α : Type) where
  /-- A value passed on to a stage. -/
  | pipeline (value stage : α)
  /-- A loop while a condition holds. -/
  | whileLoop (condition : α) (body : List α)
  /-- A loop over the elements of a collection. -/
  | forLoop (binding : String) (iterable : α) (body : List α)
  /-- A name for the handle of a stored value. -/
  | bind (name table : String) (value : α)
  /-- A name for the content of a handle. -/
  | bindContent (name table : String) (handle : α)
  /-- A name for a snapshot of a table. -/
  | bindSnapshot (name table : String)
  /-- A name for the content of a handle inside a body. -/
  | bindInside (name table : String) (handle : α) (body : List α)
  /-- A condition that must hold. -/
  | guard (condition : α)
  /-- A name for the results of an operation on each element. -/
  | batch (name table : String) (elements : α) (mode : BatchMode)
  /-- A body in which a new table inside another one is active. -/
  | scope (name parent : String) (body : List α)
  /-- A body in which a table is active. -/
  | within (table : String) (body : List α)

namespace Sugar

variable {α : Type}

/-- The stable name of a form. -/
def name : Sugar α → String
  | pipeline .. => "pipeline"
  | whileLoop .. => "while"
  | forLoop .. => "for"
  | bind .. => "latent_bind"
  | bindContent .. => "latent_value"
  | bindSnapshot .. => "latent_snapshot"
  | bindInside .. => "latent_match"
  | guard .. => "latent_guard"
  | batch .. => "latent_batch"
  | scope .. => "latent_scope"
  | within .. => "using"

/-- The children of a form in the order in which they are evaluated. -/
def children : Sugar α → List α
  | pipeline value stage => [value, stage]
  | whileLoop condition body => condition :: body
  | forLoop _ iterable body => iterable :: body
  | bind _ _ value => [value]
  | bindContent _ _ handle => [handle]
  | bindSnapshot _ _ => []
  | bindInside _ _ handle body => handle :: body
  | guard condition => [condition]
  | batch _ _ elements _ => [elements]
  | scope _ _ body => body
  | within _ body => body

end Sugar

/-- A node of a syntax tree. -/
inductive Node where
  /-- A literal. -/
  | literal (literal : Literal)
  /-- A variable. -/
  | var (name : String)
  /-- A variable is bound, newly or again. -/
  | assign (name : String) (value : Node) (isNew : Bool)
  /-- A variable is bound up to the end of its block. -/
  | assignLocal (name : String) (value : Node)
  /-- A choice between two sequences. -/
  | branch (condition : Node) (yes no : List Node)
  /-- A sequence. -/
  | sequence (body : List Node)
  /-- A primitive operation on operands. -/
  | apply (primitive : Primitive) (operands : List Node)
  /-- A call. -/
  | call (target : Node) (arguments : List Node)
  /-- The end of a block, perhaps with a result. -/
  | finish (result : Option Node)
  /-- A store operation. -/
  | store (call : StoreCall Node)
  /-- A node that can be entered again. -/
  | labeled (label : String) (body : Node)
  /-- The enclosing node of a label is entered again. -/
  | jump (label : String)
  /-- A form that stands for others. -/
  | sugar (form : Sugar Node)

namespace Node

instance : Inhabited Node := ⟨.literal .null⟩

/-- A literal whole number. -/
def int (n : Int64) : Node := literal (.int n)

/-- A literal text. -/
def string (text : String) : Node := literal (.string text)

/-- Whether a node is itself a form that stands for others. -/
def isSugar : Node → Bool
  | sugar _ => true
  | _ => false

/-- The children of a node in the order in which they are evaluated. -/
def children : Node → List Node
  | literal _ | var _ | jump _ => []
  | assign _ value _ => [value]
  | assignLocal _ value => [value]
  | branch condition yes no => condition :: yes ++ no
  | sequence body => body
  | apply _ operands => operands
  | call target arguments => target :: arguments
  | finish result => result.toList
  | store operation => operation.operands
  | labeled _ body => [body]
  | sugar form => form.children

/-- A child is smaller than its node. -/
theorem sizeOf_lt_of_mem_children {node child : Node} (h : child ∈ node.children) :
    sizeOf child < sizeOf node := by
  have inList {body : List Node} (h : child ∈ body) : sizeOf child < sizeOf body :=
    List.sizeOf_lt_of_mem h
  cases node with
  | literal | var | jump => simp [children] at h
  | assign name value isNew =>
    obtain rfl : child = value := by simpa only [children, List.mem_singleton] using h
    simp only [assign.sizeOf_spec]; omega
  | assignLocal name value =>
    obtain rfl : child = value := by simpa only [children, List.mem_singleton] using h
    simp only [assignLocal.sizeOf_spec]; omega
  | labeled label body =>
    obtain rfl : child = body := by simpa only [children, List.mem_singleton] using h
    simp only [labeled.sizeOf_spec]; omega
  | branch condition yes no =>
    simp only [children, List.mem_cons, List.mem_append, List.cons_append] at h
    rcases h with rfl | h | h
    · simp; omega
    · have := inList h; simp; omega
    · have := inList h; simp; omega
  | sequence body => have := inList (by simpa [children] using h); simp; omega
  | apply primitive operands => have := inList (by simpa [children] using h); simp; omega
  | call target arguments =>
    simp only [children, List.mem_cons] at h
    rcases h with rfl | h
    · simp; omega
    · have := inList h; simp; omega
  | finish result =>
    simp only [children, Option.mem_toList] at h
    subst h
    simp; omega
  | store operation =>
    obtain ⟨operator, table, handle, value, tag, arguments⟩ := operation
    simp only [children, StoreCall.operands, List.mem_append, Option.mem_toList] at h
    rcases h with (rfl | rfl) | h
    · simp; omega
    · simp; omega
    · have := inList h; simp; omega
  | sugar form =>
    cases form <;> simp only [children, Sugar.children, List.mem_cons, List.not_mem_nil] at h
    case pipeline => rcases h with rfl | rfl | h <;> simp_all <;> omega
    case whileLoop | bindInside | forLoop =>
      rcases h with rfl | h
      · simp; omega
      · have := inList h; simp; omega
    case bind | bindContent | guard | batch => rcases h with rfl | h <;> simp_all; omega
    case scope | within => have := inList h; simp; omega

/-- What holds of a node whenever it holds of its children holds of every node. -/
theorem childInduction {motive : Node → Prop}
    (step : ∀ node : Node, (∀ child ∈ node.children, motive child) → motive node) (node : Node) :
    motive node :=
  step node fun child _ => childInduction step child
termination_by sizeOf node
decreasing_by exact sizeOf_lt_of_mem_children ‹_›

end Node

/-- A block: named statements with parameters. -/
structure Block where
  /-- The name of the block. -/
  name : String
  /-- The parameters, all different. -/
  parameters : List String
  /-- The table that is active in the block. -/
  activeTable : Option String
  /-- The statements. -/
  body : List Node

/-- A program. -/
structure Program where
  /-- The name of the program. -/
  name : String
  /-- The declared tables in order. -/
  tables : List String
  /-- The blocks in order. -/
  blocks : List Block

namespace Program

/-- The statements of all blocks in order. -/
def statements (program : Program) : List Node := program.blocks.flatMap Block.body

/-- The first block with a name. -/
def block? (program : Program) (name : String) : Option Block :=
  program.blocks.find? fun block => block.name == name

end Program

end ContentSpace

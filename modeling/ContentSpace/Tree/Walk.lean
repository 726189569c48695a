import ContentSpace.Tree.Basic

/-!
# Walking syntax trees

A walk enters a node, tells what the node is, walks its children in order, and leaves it. What a
tree contains is read off the list of its nodes in the order of a walk.
-/

namespace ContentSpace

/-- What a walk tells of a tree. -/
inductive WalkEvent where
  /-- A node is entered. -/
  | enter
  /-- A node is left. -/
  | leave
  /-- The node is a literal. -/
  | literal (literal : Literal)
  /-- The node is a variable. -/
  | var (name : String)
  /-- The node binds a name. -/
  | binding (name : String) (isLocal : Bool)
  /-- The node applies a primitive operation to so many operands. -/
  | apply (primitive : Primitive) (count : Nat)
  /-- The node is a store operation. -/
  | store (operation : StoreCall Node)
  /-- The node carries a label. -/
  | label (label : String)
  /-- The node enters a label again. -/
  | jump (label : String)
  /-- The node is a form that stands for others. -/
  | sugar (form : Sugar Node)

namespace Node

/-- What a walk tells of a node itself. -/
def events : Node → List WalkEvent
  | .literal content => [.literal content]
  | .var name => [.var name]
  | .assign name _ _ => [.binding name false]
  | .assignLocal name _ => [.binding name true]
  | .apply primitive operands => [.apply primitive operands.length]
  | .store operation => [.store operation]
  | .labeled label _ => [.label label]
  | .jump label => [.jump label]
  | .sugar form => [.sugar form]
  | .branch .. | .sequence _ | .call .. | .finish _ => []

/-- All that a walk tells of a tree. -/
def walk (node : Node) : List WalkEvent :=
  .enter :: node.events ++
    node.children.attach.flatMap (fun ⟨child, _⟩ => walk child) ++ [.leave]
termination_by sizeOf node
decreasing_by exact sizeOf_lt_of_mem_children ‹_›

/-- The nodes of a tree, each before its children. -/
def descendants (node : Node) : List Node :=
  node :: node.children.attach.flatMap fun ⟨child, _⟩ => descendants child
termination_by sizeOf node
decreasing_by exact sizeOf_lt_of_mem_children ‹_›

/-- A walk enters a node, tells what it is, walks its children and leaves it. -/
theorem walk_eq (node : Node) :
    node.walk = .enter :: node.events ++ node.children.flatMap walk ++ [.leave] := by
  rw [walk]
  simp [List.flatMap_subtype]

/-- The nodes of a tree are its root and the nodes of its children. -/
theorem descendants_eq (node : Node) :
    node.descendants = node :: node.children.flatMap descendants := by
  rw [descendants]
  simp [List.flatMap_subtype]

/-- Number of forms in a tree that stand for others. -/
def sugarCount (node : Node) : Nat := node.descendants.countP isSugar

/-- Whether no form in a tree stands for others. -/
def isCanonical (node : Node) : Bool := node.sugarCount == 0

/-- The table of a store operation. -/
def table? : Node → Option String
  | .store operation => some operation.table
  | _ => none

/-- The name that a node binds. -/
def binding? : Node → Option String
  | .assign name _ _ => some name
  | .assignLocal name _ => some name
  | _ => none

/-- The tables that trees use, each once, in the order of their first use. -/
def usedTables (nodes : List Node) : List String :=
  ((nodes.flatMap descendants).filterMap table?).eraseDups

/-- The names that trees bind, with repetitions, in order. -/
def bindings (nodes : List Node) : List String :=
  (nodes.flatMap descendants).filterMap binding?

end Node

/-- Number of forms in a program that stand for others. -/
def Program.sugarCount (program : Program) : Nat :=
  (program.statements.flatMap Node.descendants).countP Node.isSugar

/-- Whether no form in a program stands for others. -/
def Program.isCanonical (program : Program) : Bool := program.statements.all Node.isCanonical

end ContentSpace

import ContentSpace.Tree.Walk
import Mathlib.Algebra.BigOperators.Group.List.Basic

/-!
# Nodes met on a walk

The nodes of a tree are the ones that a walk enters. What holds of all of them holds of the root and
of the nodes of each child, so that properties of whole trees go through by induction on children.
The forms that stand for others are counted alike on a walk and among the nodes.
-/

namespace ContentSpace

namespace Node

/-- A node of a tree is its root or a node of a child. -/
theorem mem_descendants_iff {node inner : Node} :
    inner ∈ node.descendants ↔
      inner = node ∨ ∃ child ∈ node.children, inner ∈ child.descendants := by
  rw [descendants_eq, List.mem_cons, List.mem_flatMap]

/-- What holds of all nodes holds of the root and of the nodes of the children. -/
theorem forall_descendants_iff {property : Node → Prop} {node : Node} :
    (∀ inner ∈ node.descendants, property inner) ↔
      property node ∧ ∀ child ∈ node.children, ∀ inner ∈ child.descendants, property inner := by
  rw [descendants_eq, List.forall_mem_cons, List.forall_mem_flatMap]

end Node

/-- Whether a walk tells of a form that stands for others. -/
def WalkEvent.tellsSugar : WalkEvent → Bool
  | sugar _ => true
  | _ => false

/-- A walk tells of as many forms that stand for others as there are among the nodes. -/
theorem Node.countP_tellsSugar_walk (node : Node) :
    node.walk.countP WalkEvent.tellsSugar = node.sugarCount := by
  induction node using Node.childInduction with
  | step node ih =>
    have root : node.events.countP WalkEvent.tellsSugar = if node.isSugar then 1 else 0 := by
      cases node <;> rfl
    have inner : node.children.map (List.countP WalkEvent.tellsSugar ∘ walk) =
        node.children.map (List.countP isSugar ∘ descendants) :=
      List.map_congr_left ih
    have enters : WalkEvent.enter.tellsSugar = false := rfl
    have leaves : WalkEvent.leave.tellsSugar = false := rfl
    rw [walk_eq, sugarCount, descendants_eq]
    simp only [List.cons_append, List.countP_cons, List.countP_append, List.countP_flatMap, root,
      inner, enters, leaves, List.countP_nil]
    grind

end ContentSpace

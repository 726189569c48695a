import ContentSpace.Proofs.Tree.Walk
import ContentSpace.Tree.Equality

/-!
# Trees compared with themselves

Equality of trees compares literal doubles as numbers, so a tree is the same as itself exactly when
every literal double in it is a number.
-/

namespace ContentSpace

/-- A double that is a number is the same number as itself. -/
@[simp] theorem Double.sameNumber_self (x : Double) : x.sameNumber x = !x.isNaN := by
  simp [sameNumber]

namespace Node

/-- Whether every double that a node holds itself is a number. -/
def holdsNumber : Node → Bool
  | literal (.float x) => !x.isNaN
  | _ => true

/-- A literal double that is no number is the only node that holds none. -/
theorem holdsNumber_iff {node : Node} :
    node.holdsNumber = true ↔ ∀ x, node = literal (.float x) → x.isNaN = false := by
  cases node with
  | literal content => cases content <;> simp [holdsNumber]
  | _ => simp [holdsNumber]

/-- Nodes are compared with themselves one by one. -/
theorem sameAll_self (nodes : List Node) :
    sameAll nodes nodes = nodes.all fun node => node.same node := by
  induction nodes with
  | nil => rw [sameAll, List.all_nil]
  | cons node rest ih => rw [sameAll, ih, List.all_cons]

/-- An operand is compared with itself if it is there. -/
theorem sameOption_self (operand : Option Node) :
    sameOption operand operand = operand.toList.all fun node => node.same node := by
  cases operand <;> simp [sameOption]

/-- The operands of a store operation are compared with themselves. -/
theorem sameStore_self (call : StoreCall Node) :
    sameStore call call = call.operands.all fun node => node.same node := by
  obtain ⟨operator, table, handle, value, tag, arguments⟩ := call
  simp [sameStore, StoreCall.operands, sameOption_self, sameAll_self, Bool.and_assoc]

/-- The children of a form are compared with themselves. -/
theorem sameSugar_self (form : Sugar Node) :
    sameSugar form form = form.children.all fun node => node.same node := by
  cases form <;> simp [sameSugar, Sugar.children, sameAll_self]

/-- A node is the same as itself when it holds a number and its children are the same as
themselves. -/
theorem same_self (node : Node) :
    node.same node = (node.holdsNumber && node.children.all fun child => child.same child) := by
  cases node with
  | literal content => cases content <;> simp [same, Literal.same, holdsNumber, children]
  | _ =>
    simp [same, holdsNumber, children, sameAll_self, sameOption_self, sameStore_self,
      sameSugar_self, Bool.and_assoc]

/-- A tree is the same as itself exactly when every literal double in it is a number. -/
theorem beq_self_iff {node : Node} :
    (node == node) = true ↔ ∀ x, literal (.float x) ∈ node.descendants → x.isNaN = false := by
  show node.same node = true ↔ _
  have unfolded : node.same node = true ↔
      ∀ inner ∈ node.descendants, inner.holdsNumber = true := by
    induction node using childInduction with
    | step node ih =>
      rw [same_self, Bool.and_eq_true, List.all_eq_true, forall_descendants_iff]
      exact and_congr_right fun _ => forall₂_congr ih
  rw [unfolded]
  constructor
  · intro numbers x inside
    exact holdsNumber_iff.mp (numbers _ inside) x rfl
  · intro numbers inner inside
    exact holdsNumber_iff.mpr fun x form => numbers x (form ▸ inside)

end Node

/-- A program is the same as itself exactly when every literal double in it is a number. -/
theorem Program.beq_self_iff {program : Program} :
    (program == program) = true ↔
      ∀ x, .literal (.float x) ∈ program.statements.flatMap Node.descendants →
        x.isNaN = false := by
  have blocks : (program.blocks == program.blocks) =
      program.blocks.all fun block => block.body.all fun node => node == node := by
    induction program.blocks with
    | nil => rfl
    | cons block rest ih =>
      have body : (block == block) = block.body.all fun node => node == node := by
        show Block.same block block = _
        simp [Block.same, Node.sameAll_self]
        rfl
      rw [List.cons_beq_cons, body, ih, List.all_cons]
  show (program.name == program.name && program.tables == program.tables &&
    program.blocks == program.blocks) = true ↔ _
  simp only [beq_self_eq_true, Bool.true_and, blocks, List.all_eq_true, Node.beq_self_iff,
    statements, List.mem_flatMap]
  grind

end ContentSpace

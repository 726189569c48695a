import ContentSpace.Proofs.Tree.Walk

/-!
# Places in syntax trees

A place in a tree is the way to it from the root, as the numbers of the children on that way. Two
nodes that are the same tree can stand at different places; what is said of single occurrences of a
node is said of places.
-/

namespace ContentSpace

namespace Node

/-- The node at a place in a tree. -/
def at? : (place : List Nat) → Node → Option Node
  | [], node => some node
  | i :: place, node => node.children[i]?.bind (at? place)

/-- The node at a place in a list of trees. -/
def atIn? (nodes : List Node) : (place : List Nat) → Option Node
  | [] => none
  | i :: place => nodes[i]?.bind (at? place)

variable {node inner : Node} {nodes : List Node} {i : Nat} {place above below : List Nat}

/-- The root is at the empty place. -/
@[simp] theorem at?_nil : node.at? [] = some node := rfl

/-- A place in a list of trees is a place in one of them. -/
theorem atIn?_cons_eq_some : atIn? nodes (i :: place) = some inner ↔
    ∃ node, nodes[i]? = some node ∧ node.at? place = some inner := by
  rw [atIn?, Option.bind_eq_some_iff]

/-- A way can be gone in two steps. -/
theorem at?_append : node.at? (above ++ below) = (node.at? above).bind (at? below) := by
  induction above generalizing node with
  | nil => rfl
  | cons i above ih =>
    simp only [List.cons_append, at?, Option.bind_assoc]
    exact Option.bind_congr fun _ _ => ih

/-- The nodes of a tree are the nodes at its places. -/
theorem mem_descendants_iff_at? :
    inner ∈ node.descendants ↔ ∃ place, node.at? place = some inner := by
  induction node using childInduction with
  | step node ih =>
    rw [mem_descendants_iff]
    constructor
    · rintro (rfl | ⟨child, member, inside⟩)
      · exact ⟨[], rfl⟩
      · obtain ⟨place, found⟩ := (ih child member).mp inside
        obtain ⟨i, here⟩ := List.mem_iff_getElem?.mp member
        exact ⟨i :: place, atIn?_cons_eq_some.mpr ⟨child, here, found⟩⟩
    · rintro ⟨place, found⟩
      cases place with
      | nil => exact .inl (Option.some.inj found).symm
      | cons i place =>
        obtain ⟨child, here, inside⟩ := atIn?_cons_eq_some.mp found
        have member := List.mem_of_getElem? here
        exact .inr ⟨child, member, (ih child member).mpr ⟨place, inside⟩⟩

end Node

/-- The node at a place in the statements of a program. -/
def Program.at? (program : Program) (place : List Nat) : Option Node :=
  Node.atIn? program.statements place

end ContentSpace

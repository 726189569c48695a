import ContentSpace.Desugar.Expansion
import ContentSpace.Desugar.Temporary
import ContentSpace.Proofs.Tree.Place

/-!
# Marks in syntax trees

A node marks its place when it sets or reads a temporary variable, carries a label, or jumps to one.
Which marks a tree has is told child by child.
-/

namespace ContentSpace

/-- What a node does with a temporary name or a label. -/
inductive Mark where
  /-- A temporary variable is set. -/
  | sets (name : String)
  /-- A temporary variable is read. -/
  | reads (name : String)
  /-- A node carries a label. -/
  | labels (name : String)
  /-- A label is entered again. -/
  | jumps (name : String)

/-- The temporary name or label. -/
def Mark.name : Mark → String
  | sets name | reads name | labels name | jumps name => name

namespace Node

/-- What a node does with a temporary name or a label, if it does something with one. -/
def mark? : Node → Option Mark
  | var name => if Temporaries.isTemporary name then some (.reads name) else none
  | assign name _ _ => if Temporaries.isTemporary name then some (.sets name) else none
  | assignLocal name _ => if Temporaries.isTemporary name then some (.sets name) else none
  | labeled label _ => some (.labels label)
  | jump label => some (.jumps label)
  | _ => none

section

variable {node : Node} {name : String}

/-- A node that sets a temporary variable binds its name. -/
theorem mark?_eq_sets : node.mark? = some (.sets name) ↔
    Temporaries.isTemporary name = true ∧ node.binding? = some name := by
  cases node with
  | assign | assignLocal =>
    simp [mark?, binding?]
    grind
  | _ => simp [mark?, binding?]

/-- A node that reads a temporary variable is that variable. -/
theorem mark?_eq_reads : node.mark? = some (.reads name) ↔
    Temporaries.isTemporary name = true ∧ node = .var name := by
  cases node with
  | var =>
    simp [mark?]
    grind
  | _ => simp [mark?]

/-- A node that carries a label is a labeled node. -/
theorem mark?_eq_labels : node.mark? = some (.labels name) ↔
    ∃ body, node = .labeled name body := by
  cases node <;> simp [mark?]

/-- A node that enters a label again is a jump. -/
theorem mark?_eq_jumps : node.mark? = some (.jumps name) ↔ node = .jump name := by
  cases node <;> simp [mark?]

end

/-- The node at a place has a mark. -/
def HasMark (node : Node) (place : List Nat) (mark : Mark) : Prop :=
  (node.at? place).bind mark? = some mark

/-- The node at a place has a mark, in a row of trees that are numbered from a number on. -/
def HasMarkFrom (first : Nat) (nodes : List Node) (place : List Nat) (mark : Mark) : Prop :=
  ∃ i inner node, place = (first + i) :: inner ∧ nodes[i]? = some node ∧ node.HasMark inner mark

/-- A temporary name or a label occurs in a tree. -/
def Mentions (node : Node) (name : String) : Prop :=
  ∃ place mark, node.HasMark place mark ∧ mark.name = name

/-- A mark is at the root or in a child. -/
theorem hasMark_iff (node : Node) {place : List Nat} {mark : Mark} : node.HasMark place mark ↔
    place = [] ∧ node.mark? = some mark ∨ HasMarkFrom 0 node.children place mark := by
  cases place with
  | nil => simp [HasMark, HasMarkFrom]
  | cons i place =>
    simp [HasMark, HasMarkFrom, at?, Option.bind_assoc, Option.bind_eq_some_iff]

section

variable {first : Nat} {node : Node} {nodes before after : List Node} {place : List Nat}
  {mark : Mark}

/-- A mark in a row of trees is at a place in that row. -/
theorem hasMarkFrom_zero_iff : HasMarkFrom 0 nodes place mark ↔
    ∃ node, atIn? nodes place = some node ∧ node.mark? = some mark := by
  cases place with
  | nil => simp [HasMarkFrom, atIn?]
  | cons i place =>
    simp [HasMarkFrom, HasMark, atIn?, Option.bind_eq_some_iff]
    grind

/-- An empty row has no mark. -/
@[simp] theorem not_hasMarkFrom_nil : ¬ HasMarkFrom first [] place mark := by
  simp [HasMarkFrom]

/-- A mark in a row is in its first tree or in the row of the others. -/
@[simp] theorem hasMarkFrom_cons : HasMarkFrom first (node :: nodes) place mark ↔
    (∃ inner, place = first :: inner ∧ node.HasMark inner mark) ∨
      HasMarkFrom (first + 1) nodes place mark := by
  constructor
  · rintro ⟨_ | i, inner, found, rfl, here, marked⟩
    · cases here
      exact .inl ⟨inner, rfl, marked⟩
    · exact .inr ⟨i, inner, found, by rw [Nat.add_right_comm]; rfl, here, marked⟩
  · rintro (⟨inner, rfl, marked⟩ | ⟨i, inner, found, rfl, here, marked⟩)
    · exact ⟨0, inner, node, rfl, rfl, marked⟩
    · exact ⟨i + 1, inner, found, by rw [Nat.add_right_comm]; rfl, here, marked⟩

/-- A mark in two rows is in the one or, further on, in the other. -/
@[simp] theorem hasMarkFrom_append : HasMarkFrom first (before ++ after) place mark ↔
    HasMarkFrom first before place mark ∨ HasMarkFrom (first + before.length) after place mark := by
  induction before generalizing first with
  | nil => simp
  | cons node before ih =>
    simp only [List.cons_append, hasMarkFrom_cons, ih, List.length_cons, or_assoc]
    rw [Nat.add_assoc, Nat.add_comm 1]

end

section

variable {name label : String} {value condition body : Node} {isNew : Bool}
  {yes no nodes : List Node} {primitive : Primitive} {content : Literal} {call : StoreCall Node}
  {place : List Nat} {mark : Mark}

/-- A literal has no mark. -/
@[simp] theorem not_hasMark_literal : ¬ (literal content).HasMark place mark := by
  simp [hasMark_iff, mark?, children]

/-- A variable has one mark, if its name is temporary. -/
@[simp] theorem hasMark_var : (var name).HasMark place mark ↔
    place = [] ∧ Temporaries.isTemporary name = true ∧ .reads name = mark := by
  simp [hasMark_iff, mark?, children]

/-- A jump has one mark. -/
@[simp] theorem hasMark_jump : (jump label).HasMark place mark ↔
    place = [] ∧ .jumps label = mark := by
  simp [hasMark_iff, mark?, children]

/-- A labeled node has its own mark and those of its body. -/
@[simp] theorem hasMark_labeled : (labeled label body).HasMark place mark ↔
    place = [] ∧ .labels label = mark ∨ ∃ inner, place = 0 :: inner ∧ body.HasMark inner mark := by
  simp [hasMark_iff (labeled label body), mark?, children]

/-- A binding has its own mark, if its name is temporary, and those of its value. -/
@[simp] theorem hasMark_assign : (assign name value isNew).HasMark place mark ↔
    place = [] ∧ Temporaries.isTemporary name = true ∧ .sets name = mark ∨
      ∃ inner, place = 0 :: inner ∧ value.HasMark inner mark := by
  simp [hasMark_iff (assign name value isNew), mark?, children]

/-- A binding up to the end of a block has its own mark, if its name is temporary, and those of its
value. -/
@[simp] theorem hasMark_assignLocal : (assignLocal name value).HasMark place mark ↔
    place = [] ∧ Temporaries.isTemporary name = true ∧ .sets name = mark ∨
      ∃ inner, place = 0 :: inner ∧ value.HasMark inner mark := by
  simp [hasMark_iff (assignLocal name value), mark?, children]

/-- A choice has the marks of its condition and of both sequences. -/
@[simp] theorem hasMark_branch : (branch condition yes no).HasMark place mark ↔
    HasMarkFrom 0 (condition :: yes ++ no) place mark := by
  simp [hasMark_iff (branch condition yes no), mark?, children]

/-- A sequence has the marks of its items. -/
@[simp] theorem hasMark_sequence : (sequence nodes).HasMark place mark ↔
    HasMarkFrom 0 nodes place mark := by
  simp [hasMark_iff (sequence nodes), mark?, children]

/-- A primitive operation has the marks of its operands. -/
@[simp] theorem hasMark_apply : (apply primitive nodes).HasMark place mark ↔
    HasMarkFrom 0 nodes place mark := by
  simp [hasMark_iff (apply primitive nodes), mark?, children]

/-- A store operation has the marks of its operands. -/
@[simp] theorem hasMark_store : (store call).HasMark place mark ↔
    HasMarkFrom 0 call.operands place mark := by
  simp [hasMark_iff (store call), mark?, children]

end

end Node

end ContentSpace

import ContentSpace.Proofs.Desugar.Mark

/-!
# Forms of desugared trees

A node of a desugared tree is plain, or it is the expansion of a form that needs temporary names or
a label. An expansion has marks of its own at fixed places, and the other marks in it are those of
the parts it was made from. A variable of an expansion is set in its sequence before it is read, and
a label of an expansion is entered again at one place in the labeled node.
-/

namespace ContentSpace

namespace Node

/-- Trees in a row below a place, numbered from a number on. -/
def row (above : List Nat) (first : Nat) (nodes : List Node) : List (List Nat × Node) :=
  nodes.zipIdx.map fun (node, i) => (above ++ [first + i], node)

/-- A mark is in one of the parts that stand at places of a tree. -/
def HasMarkAmong (parts : List (List Nat × Node)) (place : List Nat) (mark : Mark) : Prop :=
  ∃ part ∈ parts, ∃ inner, place = part.1 ++ inner ∧ part.2.HasMark inner mark

section

variable {above : List Nat} {first : Nat} {nodes : List Node} {node : Node} {place : List Nat}
  {mark : Mark}

/-- The trees of a row are the trees it is made of. -/
@[simp] theorem map_snd_row : (row above first nodes).map Prod.snd = nodes := by
  rw [row, List.map_map]
  exact List.zipIdx_map_fst 0 nodes

/-- A tree stands in a row at the place with its number. -/
theorem mem_row {part : List Nat × Node} : part ∈ row above first nodes ↔
    ∃ i, nodes[i]? = some part.2 ∧ part.1 = above ++ [first + i] := by
  obtain ⟨place, node⟩ := part
  simp only [row, List.mem_map, Prod.exists, List.mk_mem_zipIdx_iff_getElem?, Prod.mk.injEq]
  grind

/-- No parts have no mark. -/
@[simp] theorem not_hasMarkAmong_nil : ¬ HasMarkAmong [] place mark := by
  simp [HasMarkAmong]

/-- A mark among parts is in the first of them or among the others. -/
@[simp] theorem hasMarkAmong_cons {part : List Nat × Node} {parts : List (List Nat × Node)} :
    HasMarkAmong (part :: parts) place mark ↔
      (∃ inner, place = part.1 ++ inner ∧ part.2.HasMark inner mark) ∨
        HasMarkAmong parts place mark := by
  simp only [HasMarkAmong, List.mem_cons, exists_eq_or_imp]

/-- The marks in a row are the marks of its trees. -/
@[simp] theorem hasMarkAmong_row : HasMarkAmong (row above first nodes) place mark ↔
    ∃ inner, place = above ++ inner ∧ HasMarkFrom first nodes inner mark := by
  constructor
  · rintro ⟨part, member, inner, rfl, marked⟩
    obtain ⟨i, here, stands⟩ := mem_row.mp member
    exact ⟨(first + i) :: inner, by simp [stands], i, inner, part.2, rfl, here, marked⟩
  · rintro ⟨_, rfl, i, inner, node, rfl, here, marked⟩
    exact ⟨(above ++ [first + i], node), mem_row.mpr ⟨i, here, rfl⟩, inner, by simp, marked⟩

end

/-- The forms of the nodes of desugared trees, each with its own marks and with its parts. -/
inductive Form : Node → List (List Nat × Mark) → List (List Nat × Node) → Prop where
  /-- A node without a mark, made from its children. -/
  | plain {node : Node} : node.mark? = none → Form node [] (row [] 0 node.children)
  /-- A loop while a condition holds. -/
  | loop {label : String} {condition : Node} {body : List Node} :
      Form (Expansion.loop label condition body)
        [([], .labels label), ([0, 1 + body.length], .jumps label)]
        (([0, 0], condition) :: row [0] 1 body)
  /-- A loop over a collection. -/
  | forLoop {collection index label binding : String} {iterable : Node} {body : List Node} :
      Temporaries.isTemporary collection = true → Temporaries.isTemporary index = true →
      Temporaries.isTemporary binding = false → collection ≠ index →
      Form (Expansion.forLoop collection index label binding iterable body)
        [([0], .sets collection), ([1], .sets index), ([2], .labels label),
          ([2, 0, 0, 0], .reads index), ([2, 0, 0, 1, 0], .reads collection),
          ([2, 0, 1, 0, 0], .reads collection), ([2, 0, 1, 0, 1], .reads index),
          ([2, 0, 2 + body.length], .sets index), ([2, 0, 2 + body.length, 0, 0], .reads index),
          ([2, 0, 2 + body.length + 1], .jumps label)]
        (([0, 0], iterable) :: row [2, 0] 2 body)
  /-- A name for a handle. -/
  | bind {temporary name table : String} {value : Node} :
      Temporaries.isTemporary temporary = true → Temporaries.isTemporary name = false →
      Form (Expansion.bind temporary name table value)
        [([0], .sets temporary), ([1, 0, 0], .reads temporary)] [([0, 0], value)]
  /-- A batch. -/
  | batch {collection results index label name table : String} {elements : Node}
      {mode : BatchMode} :
      Temporaries.isTemporary collection = true → Temporaries.isTemporary results = true →
      Temporaries.isTemporary index = true → Temporaries.isTemporary name = false →
      collection ≠ results → collection ≠ index → results ≠ index →
      Form (Expansion.batch collection results index label name table elements mode)
        [([0], .sets collection), ([1], .sets results), ([2], .sets index), ([3], .labels label),
          ([3, 0, 0, 0], .reads index), ([3, 0, 0, 1, 0], .reads collection),
          ([3, 0, 1], .sets results), ([3, 0, 1, 0, 0], .reads results),
          ([3, 0, 1, 0, 1, 0, 0], .reads collection), ([3, 0, 1, 0, 1, 0, 1], .reads index),
          ([3, 0, 2], .sets index), ([3, 0, 2, 0, 0], .reads index), ([3, 0, 3], .jumps label),
          ([4, 0], .reads results)]
        [([0, 0], elements)]

namespace Form

variable {node : Node} {own : List (List Nat × Mark)} {parts : List (List Nat × Node)}

/-- The marks in a node are its own and those of its parts. -/
theorem hasMark_iff (form : Form node own parts) {place : List Nat} {mark : Mark} :
    node.HasMark place mark ↔ (place, mark) ∈ own ∨ HasMarkAmong parts place mark := by
  cases form with
  | plain unmarked => simp [Node.hasMark_iff node, unmarked]
  | loop =>
    simp [Expansion.loop, and_or_left, exists_or, eq_comm]
    exact iff_of_eq (by ac_rfl)
  | forLoop collection index binding =>
    simp [Expansion.forLoop, Expansion.indexLoop, Expansion.loop, Expansion.element, int,
      collection, index, binding, and_or_left, exists_or, eq_comm]
    exact iff_of_eq (by ac_rfl)
  | bind temporary name =>
    simp [Expansion.bind, StoreCall.operands, temporary, name, and_or_left, exists_or, eq_comm]
    exact iff_of_eq (by ac_rfl)
  | @batch _ _ _ _ _ _ _ mode collection results index name =>
    cases mode <;>
      simp [Expansion.batch, Expansion.indexLoop, Expansion.loop, Expansion.element, int,
        Expansion.batchStep, StoreCall.operands, collection, results, index, name, and_or_left,
        exists_or, eq_comm] <;>
      exact iff_of_eq (by ac_rfl)

/-- The parts of a node stand at their places in it. -/
theorem at?_part (form : Form node own parts) : ∀ part ∈ parts, node.at? part.1 = some part.2 := by
  cases form with
  | plain =>
    intro part member
    obtain ⟨i, here, stands⟩ := mem_row.mp member
    simp [stands, at?, here]
  | loop =>
    refine List.forall_mem_cons.mpr ⟨rfl, fun part member => ?_⟩
    obtain ⟨i, here, stands⟩ := mem_row.mp member
    obtain ⟨within, -⟩ := List.getElem?_eq_some_iff.mp here
    simp [stands, Expansion.loop, at?, children, Nat.add_comm _ i,
      List.getElem?_append_left within, here]
  | forLoop =>
    refine List.forall_mem_cons.mpr ⟨rfl, fun part member => ?_⟩
    obtain ⟨i, here, stands⟩ := mem_row.mp member
    obtain ⟨within, -⟩ := List.getElem?_eq_some_iff.mp here
    simp [stands, Expansion.forLoop, Expansion.indexLoop, Expansion.loop, at?, children,
      Nat.add_comm _ i, List.getElem?_append_left within, here]
  | bind => exact List.forall_mem_singleton.mpr rfl
  | batch => exact List.forall_mem_singleton.mpr rfl

/-- An expansion labels a node and enters its label again at one place in that node. -/
theorem of_label (form : Form node own parts) {label : String} {place : List Nat}
    (member : (place, .labels label) ∈ own ∨ (place, .jumps label) ∈ own) :
    ∃ above below, (∀ place, (place, .labels label) ∈ own ↔ place = above) ∧
      ∀ place, (place, .jumps label) ∈ own ↔ place = above ++ 0 :: below := by
  cases form with
  | plain => simp at member
  | @loop mine _ body =>
    have same : label = mine := by
      simp at member
      exact member.elim And.right And.right
    subst same
    exact ⟨[], [1 + body.length], by simp, by simp⟩
  | @forLoop _ _ mine _ _ body =>
    have same : label = mine := by
      simp at member
      exact member.elim And.right And.right
    subst same
    exact ⟨[2], [2 + body.length + 1], by simp, by simp⟩
  | bind => simp at member
  | @batch _ _ _ mine =>
    have same : label = mine := by
      simp at member
      exact member.elim And.right And.right
    subst same
    exact ⟨[3], [3], by simp, by simp⟩

end Form

/-- An expansion introduces temporary variables around the parts it was made from. -/
inductive Introduces : Node → (temporaries : List String) → (parts : List Node) → Prop where
  /-- A loop over a collection has the collection and an index. -/
  | forLoop {collection index label binding : String} {iterable : Node} {body : List Node} :
      Introduces (Expansion.forLoop collection index label binding iterable body)
        [collection, index] (iterable :: body)
  /-- A name for a handle has the value that is stored. -/
  | bind {temporary name table : String} {value : Node} :
      Introduces (Expansion.bind temporary name table value) [temporary] [value]
  /-- A batch has the collection, the results and an index. -/
  | batch {collection results index label name table : String} {elements : Node}
      {mode : BatchMode} :
      Introduces (Expansion.batch collection results index label name table elements mode)
        [collection, results, index] [elements]

/-- An expansion that sets or reads a temporary variable introduces it. It is a sequence with an
item that sets the variable; every other place where it is set, and every place where it is read, is
inside a later item. -/
theorem Form.of_variable {node : Node} {own : List (List Nat × Mark)}
    {parts : List (List Nat × Node)} (form : Form node own parts) {name : String} {place : List Nat}
    (member : (place, .sets name) ∈ own ∨ (place, .reads name) ∈ own) :
    ∃ items temporaries first value, node = .sequence items ∧
      Introduces node temporaries (parts.map Prod.snd) ∧ name ∈ temporaries ∧
      items[first]? = some (.assignLocal name value) ∧
      (∀ place, (place, .sets name) ∈ own →
        place = [first] ∨ ∃ j below, first < j ∧ place = j :: below) ∧
      ∀ place, (place, .reads name) ∈ own → ∃ j below, first < j ∧ place = j :: below := by
  cases form with
  | plain => simp at member
  | loop => simp at member
  | @forLoop collection index _ _ iterable body _ _ _ distinct =>
    have named : name = collection ∨ name = index := by
      simp at member
      tauto
    rcases named with rfl | rfl
    · refine ⟨_, _, 0, iterable, rfl, by simpa using .forLoop, by simp, rfl, ?_, ?_⟩
      · simp [distinct]
      · simp [distinct]
    · refine ⟨_, _, 1, int 0, rfl, by simpa using .forLoop, by simp, rfl, ?_, ?_⟩
      · simp [distinct.symm]
      · simp [distinct.symm]
  | @bind temporary _ _ value =>
    have named : name = temporary := by
      simp at member
      exact member.elim And.right And.right
    subst named
    refine ⟨_, _, 0, value, rfl, by simpa using .bind, by simp, rfl, ?_, ?_⟩
    · simp
    · simp
  | @batch collection results index _ _ _ elements _ _ _ _ _ others count step =>
    have named : name = collection ∨ name = results ∨ name = index := by
      simp at member
      tauto
    rcases named with rfl | rfl | rfl
    · refine ⟨_, _, 0, elements, rfl, by simpa using .batch, by simp, rfl, ?_, ?_⟩
      · simp [others, count]
      · simp [others, count]
    · refine ⟨_, _, 1, _, rfl, by simpa using .batch, by simp, rfl, ?_, ?_⟩
      · simp [others.symm, step]
      · simp [others.symm, step]
    · refine ⟨_, _, 2, _, rfl, by simpa using .batch, by simp, rfl, ?_, ?_⟩
      · simp [count.symm, step.symm]
      · simp [count.symm, step.symm]

end Node

end ContentSpace

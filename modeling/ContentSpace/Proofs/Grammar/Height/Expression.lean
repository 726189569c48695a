import ContentSpace.Proofs.Grammar.Expression
import ContentSpace.Proofs.Tree.Height

/-!
# How high expressions become

An expression takes up room for what nests, and gives it back where a chain of operators, fields or
arguments ends. What is built before a chain may therefore be as high as the room allows, and the
chain adds as many levels again. So the height of an expression is bounded by the square of its room
and not by a multiple of it.

The three chains around one atom, of indices, of operators and of stages, each add a level for a
unit of room; the atom itself adds at most two levels to an expression with one unit less.
-/

namespace ContentSpace

namespace Grammar

/-- The most levels of an expression with a certain room. -/
def expressionLevels : (room : Nat) → Nat
  | 0 => 0
  | room + 1 => expressionLevels room + 3 * room + 2

/-- The most levels grow with the square of the room. -/
theorem two_mul_expressionLevels (room : Nat) :
    2 * expressionLevels room = room * (3 * room + 1) := by
  induction room with
  | zero => rfl
  | succ room ih =>
    rw [expressionLevels]
    grind

end Grammar

open Grammar

namespace ExpressionTree

variable {levels : Nat}

/-- A negative has one more level than its operand. -/
theorem negated {node : Node} (tree : ExpressionTree levels node) :
    ExpressionTree (levels + 1) (negated node) := by
  unfold Grammar.negated
  split
  · split
    · obtain ⟨fewer, rfl⟩ := tree.exists_eq_succ
      exact .apply (List.forall_mem_singleton.mpr (.literal _))
    · exact .literal _
  · exact .literal _
  · exact .apply (List.forall_mem_singleton.mpr tree)

/-- A field has one more level than its object. -/
theorem fieldOf {node : Node} (tree : ExpressionTree levels node) (name : String) :
    ExpressionTree (levels + 1) (fieldOf node name) := by
  obtain ⟨fewer, rfl⟩ := tree.exists_eq_succ
  exact .apply (by simpa using ⟨tree, .literal _⟩)

/-- An object has one more level than its fields. -/
theorem objectOf {fields : List (String × Node)}
    (trees : ∀ field ∈ fields, ExpressionTree levels field.2) :
    ExpressionTree (levels + 1) (objectOf fields) := by
  refine .apply fun node member => ?_
  obtain ⟨field, inside, here⟩ := List.mem_flatMap.mp member
  have tree := trees field inside
  rcases List.mem_pair.mp here with rfl | rfl
  · obtain ⟨fewer, rfl⟩ := tree.exists_eq_succ
    exact .literal _
  · exact tree

/-- A contract has two more levels than its arguments. -/
theorem contractOf {contract : String} {arguments : List Node}
    (trees : ∀ argument ∈ arguments, ExpressionTree levels argument) :
    ExpressionTree (levels + 2) (contractOf contract arguments) := by
  refine objectOf (List.forall_mem_singleton.mpr (objectOf fun field inside => ?_))
  obtain ⟨⟨argument, i⟩, numbered, rfl⟩ := List.mem_map.mp inside
  exact trees argument (List.fst_mem_of_mem_zipIdx numbered)

end ExpressionTree

namespace Grammar

/-- Every token passes this test. -/
abbrev anyToken : Token → Prop := Spells fun _ => True

/-- The parsers of a level build expressions with as many levels as their room allows. What goes on
after a tree adds at most a level for each unit of room. -/
structure Level.Bounds (room : Nat) (level : Level) : Prop where
  /-- Expressions. -/
  expression : level.expression.Ensures anyToken (ExpressionTree (expressionLevels room))
  /-- Pipelines. -/
  pipeline : level.pipeline.Ensures anyToken (ExpressionTree (expressionLevels (room + 1)))
  /-- Operands combined by operators. -/
  combination (least : Nat) : (level.combination least).Ensures anyToken
    (ExpressionTree (expressionLevels room + 2 * room + 2))
  /-- Operands. -/
  operand : level.operand.Ensures anyToken (ExpressionTree (expressionLevels room + room + 2))
  /-- Store operations as stages. -/
  stage (operator : StoreOperator) :
    (level.stage operator).Ensures anyToken (ExpressionTree (expressionLevels room + 1))
  /-- Stages after a tree. -/
  furtherStages {levels total : Nat} {value : Node} :
    expressionLevels room ≤ levels → levels + room ≤ total → ExpressionTree levels value →
    (level.furtherStages value).Ensures anyToken (ExpressionTree total)
  /-- Operators after a tree. -/
  furtherOperands (least : Nat) {levels total : Nat} {left : Node} :
    expressionLevels room ≤ levels → levels + room ≤ total → ExpressionTree levels left →
    (level.furtherOperands least left).Ensures anyToken (ExpressionTree total)
  /-- Indices, fields and arguments after a tree. -/
  furtherSelections {levels total : Nat} {node : Node} :
    expressionLevels room ≤ levels → levels + room ≤ total → ExpressionTree levels node →
    (level.furtherSelections node).Ensures anyToken (ExpressionTree total)
  /-- Parts of a name after a tree. -/
  furtherParts (path : Token) (parts : List String) {levels total : Nat} {node : Node} :
    expressionLevels room ≤ levels → levels + room ≤ total → ExpressionTree levels node →
    (level.furtherParts path parts node).Ensures anyToken (ExpressionTree total)

section

variable {env : Environment} {below : Below} {room : Nat}
  (deepened : (deepen env below).Ensures anyToken fun level => ∃ less, room = less + 1 ∧
    expressionLevels room = expressionLevels less + 3 * less + 2 ∧ level.Bounds less)
include deepened

/-- An expression is bounded. -/
theorem expression_bounded :
    (expression env below).Ensures anyToken (ExpressionTree (expressionLevels room)) := by
  refine .before deepened fun lower ⟨less, same, _, bounds⟩ => ?_
  subst same
  exact bounds.pipeline

/-- An expression between two symbols is bounded. -/
theorem enclosed_bounded {before after : String} :
    (enclosed env below before after).Ensures anyToken
      (ExpressionTree (expressionLevels room)) := by
  refine .andThen symbol_ensures fun _ _ => ?_
  refine .bind (.consumer (expression_bounded deepened)) fun node tree => ?_
  exact .skip symbol_ensures fun _ => .pure tree

/-- A field is bounded. -/
theorem objectField_bounded :
    (objectField env below).Ensures anyToken
      fun field => ExpressionTree (expressionLevels room) field.2 := by
  refine .andThen fieldName_ensures fun key _ => .skip symbol_ensures fun _ => ?_
  exact .bind (.consumer (expression_bounded deepened)) fun value tree => .pure tree

/-- A choice has one more level than the expressions in it. -/
theorem choice_bounded :
    (choice env below).Ensures anyToken (ExpressionTree (expressionLevels room + 1)) := by
  refine .andThen keyword_ensures fun _ _ => ?_
  refine .bind (.consumer (enclosed_bounded deepened)) fun condition test => ?_
  refine .bind (.consumer (enclosed_bounded deepened)) fun yes first => ?_
  refine .skip keyword_ensures fun _ => ?_
  refine .bind (.consumer (enclosed_bounded deepened)) fun no second => ?_
  exact .pure (.branch test first second)

/-- A contract has two more levels than the expressions in it. -/
theorem contract_bounded :
    (contract env below).Ensures anyToken (ExpressionTree (expressionLevels room + 2)) := by
  refine .andThen keyword_ensures fun _ _ => ?_
  refine .bind (.consumer ofKind_ensures) fun number _ => ?_
  refine .bind (.consumer (delimited_ensures (expression_bounded deepened))) fun given trees => ?_
  exact .pure (.contractOf trees)

/-- A call in the system namespace has one more level than the expressions in it. -/
theorem systemCall_bounded {word : String} {function : List Char} :
    (systemCall env below word function).Ensures anyToken
      (ExpressionTree (expressionLevels room + 1)) := by
  unfold systemCall
  split
  · refine .andThen keyword_ensures fun _ _ => ?_
    refine .bind (.consumer (delimited_ensures (expression_bounded deepened))) fun given trees => ?_
    exact .pure (.apply trees)
  · exact .fail

/-- A store operation has one more level than the expressions in it. -/
theorem storeCall_bounded {inStage : Bool} {operator : StoreOperator} :
    (storeCall env below inStage operator).Ensures anyToken
      (ExpressionTree (expressionLevels room + 1)) := by
  have finished (word : Token) (table : Option Token) (given : List Node)
      (trees : ∀ node ∈ given, ExpressionTree (expressionLevels room) node) :
      Parser.Ensures anyToken (do
        let table ← ascribed env table operator.name word.line
        let call ← (storeOf operator table env.defaultTag inStage given).mapError fun problem =>
          Fault.syntaxError problem word.text word.line
        return Node.store call) (ExpressionTree (expressionLevels room + 1)) := by
    refine .bind (.check fun _ _ => trivial) fun table _ => ?_
    refine .bind (.check fun call made => ok_of_mapError_eq_ok made) fun call made => ?_
    exact .pure (.store fun node member => trees node ((of_storeOf made).2.1 node member))
  refine .andThen ofKind_ensures fun word _ => .bind ascription_ensures fun table _ => ?_
  refine .peek fun next => ?_
  dsimp only
  split
  · refine .bind (.consumer (delimited_ensures (expression_bounded deepened))) fun given trees => ?_
    exact finished word table given trees
  · exact .bind (.pure (by simp)) fun given trees => finished word table given trees

/-- An atom that starts with a keyword has at most two more levels than the expressions in it. -/
theorem keywordAtom_bounded {next : Token} :
    (keywordAtom env below next).Ensures anyToken
      (ExpressionTree (expressionLevels room + 2)) := by
  unfold keywordAtom
  split
  · exact .andThen keyword_ensures fun _ _ => .pure (.literal _)
  · exact .andThen keyword_ensures fun _ _ => .pure (.literal _)
  · exact .andThen keyword_ensures fun _ _ => .pure (.literal _)
  · exact contract_bounded deepened
  · exact (choice_bounded deepened).weaken fun _ tree => tree.succ
  · split
    · exact (storeCall_bounded deepened).weaken fun _ tree => tree.succ
    · exact (systemCall_bounded deepened).weaken fun _ tree => tree.succ
    · exact .fail

/-- An atom has at most two more levels than the expressions in it. -/
theorem atom_bounded :
    (atom env below).Ensures anyToken (ExpressionTree (expressionLevels room + 2)) := by
  refine .ahead fun next => ?_
  dsimp only
  split
  · exact .andThen ofKind_ensures fun _ _ => .bind (.check fun _ _ => trivial) fun _ _ =>
      .pure (.literal _)
  · exact .andThen ofKind_ensures fun _ _ => .bind (.check fun _ _ => trivial) fun _ _ =>
      .pure (.literal _)
  · exact .andThen ofKind_ensures fun _ _ => .pure (.literal _)
  · exact .andThen ofKind_ensures fun _ _ => .pure (.literal _)
  · exact (enclosed_bounded deepened).weaken fun _ tree => tree.succ.succ
  · exact .andThen (delimited_ensures (expression_bounded deepened)) fun items trees =>
      .pure (ExpressionTree.apply trees).succ
  · exact .andThen (delimited_ensures (objectField_bounded deepened)) fun fields trees =>
      .pure (ExpressionTree.objectOf trees).succ
  · exact keywordAtom_bounded deepened
  · exact .fail

section

variable {levels total : Nat} {node : Node} (least : expressionLevels room ≤ levels)
  (greatest : levels + room ≤ total) (tree : ExpressionTree levels node)
include least greatest tree

/-- Indices, fields and arguments add at most a level for each unit of room. -/
theorem furtherSelections_bounded :
    (furtherSelections env below node).Ensures anyToken (ExpressionTree total) := by
  refine .peek fun next => ?_
  split
  · refine .bind deepened fun lower ⟨less, same, grown, bounds⟩ => .skip symbol_ensures fun _ => ?_
    refine .bind (.consumer bounds.expression) fun index place => .skip symbol_ensures fun _ => ?_
    have place : ExpressionTree levels index := place.mono (by omega)
    have around : ExpressionTree (levels + 1) (.apply .index [node, index]) :=
      .apply (by simp [tree, place])
    exact bounds.furtherSelections (by omega) (by omega) around
  split
  · refine .bind deepened fun lower ⟨less, same, grown, bounds⟩ => ?_
    refine .bind (.consumer (delimited_ensures bounds.expression)) fun given inside => ?_
    have around : ExpressionTree (levels + 1) (.call node given) :=
      .call tree fun node member => (inside node member).mono (by omega)
    exact bounds.furtherSelections (by omega) (by omega) around
  split
  · refine .bind deepened fun lower ⟨less, same, grown, bounds⟩ => .skip symbol_ensures fun _ => ?_
    refine .peek fun field => ?_
    split
    · exact .bind (.consumer position_ensures) fun number _ =>
        bounds.furtherSelections (by omega) (by omega) (tree.fieldOf number)
    split
    · exact .bind (.consumer ofKind_ensures) fun path _ =>
        bounds.furtherParts path _ (by omega) (by omega) tree
    · exact .fail
  · exact .pure (tree.mono (by omega))

/-- The parts of a name and what follows it add at most a level for each unit of room. -/
theorem furtherParts_bounded {path : Token} {parts : List String} :
    (furtherParts env below path parts node).Ensures anyToken (ExpressionTree total) := by
  cases parts with
  | nil => exact furtherSelections_bounded deepened least greatest tree
  | cons part parts =>
    refine .bind deepened fun lower ⟨less, same, grown, bounds⟩ => ?_
    split
    · exact bounds.furtherParts path parts (by omega) (by omega) (tree.fieldOf part)
    split
    · exact .bind (.consumer position_ensures) fun number _ =>
        bounds.furtherSelections (by omega) (by omega) (tree.fieldOf number)
    · exact .refuse

/-- Operators add at most a level for each unit of room. -/
theorem furtherOperands_bounded {strength : Nat} :
    (furtherOperands env below strength node).Ensures anyToken (ExpressionTree total) := by
  refine .peek fun next => ?_
  split
  · exact .pure (tree.mono (by omega))
  · refine .skip operator_ensures fun _ => ?_
    refine .bind deepened fun lower ⟨less, same, grown, bounds⟩ => ?_
    refine .bind (.consumer (bounds.combination _)) fun right last => ?_
    have last : ExpressionTree levels right := last.mono (by omega)
    have around (primitive : Primitive) :
        ExpressionTree (levels + 1) (.apply primitive [node, right]) :=
      .apply (by simp [tree, last])
    exact bounds.furtherOperands strength (by omega) (by omega) (around _)

/-- Stages add at most a level for each unit of room. -/
theorem furtherStages_bounded :
    (furtherStages env below node).Ensures anyToken (ExpressionTree total) := by
  refine .peek fun next => ?_
  split
  · refine .skip operator_ensures fun _ => ?_
    refine .bind deepened fun lower ⟨less, same, grown, bounds⟩ => .peek fun next => ?_
    have onward (stage : Node) (last : ExpressionTree levels stage) :
        (lower.furtherStages (.sugar (.pipeline node stage))).Ensures anyToken
          (ExpressionTree total) :=
      have around : ExpressionTree (levels + 1) (.sugar (.pipeline node stage)) :=
        .pipeline tree last
      bounds.furtherStages (by omega) (by omega) around
    dsimp only
    split
    · exact .bind (.consumer (bounds.stage _)) fun stage last => onward stage (last.mono (by omega))
    · exact .bind (.consumer (bounds.combination 1)) fun stage last =>
        onward stage (last.mono (by omega))
  · exact .pure (tree.mono (by omega))

end

/-- An atom with what follows it is bounded. -/
theorem selection_bounded :
    (selection env below).Ensures anyToken
      (ExpressionTree (expressionLevels room + room + 2)) := by
  have onward (node : Node) (tree : ExpressionTree (expressionLevels room + 2) node) :
      (furtherSelections env below node).Ensures anyToken
        (ExpressionTree (expressionLevels room + room + 2)) :=
    furtherSelections_bounded deepened (by omega) (by omega) tree
  refine .ahead fun next => ?_
  split
  · refine .andThen ofKind_ensures fun path _ => ?_
    have leading (name : String) : ExpressionTree (expressionLevels room + 2) (.var name) := .var name
    split
    · exact onward _ (leading _)
    · exact furtherParts_bounded deepened (by omega) (by omega) (leading _)
  · exact .andThen (atom_bounded deepened) onward

/-- An operand is bounded: a sign gives back the room of its operand as a level. -/
theorem operand_bounded :
    (operand env below).Ensures anyToken (ExpressionTree (expressionLevels room + room + 2)) := by
  refine .ahead fun next => ?_
  split
  · refine .andThen operator_ensures fun _ _ => ?_
    refine .bind deepened fun lower ⟨less, same, grown, bounds⟩ => ?_
    refine .bind (.consumer bounds.operand) fun node tree => ?_
    exact .pure (.mono (.apply (List.forall_mem_singleton.mpr tree)) (by omega))
  split
  · refine .andThen operator_ensures fun _ _ => ?_
    refine .bind deepened fun lower ⟨less, same, grown, bounds⟩ => .peek fun first => ?_
    refine .bind (.consumer bounds.operand.counted) fun (node, count) tree => .pure ?_
    split
    · exact .literal _
    · exact tree.negated.mono (by omega)
  · exact selection_bounded deepened

/-- Operands combined by operators are bounded. -/
theorem combination_bounded {least : Nat} :
    (combination env below least).Ensures anyToken
      (ExpressionTree (expressionLevels room + 2 * room + 2)) :=
  .andThen (operand_bounded deepened) fun _ tree =>
    furtherOperands_bounded deepened (by omega) (by omega) tree

/-- A pipeline is bounded. -/
theorem pipeline_bounded :
    (pipeline env below).Ensures anyToken (ExpressionTree (expressionLevels (room + 1))) :=
  .andThen (combination_bounded deepened) fun _ tree =>
    furtherStages_bounded deepened (by omega) (by rw [expressionLevels]; omega) tree

/-- The level above a level whose parsers are bounded has parsers that are bounded. -/
theorem levelAbove_bounds : (levelAbove env below).Bounds room where
  expression := expression_bounded deepened
  pipeline := pipeline_bounded deepened
  combination _ := combination_bounded deepened
  operand := operand_bounded deepened
  stage _ := storeCall_bounded deepened
  furtherStages := furtherStages_bounded deepened
  furtherOperands _ _ _ _ least greatest tree :=
    furtherOperands_bounded deepened least greatest tree
  furtherSelections := furtherSelections_bounded deepened
  furtherParts _ _ _ _ _ least greatest tree := furtherParts_bounded deepened least greatest tree

end

/-- The parsers of every level are bounded. -/
theorem level_bounds (env : Environment) (room : Nat) : (level env room).Bounds room := by
  induction room with
  | zero => exact levelAbove_bounds .fail
  | succ room ih => exact levelAbove_bounds (.pure ⟨room, rfl, rfl, ih⟩)

end Grammar

end ContentSpace

import ContentSpace.Proofs.Grammar.Limit.Approximation

/-!
# The nesting limit of expressions

No parser asks how much room is left; it only fails when there is none. So the parsers of a level
with less room fail for the limit or do what those of a level with more room do. The proof follows
the grammar: the levels below are in the same relation, and the parsers above them are built alike.
-/

namespace ContentSpace.Grammar

/-- The parsers of a level fail for a limit or do what those of another level do. -/
structure Level.Approximates (limit : Nat) (small large : Level) : Prop where
  /-- Expressions approximate. -/
  expression : small.expression.Approximates limit Eq large.expression
  /-- Pipelines approximate. -/
  pipeline : small.pipeline.Approximates limit Eq large.pipeline
  /-- Operands combined by operators approximate. -/
  combination (least : Nat) :
    (small.combination least).Approximates limit Eq (large.combination least)
  /-- Operands approximate. -/
  operand : small.operand.Approximates limit Eq large.operand
  /-- Store operations do as stages. -/
  stage (operator : StoreOperator) :
    (small.stage operator).Approximates limit Eq (large.stage operator)
  /-- Stages after a tree approximate. -/
  furtherStages (value : Node) :
    (small.furtherStages value).Approximates limit Eq (large.furtherStages value)
  /-- Operators after a tree approximate. -/
  furtherOperands (least : Nat) (left : Node) :
    (small.furtherOperands least left).Approximates limit Eq (large.furtherOperands least left)
  /-- Indices, fields and arguments after a tree approximate. -/
  furtherSelections (node : Node) :
    (small.furtherSelections node).Approximates limit Eq (large.furtherSelections node)
  /-- Parts of a name after a tree approximate. -/
  furtherParts (path : Token) (parts : List String) (node : Node) :
    (small.furtherParts path parts node).Approximates limit Eq (large.furtherParts path parts node)

section

variable {env : Environment} {limit more : Nat} {below beyond : Below}
  (deepened : (deepen env below).Approximates limit (Level.Approximates limit)
    (deepen (env.withLimit more) beyond))
include deepened

/-- An expression approximates. -/
theorem expression_approximates :
    (expression env below).Approximates limit Eq (expression (env.withLimit more) beyond) :=
  .before deepened fun _ _ lower => lower.pipeline

/-- Arguments approximate. -/
theorem arguments_approximates :
    (arguments env (expression env below)).Approximates limit Eq
      (arguments (env.withLimit more) (expression (env.withLimit more) beyond)) :=
  delimited_approximates (expression_approximates deepened)

/-- A store operation approximates. -/
theorem storeCall_approximates {inStage : Bool} {operator : StoreOperator} :
    (storeCall env below inStage operator).Approximates limit Eq
      (storeCall (env.withLimit more) beyond inStage operator) := by
  refine .after fun word => .after fun table => .after fun next => ?_
  dsimp only
  split
  · refine .take (arguments_approximates deepened) fun given => ?_
    exact .refl _
  · exact .refl _

/-- An expression between two symbols approximates. -/
theorem enclosed_approximates {before after : String} :
    (enclosed env below before after).Approximates limit Eq
      (enclosed (env.withLimit more) beyond before after) := by
  refine .after fun _ => ?_
  refine .take (expression_approximates deepened) fun node => ?_
  exact .refl _

/-- A field approximates. -/
theorem objectField_approximates :
    (objectField env below).Approximates limit Eq (objectField (env.withLimit more) beyond) := by
  refine .after fun key => .after fun _ => ?_
  refine .take (expression_approximates deepened) fun value => ?_
  exact .refl _

/-- A choice between expressions approximates. -/
theorem choice_approximates :
    (choice env below).Approximates limit Eq (choice (env.withLimit more) beyond) := by
  refine .after fun _ => ?_
  refine .take (enclosed_approximates deepened) fun condition => ?_
  refine .take (enclosed_approximates deepened) fun yes => ?_
  refine .after fun _ => ?_
  refine .take (enclosed_approximates deepened) fun no => ?_
  exact .refl _

/-- A contract approximates. -/
theorem contract_approximates :
    (contract env below).Approximates limit Eq (contract (env.withLimit more) beyond) := by
  refine .after fun _ => .after fun number => ?_
  refine .take (arguments_approximates deepened) fun given => ?_
  exact .refl _

/-- A call in the system namespace approximates. -/
theorem systemCall_approximates {word : String} {function : List Char} :
    (systemCall env below word function).Approximates limit Eq
      (systemCall (env.withLimit more) beyond word function) := by
  unfold systemCall
  split
  · refine .after fun _ => ?_
    refine .take (arguments_approximates deepened) fun given => ?_
    exact .refl _
  · exact .refl _

/-- An atom that starts with a keyword approximates. -/
theorem keywordAtom_approximates {next : Token} :
    (keywordAtom env below next).Approximates limit Eq
      (keywordAtom (env.withLimit more) beyond next) := by
  unfold keywordAtom
  split
  · exact .refl _
  · exact .refl _
  · exact .refl _
  · exact contract_approximates deepened
  · exact choice_approximates deepened
  · split
    · exact storeCall_approximates deepened
    · exact systemCall_approximates deepened
    · exact .refl _

/-- An atom other than a name approximates. -/
theorem atom_approximates :
    (atom env below).Approximates limit Eq (atom (env.withLimit more) beyond) := by
  refine .ahead fun next => ?_
  dsimp only
  split
  · exact .refl _
  · exact .refl _
  · exact .refl _
  · exact .refl _
  · exact enclosed_approximates deepened
  · refine .andThen (delimited_approximates (expression_approximates deepened)) fun items => ?_
    exact .refl _
  · refine .andThen (delimited_approximates (objectField_approximates deepened)) fun fields => ?_
    exact .refl _
  · exact keywordAtom_approximates deepened
  · exact .refl _

/-- What follows an atom approximates. -/
theorem furtherSelections_approximates (node : Node) :
    (furtherSelections env below node).Approximates limit Eq
      (furtherSelections (env.withLimit more) beyond node) := by
  refine .after fun next => ?_
  split
  · refine .bind deepened fun lower _ levels => .after fun _ => ?_
    refine .take levels.expression fun index => ?_
    exact .after fun _ => levels.furtherSelections _
  split
  · refine .bind deepened fun lower _ levels => ?_
    refine .take (delimited_approximates levels.expression) fun given => ?_
    exact levels.furtherSelections _
  split
  · refine .bind deepened fun lower _ levels => .after fun _ => .after fun field => ?_
    split
    · exact .after fun number => levels.furtherSelections _
    split
    · exact .after fun path => levels.furtherParts _ _ _
    · exact .refl _
  · exact .refl _

/-- The parts of a name and what follows it approximate. -/
theorem furtherParts_approximates (path : Token) (parts : List String) (node : Node) :
    (furtherParts env below path parts node).Approximates limit Eq
      (furtherParts (env.withLimit more) beyond path parts node) := by
  cases parts with
  | nil => exact furtherSelections_approximates deepened node
  | cons part parts =>
    refine .bind deepened fun lower _ levels => ?_
    split
    · exact levels.furtherParts _ _ _
    split
    · exact .after fun number => levels.furtherSelections _
    · exact .refl _

/-- An atom with what follows it approximates. -/
theorem selection_approximates :
    (selection env below).Approximates limit Eq (selection (env.withLimit more) beyond) := by
  refine .ahead fun next => ?_
  split
  · refine .after fun path => ?_
    split
    · exact furtherSelections_approximates deepened _
    · exact furtherParts_approximates deepened _ _ _
  · refine .andThen (atom_approximates deepened) fun node => ?_
    exact furtherSelections_approximates deepened node

/-- An operand approximates. -/
theorem operand_approximates :
    (operand env below).Approximates limit Eq (operand (env.withLimit more) beyond) := by
  refine .ahead fun next => ?_
  split
  · refine .after fun _ => .bind deepened fun lower _ levels => ?_
    refine .take levels.operand fun node => ?_
    exact .refl _
  split
  · refine .after fun _ => .bind deepened fun lower _ levels => .after fun first => ?_
    refine .take levels.operand.counted fun counted => ?_
    exact .refl _
  · exact selection_approximates deepened

/-- Operators and their right sides approximate. -/
theorem furtherOperands_approximates (least : Nat) (left : Node) :
    (furtherOperands env below least left).Approximates limit Eq
      (furtherOperands (env.withLimit more) beyond least left) := by
  refine .after fun next => ?_
  split
  · exact .refl _
  · refine .after fun _ => .bind deepened fun lower _ levels => ?_
    refine .take (levels.combination _) fun right => ?_
    exact levels.furtherOperands _ _

/-- Operands combined by operators approximate. -/
theorem combination_approximates (least : Nat) :
    (combination env below least).Approximates limit Eq
      (combination (env.withLimit more) beyond least) := by
  refine .andThen (operand_approximates deepened) fun left => ?_
  exact furtherOperands_approximates deepened least left

/-- Stages approximate. -/
theorem furtherStages_approximates (value : Node) :
    (furtherStages env below value).Approximates limit Eq
      (furtherStages (env.withLimit more) beyond value) := by
  refine .after fun next => ?_
  split
  · refine .after fun _ => .bind deepened fun lower _ levels => .after fun next => ?_
    dsimp only
    split
    · refine .take (levels.stage _) fun stage => ?_
      exact levels.furtherStages _
    · refine .take (levels.combination 1) fun stage => ?_
      exact levels.furtherStages _
  · exact .refl _

/-- The levels above approximate. -/
theorem levelAbove_approximates :
    (levelAbove env below).Approximates limit (levelAbove (env.withLimit more) beyond) where
  expression := expression_approximates deepened
  pipeline := by
    refine .andThen (combination_approximates deepened 1) fun value => ?_
    exact furtherStages_approximates deepened value
  combination := combination_approximates deepened
  operand := operand_approximates deepened
  stage _ := storeCall_approximates deepened
  furtherStages := furtherStages_approximates deepened
  furtherOperands := furtherOperands_approximates deepened
  furtherSelections := furtherSelections_approximates deepened
  furtherParts := furtherParts_approximates deepened

end

/-- A level with less room fails for the limit or does what a level with more room does. -/
theorem level_approximates {env : Environment} (more : Nat) {room roomToo : Nat}
    (le : room ≤ roomToo) :
    (level env room).Approximates env.limit (level (env.withLimit more) roomToo) := by
  -- The level with less room comes to its end first, and there it fails for the limit.
  induction room generalizing roomToo with
  | zero =>
    cases roomToo with
    | zero => exact levelAbove_approximates .tooDeep
    | succ _ => exact levelAbove_approximates .tooDeep
  | succ room ih =>
    obtain ⟨beyond, rfl⟩ : ∃ beyond, roomToo = beyond + 1 := ⟨roomToo - 1, by omega⟩
    exact levelAbove_approximates (.pure (ih (by omega)))

end ContentSpace.Grammar

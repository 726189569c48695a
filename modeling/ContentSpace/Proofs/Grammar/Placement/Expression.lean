import ContentSpace.Proofs.Grammar.Extension.Expression
import ContentSpace.Proofs.Grammar.Placement.Basic

/-!
# Expressions elsewhere

An expression is read alike from the same words. The proof follows the grammar: the levels below
read alike, and the parsers above them are built alike. A token that is kept, for its text or its
line, has the same word in both.
-/

namespace ContentSpace.Grammar

/-- The parsers of a level read alike what those of another level read. -/
structure Level.Matches (small large : Level) : Prop where
  /-- Expressions are read alike. -/
  expression : small.expression.Matches Eq large.expression
  /-- Pipelines are read alike. -/
  pipeline : small.pipeline.Matches Eq large.pipeline
  /-- Operands combined by operators are read alike. -/
  combination (least : Nat) : (small.combination least).Matches Eq (large.combination least)
  /-- Operands are read alike. -/
  operand : small.operand.Matches Eq large.operand
  /-- Store operations are read alike as stages. -/
  stage (operator : StoreOperator) : (small.stage operator).Matches Eq (large.stage operator)
  /-- Stages after a tree are read alike. -/
  furtherStages (value : Node) :
    (small.furtherStages value).Matches Eq (large.furtherStages value)
  /-- Operators after a tree are read alike. -/
  furtherOperands (least : Nat) (left : Node) :
    (small.furtherOperands least left).Matches Eq (large.furtherOperands least left)
  /-- Indices, fields and arguments after a tree are read alike. -/
  furtherSelections (node : Node) :
    (small.furtherSelections node).Matches Eq (large.furtherSelections node)
  /-- Parts of a name after a tree are read alike. -/
  furtherParts (path like : Token) (same : SameWord path like) (parts : List String)
    (node : Node) :
    (small.furtherParts path parts node).Matches Eq (large.furtherParts like parts node)

section

variable {token like : Token} (same : SameWord token like)
include same

/-- The texts of tokens with the same word are equal. -/
theorem text_congr : token.text = like.text := congrArg Word.text same

/-- Kinds of tokens with the same word are equal. -/
theorem kind_congr : token.kind = like.kind := congrArg Word.kind same

/-- Doubles are read alike. -/
theorem floatLiteral_congr : (floatLiteral token).mapError Fault.unplaced =
    (floatLiteral like).mapError Fault.unplaced := by
  rw [floatLiteral, floatLiteral, text_congr same]
  cases Double.ofText? like.text.toList <;> rfl

/-- Whole numbers are read alike. -/
theorem wholeLiteral_congr : (wholeLiteral token).mapError Fault.unplaced =
    (wholeLiteral like).mapError Fault.unplaced := by
  rw [wholeLiteral, wholeLiteral, text_congr same]
  split
  · rfl
  · exact floatLiteral_congr same

end

/-- The line is no part of whether a table is known. -/
theorem require_congr (scope : Scope) (name : String) (line lineToo : Nat) :
    (scope.require name line).mapError Fault.unplaced =
      (scope.require name lineToo).mapError Fault.unplaced := by
  unfold Scope.require
  split <;> rfl

section

variable {env : Environment} {finish : Token} (ends : SameWord env.finish finish)
include ends

/-- The number of a position is read alike. -/
theorem position_matches : (position env).Matches Eq (position (env.endingIn finish)) := by
  refine (symbol_matches ends).skip ?_
  refine .take (ofKind_matches ends) fun number like same => ?_
  exact .pure (congrArg positionalName (text_congr same))

/-- A table between angle brackets is read alike. -/
theorem ascription_matches :
    (ascription env).Matches (Option.Rel SameWord) (ascription (env.endingIn finish)) := by
  refine .peek ends fun next like same => .ite (is_iff same) ?_ (.pure .none)
  refine .skip (operator_matches ends) ?_
  refine .take (name_matches ends) fun table like same => ?_
  exact .skip (operator_matches ends) (.pure (.some same))

omit ends in
/-- The table that an ascription names is found alike. -/
theorem ascribed_congr {named namedToo : Option Token} (same : Option.Rel SameWord named namedToo)
    {operation : String} {line lineToo : Nat} :
    (ascribed env named operation line).mapError Fault.unplaced =
      (ascribed (env.endingIn finish) namedToo operation lineToo).mapError Fault.unplaced := by
  cases same with
  | none =>
    unfold ascribed Scope.resolve
    dsimp only [Environment.endingIn]
    cases env.scope.current? <;> rfl
  | @some table like same =>
    unfold ascribed
    dsimp only
    rw [text_congr same]
    exact require_congr ..

/-- The name of a field is read alike. -/
theorem fieldName_matches : (fieldName env).Matches Eq (fieldName (env.endingIn finish)) := by
  refine .ahead ends fun next like same => ?_
  rw [kind_congr same]
  have taken : (ofKind env like.kind .expectedObjectKey).Matches SameWord _ :=
    ofKind_matches ends
  dsimp only
  split
  · exact taken.andThen fun _ _ same => .pure (text_congr same)
  · exact taken.andThen fun _ _ same => .pure (text_congr same)
  · exact taken.andThen fun _ _ same => .pure (text_congr same)
  · exact taken.andThen fun _ _ same => .pure (congrArg stringContent (text_congr same))
  · exact .fail ends

end

section

variable {env : Environment} {finish : Token} (ends : SameWord env.finish finish)
  {below beyond : Below}
  (deepened : (deepen env below).Matches Level.Matches (deepen (env.endingIn finish) beyond))
include ends deepened

omit ends in
/-- An expression is read alike. -/
theorem expression_matches :
    (expression env below).Matches Eq (expression (env.endingIn finish) beyond) :=
  .before deepened fun _ _ lower => lower.pipeline

/-- Arguments are read alike. -/
theorem arguments_matches :
    (arguments env (expression env below)).Matches Eq
      (arguments (env.endingIn finish) (expression (env.endingIn finish) beyond)) :=
  delimited_matches ends (expression_matches deepened)

/-- A store operation is read alike. -/
theorem storeCall_matches {inStage : Bool} {operator : StoreOperator} :
    (storeCall env below inStage operator).Matches Eq
      (storeCall (env.endingIn finish) beyond inStage operator) := by
  refine (ofKind_matches ends).andThen fun word like same => ?_
  refine .bind (ascription_matches ends) fun table tableToo tables => ?_
  refine .peek ends fun next nextToo nexts => ?_
  -- With arguments and without, the call is made alike.
  refine .ite (is_iff nexts) (.takeSame (arguments_matches ends deepened) fun given => ?_)
    (.bindSame (.pure rfl) fun given => ?_)
  all_goals
    refine .checked (ascribed_congr tables) fun table => .checked ?_ fun call => .pure rfl
    rw [text_congr same]
    dsimp only [Environment.endingIn]
    cases storeOf operator table env.defaultTag inStage given <;> rfl

/-- An expression between two symbols is read alike. -/
theorem enclosed_matches {before after : String} :
    (enclosed env below before after).Matches Eq
      (enclosed (env.endingIn finish) beyond before after) := by
  refine (symbol_matches ends).skip ?_
  refine .takeSame (expression_matches deepened) fun node => ?_
  exact .skip (symbol_matches ends) (.pure rfl)

/-- A field is read alike. -/
theorem objectField_matches :
    (objectField env below).Matches Eq (objectField (env.endingIn finish) beyond) := by
  refine (fieldName_matches ends).andThenSame fun key => .skip (symbol_matches ends) ?_
  exact .takeSame (expression_matches deepened) fun value => .pure rfl

/-- A choice between expressions is read alike. -/
theorem choice_matches :
    (choice env below).Matches Eq (choice (env.endingIn finish) beyond) := by
  refine (keyword_matches ends).skip ?_
  refine .takeSame (enclosed_matches ends deepened) fun condition => ?_
  refine .takeSame (enclosed_matches ends deepened) fun yes => ?_
  refine .skip (keyword_matches ends) ?_
  exact .takeSame (enclosed_matches ends deepened) fun no => .pure rfl

/-- A contract is read alike. -/
theorem contract_matches :
    (contract env below).Matches Eq (contract (env.endingIn finish) beyond) := by
  refine (keyword_matches ends).skip ?_
  refine .take (ofKind_matches ends) fun number like same => ?_
  refine .takeSame (arguments_matches ends deepened) fun given => ?_
  exact .pure (congrArg (contractOf · given) (text_congr same))

/-- A call in the system namespace is read alike. -/
theorem systemCall_matches {word : String} {function : List Char} :
    (systemCall env below word function).Matches Eq
      (systemCall (env.endingIn finish) beyond word function) := by
  unfold systemCall
  split
  · refine (keyword_matches ends).skip ?_
    exact .takeSame (arguments_matches ends deepened) fun given => .pure rfl
  · exact .fail ends

/-- An atom that starts with a keyword is read alike. -/
theorem keywordAtom_matches {next like : Token} (same : SameWord next like) :
    (keywordAtom env below next).Matches Eq (keywordAtom (env.endingIn finish) beyond like) := by
  unfold keywordAtom
  rw [text_congr same, storeWord?_congr same]
  split
  · exact (keyword_matches ends).skip (.pure rfl)
  · exact (keyword_matches ends).skip (.pure rfl)
  · exact (keyword_matches ends).skip (.pure rfl)
  · exact contract_matches ends deepened
  · exact choice_matches ends deepened
  · split
    · exact storeCall_matches ends deepened
    · exact systemCall_matches ends deepened
    · exact .fail ends

/-- An atom other than a name is read alike. -/
theorem atom_matches : (atom env below).Matches Eq (atom (env.endingIn finish) beyond) := by
  refine .ahead ends fun next like same => ?_
  rw [kind_congr same, text_congr same]
  have taken : (ofKind env like.kind .expectedExpression).Matches SameWord _ :=
    ofKind_matches ends
  dsimp only
  split
  · exact taken.andThen fun _ _ same => .checked (wholeLiteral_congr same) fun _ => .pure rfl
  · exact taken.andThen fun _ _ same => .checked (floatLiteral_congr same) fun _ => .pure rfl
  · refine taken.andThen fun _ _ same => .pure ?_
    exact congrArg (fun text => Node.string (stringContent text)) (text_congr same)
  · refine taken.andThen fun _ _ same => .pure ?_
    exact congrArg (fun text => Node.literal (.blob text)) (text_congr same)
  · exact enclosed_matches ends deepened
  · exact (delimited_matches ends (expression_matches deepened)).andThenSame fun _ => .pure rfl
  · exact (delimited_matches ends (objectField_matches ends deepened)).andThenSame fun _ =>
      .pure rfl
  · exact keywordAtom_matches ends deepened same
  · exact .fail ends

/-- What follows an atom is read alike. -/
theorem furtherSelections_matches (node : Node) :
    (furtherSelections env below node).Matches Eq
      (furtherSelections (env.endingIn finish) beyond node) := by
  refine .peek ends fun next like same => ?_
  refine .ite (is_iff same) ?_ (.ite (is_iff same) ?_ (.ite (is_iff same) ?_ (.pure rfl)))
  · refine .bind deepened fun lower lowerToo levels => .skip (symbol_matches ends) ?_
    refine .takeSame levels.expression fun index => ?_
    exact .skip (symbol_matches ends) (levels.furtherSelections _)
  · refine .bind deepened fun lower lowerToo levels => ?_
    refine .takeSame (delimited_matches ends levels.expression) fun given => ?_
    exact levels.furtherSelections _
  · refine .bind deepened fun lower lowerToo levels => .skip (symbol_matches ends) ?_
    refine .peek ends fun field fieldToo fields => .ite (is_iff fields) ?_ ?_
    · exact .takeSame (position_matches ends) fun number => levels.furtherSelections _
    · rw [kind_congr fields]
      refine .ite Iff.rfl ?_ (.fail ends)
      refine .take (ofKind_matches ends) fun path pathToo paths => ?_
      rw [text_congr paths]
      exact levels.furtherParts path pathToo paths _ _

/-- The parts of a name and what follows it are read alike. -/
theorem furtherParts_matches (path like : Token) (same : SameWord path like) (parts : List String)
    (node : Node) :
    (furtherParts env below path parts node).Matches Eq
      (furtherParts (env.endingIn finish) beyond like parts node) := by
  cases parts with
  | nil => exact furtherSelections_matches ends deepened node
  | cons part parts =>
    refine .bind deepened fun lower lowerToo levels => ?_
    refine .ite Iff.rfl (levels.furtherParts path like same _ _) (.ite Iff.rfl ?_ ?_)
    · exact .takeSame (position_matches ends) fun number => levels.furtherSelections _
    · refine .refuse ?_
      rw [describe_congr same]
      rfl

/-- An atom with what follows it is read alike. -/
theorem selection_matches :
    (selection env below).Matches Eq (selection (env.endingIn finish) beyond) := by
  refine .ahead ends fun next like same => ?_
  rw [kind_congr same]
  refine .ite Iff.rfl ?_ ?_
  · refine (ofKind_matches ends).andThen fun path pathToo paths => ?_
    rw [text_congr paths]
    split
    · exact furtherSelections_matches ends deepened _
    · exact furtherParts_matches ends deepened path pathToo paths _ _
  · exact (atom_matches ends deepened).andThenSame (furtherSelections_matches ends deepened)

/-- An operand is read alike. -/
theorem operand_matches :
    (operand env below).Matches Eq (operand (env.endingIn finish) beyond) := by
  refine .ahead ends fun next like same => ?_
  refine .ite (is_iff same) ?_ (.ite (is_iff same) ?_ (selection_matches ends deepened))
  · refine (operator_matches ends).skip <| .bind deepened fun lower lowerToo levels => ?_
    exact .takeSame levels.operand fun node => .pure rfl
  · refine (operator_matches ends).skip <| .bind deepened fun lower lowerToo levels => ?_
    refine .peek ends fun first firstToo firsts => ?_
    refine .takeSame levels.operand.counted fun counted => ?_
    rw [isLeastMagnitude_congr firsts]
    exact .pure rfl

/-- Operators and their right sides are read alike. -/
theorem furtherOperands_matches (least : Nat) (left : Node) :
    (furtherOperands env below least left).Matches Eq
      (furtherOperands (env.endingIn finish) beyond least left) := by
  refine .peek ends fun next like same => ?_
  rw [binary?_congr same, text_congr same]
  split
  · exact .pure rfl
  · refine .skip (operator_matches ends) <| .bind deepened fun lower lowerToo levels => ?_
    exact .takeSame (levels.combination _) fun right => levels.furtherOperands _ _

/-- Operands combined by operators are read alike. -/
theorem combination_matches (least : Nat) :
    (combination env below least).Matches Eq
      (combination (env.endingIn finish) beyond least) :=
  (operand_matches ends deepened).andThenSame (furtherOperands_matches ends deepened least)

/-- Stages are read alike. -/
theorem furtherStages_matches (value : Node) :
    (furtherStages env below value).Matches Eq
      (furtherStages (env.endingIn finish) beyond value) := by
  refine .peek ends fun next like same => .ite (is_iff same) ?_ (.pure rfl)
  refine .skip (operator_matches ends) <| .bind deepened fun lower lowerToo levels => ?_
  refine .peek ends fun next like same => ?_
  dsimp only
  rw [storeWord?_congr same]
  split
  · exact .takeSame (levels.stage _) fun stage => levels.furtherStages _
  · exact .takeSame (levels.combination 1) fun stage => levels.furtherStages _

/-- The levels above read alike. -/
theorem levelAbove_matches :
    (levelAbove env below).Matches (levelAbove (env.endingIn finish) beyond) where
  expression := expression_matches deepened
  pipeline :=
    (combination_matches ends deepened 1).andThenSame (furtherStages_matches ends deepened)
  combination := combination_matches ends deepened
  operand := operand_matches ends deepened
  stage _ := storeCall_matches ends deepened
  furtherStages := furtherStages_matches ends deepened
  furtherOperands := furtherOperands_matches ends deepened
  furtherSelections := furtherSelections_matches ends deepened
  furtherParts := furtherParts_matches ends deepened

end

/-- A level reads alike from the same words. -/
theorem level_matches {env : Environment} {finish : Token} (ends : SameWord env.finish finish)
    (room : Nat) : (level env room).Matches (level (env.endingIn finish) room) := by
  induction room with
  | zero => exact levelAbove_matches ends (.fail ends)
  | succ room ih => exact levelAbove_matches ends (.pure ih)

end ContentSpace.Grammar

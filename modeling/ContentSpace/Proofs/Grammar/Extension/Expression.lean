import ContentSpace.Proofs.Grammar.Extension.Basic
import ContentSpace.Proofs.Grammar.Level

/-!
# Expressions that have more after them

An expression is read alike when more comes after it and nothing there goes on with it. Before a
further stage a pipeline goes on with the tree that was read so far, and before further indices,
fields or arguments an atom does. More room is used up by neither: what is left over at the end is
at least the room that was added.

Only a store operation looks for an ascription and for arguments and can do without either. So a
store operation at the very end has to be stopped by what comes after, and every other atom is not.
-/

namespace ContentSpace

namespace Token.Akin

variable {stops : Token → Prop} {first second : Token}

/-- Tokens that look alike pass the same tests if no token that stops passes them. -/
theorem is_congr (akin : first.Akin stops second) {kind : TokenKind} (other : kind ≠ .finish)
    {text : String} (plain : ∀ token, stops token → token.is kind text = false) :
    first.is kind text = second.is kind text := by
  cases akin with
  | same same => exact Grammar.is_congr same kind text
  | finish finish stop =>
    rw [plain second stop, Token.is, finish, Bool.and_eq_false_imp]
    intro same
    exact absurd (beq_iff_eq.mp same).symm other

end Token.Akin

namespace Grammar

section

variable {first second : Token} (same : first.word = second.word)
include same

/-- Tokens with the same word start the same store operation. -/
theorem storeWord?_congr : storeWord? first = storeWord? second := by
  have kind : first.kind = second.kind := congrArg Word.kind same
  have text : first.text = second.text := congrArg Word.text same
  rw [storeWord?, storeWord?, kind, text]

/-- Tokens with the same word are the same operator between operands. -/
theorem binary?_congr (least : Nat) : binary? least first = binary? least second := by
  have kind : first.kind = second.kind := congrArg Word.kind same
  have text : first.text = second.text := congrArg Word.text same
  rw [binary?, binary?, kind, text]

/-- Tokens with the same word are the least magnitude alike. -/
theorem isLeastMagnitude_congr : isLeastMagnitude first = isLeastMagnitude second := by
  have kind : first.kind = second.kind := congrArg Word.kind same
  have text : first.text = second.text := congrArg Word.text same
  rw [isLeastMagnitude, isLeastMagnitude, kind, text]

end

/-- Environments with the same tables and the same tag, where the first one ends with the token for
the end of the source. Their limits and the places of their ends need not be the same. -/
structure Environment.Kindred (env other : Environment) : Prop where
  /-- The tables in scope are the same. -/
  scope : other.scope = env.scope
  /-- The default tag is the same. -/
  defaultTag : other.defaultTag = env.defaultTag
  /-- The end is the end. -/
  finish : env.finish.kind = .finish

/-- Indices, fields and arguments go on with a tree, with at least a certain room. -/
def selecting (env : Environment) (margin : Nat) : Onward Node := fun node rest run =>
  ∃ room, margin ≤ room ∧ run = ((level env room).furtherSelections node).run rest

/-- Stages go on with a tree, with at least a certain room. -/
def piping (env : Environment) (margin : Nat) : Onward Node := fun node rest run =>
  ∃ room, margin ≤ room ∧ run = ((level env room).furtherStages node).run rest

/-- Neither a table nor arguments of a store operation start at the tokens that stop. -/
def StopsStoreCall (stops : Token → Prop) : Prop :=
  ∀ token, stops token → token.isOperator "<" = false ∧ token.isSymbol "(" = false

/-- What ends an operand ends a store operation. -/
theorem stopsStoreCall_endsOperand : StopsStoreCall (Token.EndsOperand 1) := by
  intro token ends
  refine ⟨?_, ends.parenthesis⟩
  rw [Bool.eq_false_iff]
  intro less
  obtain ⟨span, rfl⟩ := Token.exists_of_word (Token.is_iff.mp less)
  have found : binary? 1 ⟨.operator, "<", span⟩ = some (4, .lt) := rfl
  cases found.symm.trans ends.operator

/-- The parsers of a level take what those of another level take when more comes after. -/
structure Level.Extends (other : Environment) (margin : Nat) (small large : Level) : Prop where
  /-- Pipelines, before anything that ends their last operand. -/
  pipeline : small.pipeline.Extends other (Token.EndsOperand 1) (piping other margin) Eq
    large.pipeline
  /-- Operands combined by operators. -/
  combination {least : Nat} : 1 ≤ least →
    (small.combination least).Extends other (Token.EndsOperand 1) ended Eq
      (large.combination least)
  /-- Operands. -/
  operand : small.operand.Extends other (Token.EndsOperand 1) ended Eq large.operand
  /-- Store operations as stages. -/
  stage (operator : StoreOperator) :
    (small.stage operator).Extends other (Token.EndsOperand 1) ended Eq (large.stage operator)
  /-- Stages after a tree. -/
  furtherStages (value : Node) : (small.furtherStages value).Extends other (Token.EndsOperand 1)
    (piping other margin) Eq (large.furtherStages value)
  /-- Operators after a tree. -/
  furtherOperands {least : Nat} (left : Node) : 1 ≤ least →
    (small.furtherOperands least left).Extends other (Token.EndsOperand 1) ended Eq
      (large.furtherOperands least left)
  /-- Expressions. -/
  expression : small.expression.Extends other Token.EndsExpression ended Eq large.expression
  /-- Indices, fields and arguments after a tree, before anything. -/
  furtherSelections {stops : Token → Prop} (node : Node) :
    (small.furtherSelections node).Extends other stops (selecting other margin) Eq
      (large.furtherSelections node)
  /-- Parts of a name after a tree, before anything. -/
  furtherParts {stops : Token → Prop} {path like : Token} (same : path.word = like.word)
    (parts : List String) (node : Node) :
    (small.furtherParts path parts node).Extends other stops (selecting other margin) Eq
      (large.furtherParts like parts node)

section

variable {env other : Environment} {below : Below} {margin room : Nat} {stops : Token → Prop}

/-- The number of a position is taken alike. -/
theorem position_extends : (position env).Extends other stops ended Eq (position other) := by
  refine .andThen symbol_extends fun _ _ _ => .take ofKind_extends fun number like same => ?_
  have text : number.text = like.text := congrArg Word.text same
  exact .pure (congrArg positionalName text)

/-- The name of a field is taken alike. -/
theorem fieldName_extends : (fieldName env).Extends other stops ended Eq (fieldName other) := by
  refine .ahead fun next like same => ?_
  have kind : next.kind = like.kind := congrArg Word.kind same
  dsimp only
  rw [kind]
  split
  · exact .andThen ofKind_extends fun key like same => .pure (congrArg Word.text same)
  · exact .andThen ofKind_extends fun key like same => .pure (congrArg Word.text same)
  · exact .andThen ofKind_extends fun key like same => .pure (congrArg Word.text same)
  · refine .andThen ofKind_extends fun key like same => ?_
    exact .pure (congrArg (fun word => stringContent (Word.text word)) same)
  · exact .fail

/-- A double is read alike from the same text. -/
theorem floatLiteral_alike {token like : Token} (same : token.text = like.text)
    {content : Literal} (found : floatLiteral token = .ok content) :
    floatLiteral like = .ok content := by
  rw [floatLiteral, same] at found
  rw [floatLiteral]
  split at found
  case h_1 => exact found
  case h_2 => cases found

/-- A number is read alike from the same digits. -/
theorem wholeLiteral_alike {token like : Token} (same : token.text = like.text)
    {content : Literal} (found : wholeLiteral token = .ok content) :
    wholeLiteral like = .ok content := by
  rw [wholeLiteral, same] at found
  rw [wholeLiteral]
  split at found
  case isTrue small => rwa [if_pos small]
  case isFalse large =>
    rw [if_neg large]
    exact floatLiteral_alike same found

variable (kindred : env.Kindred other)

section
include kindred

/-- A table between angle brackets is taken alike where none starts after what is taken. -/
theorem ascription_extends (plain : StopsStoreCall stops) :
    (ascription env).Extends other stops ended
      (fun first second => first.map Token.word = second.map Token.word) (ascription other) := by
  refine .peek kindred.finish fun next like akin => ?_
  have alike : next.isOperator "<" = like.isOperator "<" :=
    akin.is_congr (by decide) fun token stop => (plain token stop).1
  rw [alike]
  split
  · refine .take operator_extends fun _ _ _ => .take ofKind_extends fun table like same => ?_
    exact .take operator_extends fun _ _ _ => .pure (congrArg some same)
  · exact .pure rfl

/-- The table of an operation is found alike. -/
theorem ascribed_alike {named like : Option Token}
    (same : named.map Token.word = like.map Token.word) {operation table : String}
    {line lineToo : Nat} (found : ascribed env named operation line = .ok table) :
    ascribed other like operation lineToo = .ok table := by
  cases named with
  | none =>
    obtain rfl : like = none := by simpa using same.symm
    rw [ascribed, Scope.resolve] at found ⊢
    rw [kindred.scope]
    split at found
    case h_1 => exact found
    case h_2 => cases found
  | some token =>
    obtain ⟨like, rfl⟩ : ∃ token, like = some token := by
      cases like with
      | none => cases same
      | some like => exact ⟨like, rfl⟩
    have text : token.text = like.text := congrArg Word.text (Option.some.inj same)
    rw [ascribed, Scope.require] at found ⊢
    rw [kindred.scope, ← text]
    split at found
    case isTrue known => rwa [if_pos known]
    case isFalse => cases found

end

variable (deepened : ∀ {stops : Token → Prop}, (deepen env below).Extends other stops ended
  (Level.Extends other margin) (deepen other (belowOf other room)))

section
include deepened

/-- An expression is taken alike. -/
theorem expression_extends : (expression env below).Extends other Token.EndsExpression ended Eq
    (expression other (belowOf other room)) := by
  have deepened := @deepened fun _ => True
  refine .before deepened fun lower lowerToo levels source => ?_
  refine (levels.pipeline source).weaken (fun _ ends => ends.toEndsOperand) ?_
  rintro value rest run ends ⟨left, -, rfl⟩
  exact run_furtherStages_of_ends ends.stage

/-- Arguments are taken alike. -/
theorem arguments_extends : (arguments env (expression env below)).Extends other stops ended Eq
    (arguments other (expression other (belowOf other room))) :=
  delimited_extends (expression_extends deepened)

/-- An expression between two symbols is taken alike. -/
theorem enclosed_extends {before after : String} :
    (enclosed env below before after).Extends other stops ended Eq
      (enclosed other (belowOf other room) before after) := by
  refine .andThen symbol_extends fun _ _ _ => ?_
  refine .takeBetween (expression_extends deepened) (fun _ => .take) fun node _ same => ?_
  exact .take symbol_extends fun _ _ _ => .pure same

/-- A field is taken alike. -/
theorem objectField_extends : (objectField env below).Extends other Token.EndsExpression ended Eq
    (objectField other (belowOf other room)) := by
  refine .andThen fieldName_extends fun key _ same => .take symbol_extends fun _ _ _ => ?_
  subst same
  exact .take (expression_extends deepened) fun value _ same => .pure (same ▸ rfl)

/-- A choice between expressions is taken alike. -/
theorem choice_extends : (choice env below).Extends other stops ended Eq
    (choice other (belowOf other room)) := by
  refine .andThen keyword_extends fun _ _ _ => ?_
  refine .take (enclosed_extends deepened) fun condition _ same => ?_
  subst same
  refine .take (enclosed_extends deepened) fun yes _ same => .take keyword_extends fun _ _ _ => ?_
  subst same
  exact .take (enclosed_extends deepened) fun no _ same => .pure (same ▸ rfl)

/-- A contract is taken alike. -/
theorem contract_extends : (contract env below).Extends other stops ended Eq
    (contract other (belowOf other room)) := by
  refine .andThen keyword_extends fun _ _ _ => .take ofKind_extends fun number like same => ?_
  have text : number.text = like.text := congrArg Word.text same
  rw [text]
  exact .take (arguments_extends deepened) fun given _ same => .pure (same ▸ rfl)

/-- A call in the system namespace is taken alike. -/
theorem systemCall_extends {word : String} {function : List Char} :
    (systemCall env below word function).Extends other stops ended Eq
      (systemCall other (belowOf other room) word function) := by
  unfold systemCall
  split
  · refine .andThen keyword_extends fun _ _ _ => ?_
    exact .take (arguments_extends deepened) fun given _ same => .pure (same ▸ rfl)
  · exact .fail

section
include kindred

/-- A store operation is taken alike where neither a table nor arguments start after it. -/
theorem storeCall_extends (plain : StopsStoreCall stops) {inStage : Bool}
    {operator : StoreOperator} :
    (storeCall env below inStage operator).Extends other stops ended Eq
      (storeCall other (belowOf other room) inStage operator) := by
  refine .andThen ofKind_extends fun word like same => ?_
  refine .bind (ascription_extends kindred plain) fun table likeTable tables => ?_
  have finished (given : List Node) : Parser.Extends other stops ended Eq
      (do
        let table ← ascribed env table operator.name word.line
        let call ← (storeOf operator table env.defaultTag inStage given).mapError fun problem =>
          Fault.syntaxError problem word.text word.line
        return Node.store call)
      (do
        let table ← ascribed other likeTable operator.name like.line
        let call ← (storeOf operator table other.defaultTag inStage given).mapError fun problem =>
          Fault.syntaxError problem like.text like.line
        return Node.store call) := by
    refine .bind (.check fun table found => ⟨table, ascribed_alike kindred tables found, rfl⟩) ?_
    intro table _ same
    subst same
    refine .bind (.check fun call made => ⟨call, ?_, rfl⟩) fun call _ same => .pure (same ▸ rfl)
    rw [kindred.defaultTag, ok_of_mapError_eq_ok made]
    rfl
  refine .peek kindred.finish fun next likeNext akin => ?_
  have alike : next.isSymbol "(" = likeNext.isSymbol "(" :=
    akin.is_congr (by decide) fun token stop => (plain token stop).2
  rw [alike]
  dsimp only
  split
  · refine .take (arguments_extends deepened) fun given _ same => ?_
    subst same
    exact finished given
  · refine .bind (Parser.Extends.pure rfl) fun given _ same => ?_
    subst same
    exact finished given

/-- An atom that starts with a keyword is taken alike; only a store operation has to be stopped. -/
theorem keywordAtom_extends {next like : Token} (same : next.word = like.word)
    (plain : storeWord? next = none ∨ StopsStoreCall stops) :
    (keywordAtom env below next).Extends other stops ended Eq
      (keywordAtom other (belowOf other room) like) := by
  have text : next.text = like.text := congrArg Word.text same
  unfold keywordAtom
  rw [storeWord?_congr same] at plain ⊢
  rw [text]
  split
  · exact .andThen keyword_extends fun _ _ _ => .pure rfl
  · exact .andThen keyword_extends fun _ _ _ => .pure rfl
  · exact .andThen keyword_extends fun _ _ _ => .pure rfl
  · exact contract_extends deepened
  · exact choice_extends deepened
  · split
    case h_1 found =>
      rcases plain with none | plain
      · cases none.symm.trans found
      · exact storeCall_extends kindred deepened plain
    case h_2 => exact systemCall_extends deepened
    case h_3 => exact .fail

/-- An atom is taken alike; only a store operation has to be stopped. -/
theorem atom_extendsAt {source : List Token}
    (plain : storeWord? (env.peek source) = none ∨ StopsStoreCall stops) :
    ExtendsAt other stops ended Eq (atom env below).run (atom other (belowOf other room)).run
      source := by
  refine Consumer.extendsAt_ahead fun like same => ?_
  have text : (env.peek source).text = like.text := congrArg Word.text same
  have kind : (env.peek source).kind = like.kind := congrArg Word.kind same
  generalize env.peek source = next at plain same text kind ⊢
  refine (?_ : Consumer.Extends other stops ended Eq _ _) source
  dsimp only
  rw [kind, text]
  split
  · refine .andThen ofKind_extends fun token like same => ?_
    have text : token.text = like.text := congrArg Word.text same
    refine .bind (.check fun content found => ⟨content, wholeLiteral_alike text found, rfl⟩) ?_
    exact fun content _ same => .pure (congrArg Node.literal same)
  · refine .andThen ofKind_extends fun token like same => ?_
    have text : token.text = like.text := congrArg Word.text same
    refine .bind (.check fun content found => ⟨content, floatLiteral_alike text found, rfl⟩) ?_
    exact fun content _ same => .pure (congrArg Node.literal same)
  · exact .andThen ofKind_extends fun token like same =>
      .pure (congrArg (fun word => Node.string (stringContent (Word.text word))) same)
  · exact .andThen ofKind_extends fun token like same =>
      .pure (congrArg (fun word => Node.literal (.blob (Word.text word))) same)
  · exact enclosed_extends deepened
  · exact .andThen (delimited_extends (expression_extends deepened)) fun items _ same =>
      .pure (same ▸ rfl)
  · exact .andThen (delimited_extends (objectField_extends deepened)) fun fields _ same =>
      .pure (same ▸ rfl)
  · exact keywordAtom_extends kindred deepened same plain
  · exact .fail

variable (le : margin ≤ room)
include le

/-- Indices, fields and arguments are taken alike, and go on with a tree before anything. -/
theorem furtherSelections_extends (node : Node) :
    (furtherSelections env below node).Extends other stops (selecting other margin) Eq
      (furtherSelections other (belowOf other room) node) := by
  refine .peekOr (fun rest result left stop run => ?_) fun next like source same => ?_
  · have other (text : String) : env.finish.isSymbol text = false := by
      rw [Token.isSymbol, Token.is, kindred.finish]
      rfl
    rw [if_neg (by simp [other]), if_neg (by simp [other]), if_neg (by simp [other])] at run
    cases run
    refine ⟨node, rfl, room, le, ?_⟩
    rw [level_eq]
    rfl
  have bracket : next.isSymbol "[" = like.isSymbol "[" := is_congr same _ _
  have parenthesis : next.isSymbol "(" = like.isSymbol "(" := is_congr same _ _
  have dot : next.isSymbol "." = like.isSymbol "." := is_congr same _ _
  rw [bracket, parenthesis, dot]
  split
  · refine (?_ : Parser.Extends other stops (selecting other margin) Eq _ _) (next :: source)
    refine .bind deepened fun lower lowerToo levels => .take symbol_extends fun _ _ _ => ?_
    refine .takeBetween levels.expression (fun _ => .take) fun index _ same => ?_
    subst same
    exact .take symbol_extends fun _ _ _ => levels.furtherSelections _
  split
  · refine (?_ : Parser.Extends other stops (selecting other margin) Eq _ _) (next :: source)
    refine .bind deepened fun lower lowerToo levels => ?_
    refine .take (delimited_extends levels.expression) fun given _ same => ?_
    subst same
    exact levels.furtherSelections _
  split
  · refine (?_ : Parser.Extends other stops (selecting other margin) Eq _ _) (next :: source)
    refine .bind deepened fun lower lowerToo levels => .take symbol_extends fun _ _ _ => ?_
    refine .peekToken (fun field => ?_) fun field like same => ?_
    · split
      · exact .take
      split
      · exact .take
      · exact fun _ run => by cases run
    have number : field.isSymbol "@" = like.isSymbol "@" := is_congr same _ _
    have kind : field.kind = like.kind := congrArg Word.kind same
    rw [number, kind]
    split
    · refine .take position_extends fun number _ same => ?_
      subst same
      exact levels.furtherSelections _
    split
    · refine .take ofKind_extends fun path like same => ?_
      have text : path.text = like.text := congrArg Word.text same
      rw [text]
      exact levels.furtherParts same _ _
    · exact .fail
  · exact Parser.extendsAt_pure rfl (List.cons_ne_nil _ _)

/-- The parts of a name are taken alike, and what follows the name goes on before anything. -/
theorem furtherParts_extends {path like : Token} (same : path.word = like.word)
    (parts : List String) (node : Node) :
    (furtherParts env below path parts node).Extends other stops (selecting other margin) Eq
      (furtherParts other (belowOf other room) like parts node) := by
  cases parts with
  | nil => exact furtherSelections_extends kindred deepened le node
  | cons part parts =>
    refine .bind deepened fun lower lowerToo levels => ?_
    split
    · exact levels.furtherParts same parts (fieldOf node part)
    split
    · refine .take position_extends fun number _ same => ?_
      subst same
      exact levels.furtherSelections _
    · exact .refuse

/-- An atom with what follows it is taken alike, and it goes on before anything unless it is a store
operation that has to be stopped. -/
theorem selection_extendsAt {source : List Token}
    (plain : storeWord? (env.peek source) = none ∨ StopsStoreCall stops) :
    ExtendsAt other stops (selecting other margin) Eq (selection env below).run
      (selection other (belowOf other room)).run source := by
  refine Consumer.extendsAt_ahead fun like same => ?_
  have kind : (env.peek source).kind = like.kind := congrArg Word.kind same
  rw [kind]
  split
  · refine (?_ : Consumer.Extends other stops (selecting other margin) Eq _ _) source
    refine .andThen ofKind_extends fun path like same => ?_
    have text : path.text = like.text := congrArg Word.text same
    rw [text]
    split
    · exact furtherSelections_extends kindred deepened le _
    · exact furtherParts_extends kindred deepened le same _ _
  · refine Consumer.extendsAt_andThen (atom_extendsAt kindred deepened plain) fun node _ same => ?_
    subst same
    exact furtherSelections_extends kindred deepened le node

/-- An operand is taken alike where it ends. -/
theorem operand_extends : (operand env below).Extends other (Token.EndsOperand 1) ended Eq
    (operand other (belowOf other room)) := by
  refine .ahead fun next like same => ?_
  have not : next.isOperator "!" = like.isOperator "!" := is_congr same _ _
  have minus : next.isOperator "-" = like.isOperator "-" := is_congr same _ _
  rw [not, minus]
  split
  · refine .andThen operator_extends fun _ _ _ => .bind deepened fun lower lowerToo levels => ?_
    exact .take levels.operand fun node _ same => .pure (same ▸ rfl)
  split
  · refine .andThen operator_extends fun _ _ _ => .bind deepened fun lower lowerToo levels => ?_
    refine .peekToken (fun _ => .take) fun first like same => ?_
    refine .take levels.operand.counted fun counted _ alike => ?_
    subst alike
    rw [isLeastMagnitude_congr same]
    exact .pure rfl
  · intro source
    have plain : storeWord? (env.peek source) = none ∨ StopsStoreCall (Token.EndsOperand 1) :=
      .inr stopsStoreCall_endsOperand
    refine (selection_extendsAt kindred deepened le plain).weaken (fun _ => id) ?_
    rintro node rest run ends ⟨left, -, rfl⟩
    exact run_furtherSelections_of_ends ends.toEndsSelection

omit le in
/-- Operators and their right sides are taken alike where the last operand ends. -/
theorem furtherOperands_extends {least : Nat} (positive : 1 ≤ least) (left : Node) :
    (furtherOperands env below least left).Extends other (Token.EndsOperand 1) ended Eq
      (furtherOperands other (belowOf other room) least left) := by
  refine .peek kindred.finish fun next like akin => ?_
  cases akin with
  | finish finish stop =>
    have none : binary? least next = none := by rw [binary?, finish, if_neg (by decide)]
    rw [none, (stop.mono positive).operator]
    exact .pure rfl
  | same same =>
    have text : next.text = like.text := congrArg Word.text same
    rw [binary?_congr same least, text]
    cases binary? least like with
    | none => exact .pure rfl
    | some found =>
      obtain ⟨strength, primitive⟩ := found
      refine .take operator_extends fun _ _ _ => .bind deepened fun lower lowerToo levels => ?_
      refine .take (levels.combination (Nat.succ_pos _)) fun right _ same => ?_
      subst same
      exact levels.furtherOperands _ positive

/-- Operands combined by operators are taken alike where the last operand ends. -/
theorem combination_extends {least : Nat} (positive : 1 ≤ least) :
    (combination env below least).Extends other (Token.EndsOperand 1) ended Eq
      (combination other (belowOf other room) least) := by
  refine .andThen (operand_extends kindred deepened le) fun left _ same => ?_
  subst same
  exact furtherOperands_extends kindred deepened positive left

/-- Stages are taken alike, and go on with a tree where the last operand ends. -/
theorem furtherStages_extends (value : Node) :
    (furtherStages env below value).Extends other (Token.EndsOperand 1) (piping other margin) Eq
      (furtherStages other (belowOf other room) value) := by
  refine .peekOr (fun rest result left stop run => ?_) fun next like source same => ?_
  · have none : env.finish.isOperator "|>" = false := by
      rw [Token.isOperator, Token.is, kindred.finish]
      rfl
    rw [if_neg (by simp [none])] at run
    cases run
    refine ⟨value, rfl, room, le, ?_⟩
    rw [level_eq]
    rfl
  have stage : next.isOperator "|>" = like.isOperator "|>" := is_congr same _ _
  rw [stage]
  split
  · refine (?_ : Parser.Extends other (Token.EndsOperand 1) (piping other margin) Eq _ _)
      (next :: source)
    refine .take operator_extends fun _ _ _ => .bind deepened fun lower lowerToo levels => ?_
    refine .peekToken (fun first => ?_) fun first like same => ?_
    · dsimp only
      split
      · exact .take
      · exact .take
    dsimp only
    rw [storeWord?_congr same]
    split
    · refine .take (levels.stage _) fun stage _ same => ?_
      subst same
      exact levels.furtherStages _
    · refine .take (levels.combination (Nat.le_refl 1)) fun stage _ same => ?_
      subst same
      exact levels.furtherStages _
  · exact Parser.extendsAt_pure rfl (List.cons_ne_nil _ _)

/-- The level above is extended. -/
theorem levelAbove_extends : (levelAbove env below).Extends other margin
    (levelAbove other (belowOf other room)) where
  expression := expression_extends deepened
  pipeline := by
    refine .andThen (combination_extends kindred deepened le (Nat.le_refl 1)) fun value _ same => ?_
    subst same
    exact furtherStages_extends kindred deepened le value
  combination := combination_extends kindred deepened le
  operand := operand_extends kindred deepened le
  stage _ := storeCall_extends kindred deepened stopsStoreCall_endsOperand
  furtherStages := furtherStages_extends kindred deepened le
  furtherOperands left positive := furtherOperands_extends kindred deepened positive left
  furtherSelections := furtherSelections_extends kindred deepened le
  furtherParts := furtherParts_extends kindred deepened le

end

end

end

/-- A level with more room takes what a level takes when more comes after. -/
theorem level_extends {env other : Environment} (kindred : env.Kindred other) (margin room : Nat) :
    (level env room).Extends other margin (level other (room + margin)) := by
  -- Without room nothing is taken from the level below, so anything may stand below the other one.
  induction room with
  | zero =>
    rw [level_eq, level_eq]
    exact levelAbove_extends kindred .fail (by omega)
  | succ room ih =>
    rw [level_eq, level_eq]
    rw [Nat.add_right_comm]
    exact levelAbove_extends kindred (.pure ih) (by omega)

/-- An atom with what follows it is taken alike with more room, and it goes on before anything
unless it is a store operation that has to be stopped. -/
theorem level_selection_extendsAt {env other : Environment} (kindred : env.Kindred other)
    (margin room : Nat) {stops : Token → Prop} {source : List Token}
    (plain : storeWord? (env.peek source) = none ∨ StopsStoreCall stops) :
    ExtendsAt other stops (selecting other margin) Eq (selection env (belowOf env room)).run
      (selection other (belowOf other (room + margin))).run source := by
  cases room with
  | zero => exact selection_extendsAt kindred .fail (by omega) plain
  | succ room =>
    rw [Nat.add_right_comm]
    have levels := level_extends kindred margin room
    exact selection_extendsAt kindred (.pure levels) (by omega) plain

end Grammar

end ContentSpace

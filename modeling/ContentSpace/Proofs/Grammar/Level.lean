import ContentSpace.Grammar.Program
import ContentSpace.Proofs.Grammar.Run
import ContentSpace.Proofs.Source.Word

/-!
# Runs of the parsers of a level

The parsers of a level are the parsers above the level below. The next token alone tells what goes
on after a tree: a bracket or a dot, an operator that is strong enough, or a further stage; at any
other token nothing goes on. Lists of items are read item by item, whatever the items are.
-/

namespace ContentSpace

namespace Token

variable {token : Token} {word : Word}

/-- A token is what its word says. -/
theorem is_eq (known : token.word = word) (kind : TokenKind) (text : String) :
    token.is kind text = decide (word = ⟨kind, text⟩) := by
  rw [Bool.eq_iff_iff, is_iff, known, decide_eq_true_iff]

/-- No index, no field and no argument list starts at a token. -/
structure EndsSelection (token : Token) : Prop where
  /-- No index starts there. -/
  bracket : token.isSymbol "[" = false
  /-- No argument list starts there. -/
  parenthesis : token.isSymbol "(" = false
  /-- No field starts there. -/
  dot : token.isSymbol "." = false

/-- No operator of a certain strength stands at a token, and no selection starts there. -/
structure EndsOperand (least : Nat) (token : Token) : Prop extends token.EndsSelection where
  /-- No operator that is strong enough stands there. -/
  operator : Grammar.binary? least token = none

/-- Nothing at a token goes on with an expression. -/
structure EndsExpression (token : Token) : Prop extends token.EndsOperand 1 where
  /-- No stage starts there. -/
  stage : token.isOperator "|>" = false

/-- An expression goes on with operators, brackets and dots only. -/
theorem endsExpression_of_word (known : token.word = word) (kind : word.kind ≠ .operator)
    (plain : word.kind = .symbol → word.text ∉ ["[", "(", "."]) : token.EndsExpression := by
  have other (text : String) (opens : text ∈ ["[", "(", "."]) : token.isSymbol text = false := by
    rw [isSymbol, is_eq known, decide_eq_false_iff_not]
    rintro rfl
    exact plain rfl opens
  refine ⟨⟨⟨other _ (by simp), other _ (by simp), other _ (by simp)⟩, ?_⟩, ?_⟩
  · have same : token.kind = word.kind := congrArg Word.kind known
    rw [Grammar.binary?, same, if_neg kind]
  · rw [isOperator, is_eq known, decide_eq_false_iff_not]
    rintro rfl
    exact kind rfl

/-- Where no operator of a certain strength stands, none that is stronger stands. -/
theorem EndsOperand.mono {less more : Nat} (ends : token.EndsOperand less) (le : less ≤ more) :
    token.EndsOperand more := by
  refine ⟨ends.toEndsSelection, ?_⟩
  have weak := ends.operator
  unfold Grammar.binary? at weak ⊢
  split at weak
  case isTrue kind =>
    rw [if_pos kind]
    rw [Option.filter_eq_none_iff] at weak ⊢
    intro found here strong
    exact weak found here (by simp at strong ⊢; omega)
  case isFalse kind => rw [if_neg kind]

/-- No selection starts at an operator. -/
theorem endsSelection_of_operator {text : String} (known : token.word = .operator text) :
    token.EndsSelection :=
  ⟨is_eq known _ _, is_eq known _ _, is_eq known _ _⟩

/-- No operand goes on at a stage. -/
theorem endsOperand_of_stage (known : token.word = .operator "|>") : token.EndsOperand 1 := by
  refine ⟨endsSelection_of_operator known, ?_⟩
  obtain ⟨span, rfl⟩ := exists_of_word known
  rfl

end Token

namespace Grammar

/-- The level below the one with a certain room. -/
def belowOf (env : Environment) : (room : Nat) → Below
  | 0 => none
  | room + 1 => some ⟨fun _ => level env room⟩

variable {α : Type} {env : Environment} {room : Nat} {node : Node} {source rest : List Token}

/-- A level stands above the level below. -/
theorem level_eq (env : Environment) (room : Nat) :
    level env room = levelAbove env (belowOf env room) := by
  cases room <;> rfl

/-- What reads a stage that starts with a certain token. -/
def Level.stageAt (level : Level) (next : Token) : Consumer Node :=
  match storeWord? next with
  | some operator => level.stage operator
  | none => level.combination 1

/-- Room is taken up from the level below. -/
@[simp] theorem run_deepen_succ :
    (deepen env (belowOf env (room + 1))).run source = .ok (level env room, source) :=
  rfl

/-- A token is taken when its word is asked for. -/
theorem run_symbol {token : Token} {text : String} (known : token.word = .symbol text) :
    (symbol env text).run (token :: source) = .ok (token, source) := by
  rw [symbol, run_token_cons, Token.isSymbol, if_pos (Token.is_iff.mpr known)]

/-- A token is taken when its word is asked for. -/
theorem run_operator {token : Token} {text : String} (known : token.word = .operator text) :
    (operator env text).run (token :: source) = .ok (token, source) := by
  rw [operator, run_token_cons, Token.isOperator, if_pos (Token.is_iff.mpr known)]

/-- A token is taken when its kind is asked for. -/
theorem run_ofKind {token : Token} {kind : TokenKind} {problem : SyntaxProblem}
    (known : token.kind = kind) :
    (ofKind env kind problem).run (token :: source) = .ok (token, source) := by
  rw [ofKind, run_token_cons, if_pos (by simp [known])]

/-- A combination is an operand with operators after it. -/
theorem run_combination {least : Nat} :
    ((level env room).combination least).run source =
      (level env room).operand.run source >>= fun result =>
        ((level env room).furtherOperands least result.1).run result.2 := by
  rw [level_eq]
  exact Consumer.run_andThen (operand env (belowOf env room)) _

/-- A pipeline is a combination with stages after it. -/
theorem run_pipeline :
    (level env room).pipeline.run source =
      ((level env room).combination 1).run source >>= fun result =>
        ((level env room).furtherStages result.1).run result.2 := by
  rw [level_eq]
  exact Consumer.run_andThen (combination env (belowOf env room) 1) _

/-- An expression is a pipeline with one unit of room less. -/
theorem run_expression :
    (level env (room + 1)).expression.run source = (level env room).pipeline.run source :=
  Consumer.run_before (deepen env (belowOf env (room + 1))) Level.pipeline

/-- Where no selection starts, an atom ends. -/
theorem run_furtherSelections_of_ends (ends : (env.peek source).EndsSelection) :
    ((level env room).furtherSelections node).run source = .ok (node, source) := by
  rw [level_eq]
  show (furtherSelections env (belowOf env room) node).run source = _
  simp [furtherSelections, ends.bracket, ends.parenthesis, ends.dot]

/-- Where an index, a field or arguments start, at least one more token is taken. -/
theorem length_lt_of_run_furtherSelections (goes : ¬(env.peek source).EndsSelection)
    {result : Node}
    (run : ((level env room).furtherSelections node).run source = .ok (result, rest)) :
    rest.length < source.length := by
  rw [level_eq] at run
  change (furtherSelections env (belowOf env room) node).run source = _ at run
  rw [furtherSelections, Parser.run_bind, Parser.run_next, ok_bind] at run
  dsimp only at run
  split at run
  case isTrue => exact Parser.length_lt_of_run_bind run
  case isFalse bracket =>
    split at run
    case isTrue => exact Parser.length_lt_of_run_bind run
    case isFalse parenthesis =>
      split at run
      case isTrue => exact Parser.length_lt_of_run_bind run
      case isFalse dot =>
        exact absurd ⟨Bool.eq_false_iff.mpr bracket, Bool.eq_false_iff.mpr parenthesis,
          Bool.eq_false_iff.mpr dot⟩ goes

/-- Where no operator stands, the operands end. -/
theorem run_furtherOperands_of_ends {least : Nat} (ends : binary? least (env.peek source) = none) :
    ((level env room).furtherOperands least node).run source = .ok (node, source) := by
  rw [level_eq]
  show (furtherOperands env (belowOf env room) least node).run source = _
  simp [furtherOperands, ends]

/-- Where no stage starts, a pipeline ends. -/
theorem run_furtherStages_of_ends (ends : (env.peek source).isOperator "|>" = false) :
    ((level env room).furtherStages node).run source = .ok (node, source) := by
  rw [level_eq]
  show (furtherStages env (belowOf env room) node).run source = _
  simp [furtherStages, ends]

section

variable {token : Token}

/-- A bracket starts an index. -/
theorem run_furtherSelections_bracket (opens : token.word = .symbol "[") :
    ((level env (room + 1)).furtherSelections node).run (token :: source) =
      (level env room).expression.run source >>= fun place =>
        (symbol env "]").run place.2 >>= fun closing =>
          ((level env room).furtherSelections (.apply .index [node, place.1])).run closing.2 := by
  have comes : (env.peek (token :: source)).isSymbol "[" = true := Token.is_iff.mpr opens
  rw [level_eq]
  show (furtherSelections env (belowOf env (room + 1)) node).run _ = _
  rw [furtherSelections, Parser.run_bind, Parser.run_next, ok_bind]
  dsimp only
  rw [if_pos comes]
  simp only [Parser.run_bind, run_deepen_succ, Parser.run_consumer, ok_bind, run_symbol opens]

/-- A parenthesis starts an argument list. -/
theorem run_furtherSelections_parenthesis (opens : token.word = .symbol "(") :
    ((level env (room + 1)).furtherSelections node).run (token :: source) =
      (arguments env (level env room).expression).run (token :: source) >>= fun given =>
        ((level env room).furtherSelections (.call node given.1)).run given.2 := by
  have other : (env.peek (token :: source)).isSymbol "[" = false := Token.is_eq opens _ _
  have comes : (env.peek (token :: source)).isSymbol "(" = true := Token.is_iff.mpr opens
  rw [level_eq]
  show (furtherSelections env (belowOf env (room + 1)) node).run _ = _
  rw [furtherSelections, Parser.run_bind, Parser.run_next, ok_bind]
  dsimp only
  rw [if_neg (Bool.eq_false_iff.mp other), if_pos comes]
  simp only [Parser.run_bind, run_deepen_succ, Parser.run_consumer, ok_bind]

/-- A dot and a name start the parts of the name. -/
theorem run_furtherSelections_dot {path : Token} {name : String} (dot : token.word = .symbol ".")
    (named : path.word = .identifier name) :
    ((level env (room + 1)).furtherSelections node).run (token :: path :: source) =
      ((level env room).furtherParts path (nameParts name) node).run source := by
  have bracket : (env.peek (token :: path :: source)).isSymbol "[" = false := Token.is_eq dot _ _
  have parenthesis : (env.peek (token :: path :: source)).isSymbol "(" = false :=
    Token.is_eq dot _ _
  have comes : (env.peek (token :: path :: source)).isSymbol "." = true := Token.is_iff.mpr dot
  have position : (env.peek (path :: source)).isSymbol "@" = false := Token.is_eq named _ _
  have kind : path.kind = .identifier := congrArg Word.kind named
  have text : path.text = name := congrArg Word.text named
  have here : (env.peek (path :: source)).kind = .identifier := kind
  rw [level_eq]
  show (furtherSelections env (belowOf env (room + 1)) node).run _ = _
  rw [furtherSelections, Parser.run_bind, Parser.run_next, ok_bind]
  dsimp only
  rw [if_neg (Bool.eq_false_iff.mp bracket), if_neg (Bool.eq_false_iff.mp parenthesis),
    if_pos comes]
  simp only [Parser.run_bind, run_deepen_succ, Parser.run_consumer, ok_bind, run_symbol dot,
    Parser.run_next]
  rw [if_neg (Bool.eq_false_iff.mp position), if_pos (.inl here), here, Parser.run_bind,
    Parser.run_consumer, run_ofKind kind, ok_bind, text]

/-- A part of a name that is not empty is a field. -/
theorem run_furtherParts_cons {path : Token} {part : String} {parts : List String}
    (some : part ≠ "") :
    ((level env (room + 1)).furtherParts path (part :: parts) node).run source =
      ((level env room).furtherParts path parts (fieldOf node part)).run source := by
  rw [level_eq]
  show (furtherParts env (belowOf env (room + 1)) path (part :: parts) node).run _ = _
  rw [furtherParts, Parser.run_bind, run_deepen_succ, ok_bind, if_pos some]

/-- Without further parts, the selections after a name go on. -/
theorem run_furtherParts_nil {path : Token} :
    ((level env room).furtherParts path [] node).run source =
      ((level env room).furtherSelections node).run source := by
  rw [level_eq]
  rfl

/-- A name without a dot has one part. -/
theorem nameParts_of_dotless {name : String} (dotless : '.' ∉ name.toList) :
    nameParts name = [name] := by
  have parts (characters : List Char) (dotless : '.' ∉ characters) :
      dotParts characters = [characters] := by
    induction characters with
    | nil => rfl
    | cons c rest ih =>
      rw [List.mem_cons, not_or] at dotless
      rw [dotParts, if_neg (Ne.symm dotless.1), ih dotless.2]
  rw [nameParts, parts _ dotless, List.map_singleton, String.ofList_toList]

/-- What starts with no operator is an atom with selections after it, or a name. -/
theorem run_operand_of_kind {kind : TokenKind} (known : token.kind = kind)
    (plain : kind ≠ .operator) :
    (level env room).operand.run (token :: source) =
      (selection env (belowOf env room)).run (token :: source) := by
  have other (text : String) : token.isOperator text = false := by
    simp [Token.isOperator, Token.is, known, plain]
  rw [level_eq]
  show (operand env (belowOf env room)).run (token :: source) = _
  rw [operand, Consumer.run_ahead]
  simp only [Environment.peek, List.headD_cons, other]
  rfl

/-- An atom that is no name is read before its selections. -/
theorem run_operand_of_atom {kind : TokenKind} (known : token.kind = kind)
    (plain : kind ≠ .operator) (other : kind ≠ .identifier) :
    (level env room).operand.run (token :: source) =
      (atom env (belowOf env room)).run (token :: source) >>= fun result =>
        ((level env room).furtherSelections result.1).run result.2 := by
  have no : (env.peek (token :: source)).kind ≠ .identifier := fun same => other (known ▸ same)
  rw [run_operand_of_kind known plain, selection, Consumer.run_ahead, if_neg no,
    Consumer.run_andThen, level_eq]
  rfl

/-- A name without a dot is read before its selections. -/
theorem run_operand_name {name : String} (known : token.word = .identifier name)
    (dotless : '.' ∉ name.toList) :
    (level env room).operand.run (token :: source) =
      ((level env room).furtherSelections (.var name)).run source := by
  have kind : token.kind = .identifier := congrArg Word.kind known
  have text : token.text = name := congrArg Word.text known
  have named : (env.peek (token :: source)).kind = .identifier := kind
  rw [run_operand_of_kind kind (by decide), selection, Consumer.run_ahead, if_pos named,
    Consumer.run_andThen, run_ofKind kind, ok_bind, text, nameParts_of_dotless dotless, level_eq]
  rfl

/-- A negation takes up room for its operand. -/
theorem run_operand_not (known : token.word = .operator "!") :
    (level env (room + 1)).operand.run (token :: source) =
      (level env room).operand.run source >>= fun operand =>
        .ok (.apply .not [operand.1], operand.2) := by
  have comes : (env.peek (token :: source)).isOperator "!" = true := Token.is_iff.mpr known
  rw [level_eq]
  show (operand env (belowOf env (room + 1))).run _ = _
  rw [operand, Consumer.run_ahead, if_pos comes, Consumer.run_andThen, run_operator known, ok_bind]
  simp only [Parser.run_bind, run_deepen_succ, Parser.run_consumer, ok_bind, Parser.run_pure]

/-- A minus sign asks for room before its operand is read. -/
theorem run_operand_sign (known : token.word = .operator "-") :
    (level env room).operand.run (token :: source) =
      (deepen env (belowOf env room)).run source >>= fun lower =>
        lower.1.operand.counted.run lower.2 >>= fun operand =>
          .ok (if isLeastMagnitude (env.peek lower.2) && operand.1.2 == 1 then .int Int64.minValue
            else negated operand.1.1, operand.2) := by
  have other : (env.peek (token :: source)).isOperator "!" = false := Token.is_eq known _ _
  have comes : (env.peek (token :: source)).isOperator "-" = true := Token.is_iff.mpr known
  rw [level_eq]
  show (operand env (belowOf env room)).run _ = _
  rw [operand, Consumer.run_ahead, if_neg (Bool.eq_false_iff.mp other), if_pos comes,
    Consumer.run_andThen, run_operator known, ok_bind]
  simp only [Parser.run_bind, Parser.run_consumer, ok_bind, Parser.run_next, Parser.run_pure]

/-- A minus sign takes up room for its operand. -/
theorem run_operand_minus (known : token.word = .operator "-") :
    (level env (room + 1)).operand.run (token :: source) =
      (level env room).operand.counted.run source >>= fun operand =>
        .ok (if isLeastMagnitude (env.peek source) && operand.1.2 == 1 then .int Int64.minValue
          else negated operand.1.1, operand.2) := by
  rw [run_operand_sign known, run_deepen_succ, ok_bind]

/-- An operand behind a minus sign is negated, unless it is the number alone that only has a
negative. -/
theorem run_operand_minus_of_run {inner : Node} {rest : List Token}
    (known : token.word = .operator "-")
    (run : (level env room).operand.run source = .ok (inner, rest)) :
    (level env (room + 1)).operand.run (token :: source) =
      .ok (if isLeastMagnitude (env.peek source) && source.length - rest.length == 1 then
        .int Int64.minValue else negated inner, rest) := by
  rw [run_operand_minus known, Consumer.run_counted, run]
  rfl

/-- An operand behind a minus sign is read one level below. -/
theorem exists_run_of_minus {sign : Token} {result : Node} (minus : sign.word = .operator "-")
    (run : (level env room).operand.run (sign :: source) = .ok (result, rest)) :
    ∃ less inner, (level env less).operand.run source = .ok (inner, rest) ∧
      result = if isLeastMagnitude (env.peek source) && source.length - rest.length == 1 then
        .int Int64.minValue else negated inner := by
  cases room with
  | zero =>
    rw [run_operand_sign minus] at run
    cases run
  | succ less =>
    rw [run_operand_minus minus, Consumer.run_counted] at run
    cases inside : (level env less).operand.run source with
    | error failure =>
      rw [inside] at run
      cases run
    | ok taken =>
      rw [inside] at run
      cases run
      exact ⟨less, taken.1, inside, rfl⟩

/-- An operator that is strong enough has a right side, whose operators are stronger. -/
theorem run_furtherOperands_operator {least strength : Nat} {text : String} {primitive : Primitive}
    (known : token.word = .operator text)
    (strong : binary? least token = some (strength, primitive)) :
    ((level env (room + 1)).furtherOperands least node).run (token :: source) =
      ((level env room).combination (strength + 1)).run source >>= fun right =>
        ((level env room).furtherOperands least (.apply primitive [node, right.1])).run
          right.2 := by
  have text : (env.peek (token :: source)).text = text := congrArg Word.text known
  have here : binary? least (env.peek (token :: source)) = some (strength, primitive) := strong
  rw [level_eq]
  show (furtherOperands env (belowOf env (room + 1)) least node).run _ = _
  rw [furtherOperands, Parser.run_bind, Parser.run_next, ok_bind]
  dsimp only
  rw [here]
  simp only [Parser.run_bind, run_deepen_succ, Parser.run_consumer, ok_bind, text,
    run_operator known]

/-- A further stage is read as its first token tells. -/
theorem run_furtherStages_stage (known : token.word = .operator "|>") :
    ((level env (room + 1)).furtherStages node).run (token :: source) =
      ((level env room).stageAt (env.peek source)).run source >>= fun stage =>
        ((level env room).furtherStages (.sugar (.pipeline node stage.1))).run stage.2 := by
  have comes : (env.peek (token :: source)).isOperator "|>" = true := Token.is_iff.mpr known
  rw [level_eq]
  show (furtherStages env (belowOf env (room + 1)) node).run _ = _
  rw [furtherStages, Parser.run_bind, Parser.run_next, ok_bind]
  dsimp only
  rw [if_pos comes, Level.stageAt]
  simp only [Parser.run_bind, run_deepen_succ, Parser.run_consumer, ok_bind, run_operator known,
    Parser.run_next]
  cases storeWord? (env.peek source) with
  | some operator => exact (Parser.run_bind _ _).trans (by rw [Parser.run_consumer])
  | none => exact (Parser.run_bind _ _).trans (by rw [Parser.run_consumer])

end

/-- Nothing goes on with an expression before further items, each after a comma. -/
theorem endsExpression_of_further {tokens : List Token} {items : List α} {spelt : α → List Word}
    (same : tokens.map Token.word = items.flatMap fun each => .symbol "," :: spelt each)
    (ends : (env.peek rest).EndsExpression) : (env.peek (tokens ++ rest)).EndsExpression := by
  cases items with
  | nil =>
    obtain rfl : tokens = [] := List.map_eq_nil_iff.mp same
    exact ends
  | cons next items =>
    obtain ⟨comma, tokens, rfl, known, -⟩ := List.map_eq_cons_iff.mp same
    exact Token.endsExpression_of_word known (by decide) (by decide)

/-- A consumer takes certain words for a value where nothing after them goes on with an
expression. -/
def Consumer.Takes (env : Environment) (consumer : Consumer α) (words : List Word) (value : α) :
    Prop :=
  ∀ ⦃tokens rest : List Token⦄, tokens.map Token.word = words →
    (env.peek rest).EndsExpression → consumer.run (tokens ++ rest) = .ok (value, rest)

section

variable {item : Consumer α} {items : List (α × List Word)} {tokens : List Token}
  (takes : ∀ each ∈ items, item.Takes env each.2 each.1)
include takes

/-- Further items are taken one by one, each after a comma. -/
theorem run_furtherItems_words
    (same : tokens.map Token.word = items.flatMap fun each => .symbol "," :: each.2)
    (ends : (env.peek rest).EndsExpression) (last : (env.peek rest).isSymbol "," = false) :
    (furtherItems env item).run (tokens ++ rest) = .ok (items.map Prod.fst, rest) := by
  induction items generalizing tokens with
  | nil =>
    obtain rfl : tokens = [] := by simpa using same
    rw [List.nil_append, run_furtherItems, if_neg (by simp [last])]
    rfl
  | cons each items ih =>
    obtain ⟨here, later⟩ := List.forall_mem_cons.mp takes
    obtain ⟨comma, tokens, rfl, known, same⟩ := List.map_eq_cons_iff.mp same
    obtain ⟨first, tokens, rfl, taken, same⟩ := List.map_eq_append_iff.mp same
    have after := endsExpression_of_further same ends
    have comes : (env.peek (comma :: (first ++ tokens) ++ rest)).isSymbol "," = true :=
      Token.is_iff.mpr known
    rw [run_furtherItems, if_pos comes, List.cons_append, run_symbol known, ok_bind,
      List.append_assoc, here taken after, ok_bind, ih later same]
    rfl

/-- Items between two symbols are taken one by one. -/
theorem run_delimited_words {before after : String} (closing : after ∈ [")", "]"])
    (begins : ∀ each ∈ items, ∃ first others, each.2 = first :: others ∧ first ≠ .symbol after)
    (same : tokens.map Token.word =
      .symbol before :: Word.separated (items.map Prod.snd) ++ [.symbol after]) :
    (delimited env before after item).run (tokens ++ rest) = .ok (items.map Prod.fst, rest) := by
  have closes {token : Token} (known : token.word = .symbol after) :
      token.EndsExpression ∧ token.isSymbol "," = false := by
    simp only [List.mem_cons, List.not_mem_nil, or_false] at closing
    rcases closing with rfl | rfl
    · exact ⟨Token.endsExpression_of_word known (by decide) (by decide), Token.is_eq known _ _⟩
    · exact ⟨Token.endsExpression_of_word known (by decide) (by decide), Token.is_eq known _ _⟩
  obtain ⟨opening, tokens, rfl, opens, whole⟩ := List.map_eq_cons_iff.mp same
  obtain ⟨inside, last, rfl, listed, ended⟩ := List.map_eq_append_iff.mp whole
  obtain ⟨close, rfl, known⟩ : ∃ close, last = [close] ∧ close.word = .symbol after := by
    simpa using ended
  obtain ⟨ends, last⟩ : (env.peek ([close] ++ rest)).EndsExpression ∧
      (env.peek ([close] ++ rest)).isSymbol "," = false :=
    closes known
  rw [delimited, Consumer.run_andThen, List.cons_append, run_symbol opens, ok_bind,
    Parser.run_bind, Parser.run_next, ok_bind, List.append_assoc]
  cases items with
  | nil =>
    obtain rfl : inside = [] := by simpa [Word.separated] using listed
    have comes : (env.peek ([] ++ ([close] ++ rest))).isSymbol after = true :=
      Token.is_iff.mpr known
    rw [if_pos comes, Parser.run_bind, Parser.run_consumer, List.nil_append, List.singleton_append,
      run_symbol known]
    rfl
  | cons each items =>
    obtain ⟨here, later⟩ := List.forall_mem_cons.mp takes
    rw [List.map_cons, Word.separated_cons, List.flatMap_map] at listed
    obtain ⟨tokens, others, rfl, taken, further⟩ := List.map_eq_append_iff.mp listed
    have starts : (env.peek (tokens ++ others ++ ([close] ++ rest))).isSymbol after = false := by
      obtain ⟨first, more, same, different⟩ := begins each (List.mem_cons_self ..)
      rw [same] at taken
      obtain ⟨token, tokens, rfl, known, -⟩ := List.map_eq_cons_iff.mp taken
      exact (Token.is_eq known _ _).trans (decide_eq_false different)
    have following := endsExpression_of_further further ends
    rw [if_neg (Bool.eq_false_iff.mp starts), Parser.run_bind, Parser.run_consumer,
      List.append_assoc, here taken following, ok_bind, Parser.run_bind,
      run_furtherItems_words later further ends last, ok_bind, Parser.run_bind,
      Parser.run_consumer, List.singleton_append, run_symbol known]
    rfl

end

end Grammar

open Grammar

/-- What is taken from the words of all tokens of a source is the expression it consists of. -/
theorem parseExpression_of_takes {settings : Settings} {scope : Scope} {source : String}
    {node : Node} {words : List Word}
    (takes : (level (start settings scope source) settings.maxDepth).expression.Takes
      (start settings scope source) words node)
    (same : (Source.tokens settings source).map Token.word = words) :
    parseExpression settings scope source = .ok node := by
  have finish : ((start settings scope source).peek []).word = ⟨.finish, ""⟩ := rfl
  have taken := takes same (Token.endsExpression_of_word finish (by decide) (by decide))
  rw [List.append_nil] at taken
  rw [parseExpression, Grammar.read, Parser.map_value_eq_map_run, Parser.run_bind,
    Parser.run_consumer]
  show ((level _ settings.maxDepth).expression.run _ >>= _).map _ = _
  rw [taken]
  rfl

end ContentSpace

import ContentSpace.Proofs.Source.Word
import ContentSpace.Tree.Basic

/-!
# How expressions are written

Operators have a strength, and so has every form of expression: a pipeline is weakest, then come the
binary operators in their order, then signs, then indices, fields and calls; all other forms are
strongest. Where an operand of a certain strength is expected, a weaker one is written between
parentheses. Operators of one strength group to the left, so the right side of one has to be
stronger than the operator itself.

More parentheses do no harm: an expression has one writing without any that are not needed and many
others.
-/

namespace ContentSpace

/-- The text and the strength of the operator that an operation on two operands is written with. -/
def Primitive.infix? (primitive : Primitive) : Option (String × Nat) :=
  (Primitive.binaryOperators.find? fun entry => entry.2.2 = primitive).map
    fun (text, strength, _) => (text, strength)

namespace Node

/-- How strongly the form of an expression holds together. -/
def strength : Node → Nat
  | .sugar (.pipeline _ _) => 0
  | .apply .not _ | .apply .neg _ => 7
  | .apply .index _ | .apply .field _ | .call _ _ => 8
  | .apply primitive _ => primitive.infix?.elim 9 Prod.snd
  | _ => 9

/-- The words of an expression where one of a certain strength is expected. -/
def asOperand (least : Nat) (node : Node) (words : List Word) : List Word :=
  if node.strength < least then Word.parenthesized words else words

mutual

/-- An expression as words, without parentheses that are not needed. -/
def words : Node → List Word
  | .var name => [.identifier name]
  | .literal (.int n) => [.digits n.toInt.toNat]
  | .apply .not [operand] => .operator "!" :: operand.asOperand 7 (words operand)
  | .apply .neg [operand] => .operator "-" :: operand.asOperand 7 (words operand)
  | .apply .index [node, place] =>
    node.asOperand 8 (words node) ++ .symbol "[" :: words place ++ [.symbol "]"]
  | .apply .field [node, .literal (.string name)] =>
    node.asOperand 8 (words node) ++ [.symbol ".", .identifier name]
  | .apply .makeArray items => .symbol "[" :: Word.separated (wordsOfAll items) ++ [.symbol "]"]
  | .apply primitive [left, right] =>
    match primitive.infix? with
    | some (text, strength) =>
      left.asOperand strength (words left) ++
        .operator text :: right.asOperand (strength + 1) (words right)
    | none => []
  | .call target arguments =>
    target.asOperand 8 (words target) ++
      Word.parenthesized (Word.separated (wordsOfAll arguments))
  | .sugar (.pipeline value stage) =>
    value.asOperand 0 (words value) ++ .operator "|>" :: stage.asOperand 1 (words stage)
  | _ => []

/-- Each expression as words. -/
def wordsOfAll : List Node → List (List Word)
  | [] => []
  | node :: rest => words node :: wordsOfAll rest

end

end Node

/-- Expressions that are made of plain names, whole numbers, operators, indices, fields, calls,
arrays and pipelines. A sign in front of a number would make another number. -/
inductive Expressible : Node → Prop where
  /-- A variable. -/
  | var {name : String} : Source.IsPlainName name → Expressible (.var name)
  /-- A whole number. -/
  | whole {n : Int64} : 0 ≤ n → Expressible (.literal (.int n))
  /-- A binary operator between two operands. -/
  | binary {primitive : Primitive} {left right : Node} :
      primitive.infix?.isSome = true → Expressible left → Expressible right →
      Expressible (.apply primitive [left, right])
  /-- A negation. -/
  | not {operand : Node} : Expressible operand → Expressible (.apply .not [operand])
  /-- A minus sign. -/
  | neg {operand : Node} : (∀ content, operand ≠ .literal content) → Expressible operand →
      Expressible (.apply .neg [operand])
  /-- An index. -/
  | index {node place : Node} : Expressible node → Expressible place →
      Expressible (.apply .index [node, place])
  /-- A field. -/
  | field {node : Node} {name : String} : Expressible node → Source.IsPlainName name →
      Expressible (.apply .field [node, .literal (.string name)])
  /-- A call. -/
  | call {target : Node} {arguments : List Node} : Expressible target →
      (∀ argument ∈ arguments, Expressible argument) → Expressible (.call target arguments)
  /-- An array. -/
  | array {items : List Node} : (∀ item ∈ items, Expressible item) →
      Expressible (.apply .makeArray items)
  /-- A pipeline. -/
  | pipeline {value stage : Node} : Expressible value → Expressible stage →
      Expressible (.sugar (.pipeline value stage))

/-- The ways to write an expression where one of a certain strength is expected: parentheses stand
at least where they are needed. -/
inductive Spelling : (least : Nat) → Node → List Word → Prop where
  /-- Parentheses around an expression. -/
  | parenthesized {least : Nat} {node : Node} {words : List Word} :
      Spelling 0 node words → Spelling least node (Word.parenthesized words)
  /-- A variable. -/
  | var {least : Nat} {name : String} :
      Source.IsPlainName name → Spelling least (.var name) [.identifier name]
  /-- A whole number. -/
  | whole {least : Nat} {n : Int64} :
      0 ≤ n → Spelling least (.literal (.int n)) [.digits n.toInt.toNat]
  /-- A binary operator between two operands. -/
  | binary {least strength : Nat} {primitive : Primitive} {text : String} {left right : Node}
      {before after : List Word} :
      primitive.infix? = some (text, strength) → least ≤ strength →
      Spelling strength left before → Spelling (strength + 1) right after →
      Spelling least (.apply primitive [left, right]) (before ++ .operator text :: after)
  /-- A negation. -/
  | not {least : Nat} {operand : Node} {words : List Word} :
      least ≤ 7 → Spelling 7 operand words →
      Spelling least (.apply .not [operand]) (.operator "!" :: words)
  /-- A minus sign. -/
  | neg {least : Nat} {operand : Node} {words : List Word} :
      least ≤ 7 → (∀ content, operand ≠ .literal content) → Spelling 7 operand words →
      Spelling least (.apply .neg [operand]) (.operator "-" :: words)
  /-- An index. -/
  | index {least : Nat} {node place : Node} {before inside : List Word} :
      least ≤ 8 → Spelling 8 node before → Spelling 0 place inside →
      Spelling least (.apply .index [node, place])
        (before ++ .symbol "[" :: inside ++ [.symbol "]"])
  /-- A field. -/
  | field {least : Nat} {node : Node} {name : String} {before : List Word} :
      least ≤ 8 → Spelling 8 node before → Source.IsPlainName name →
      Spelling least (.apply .field [node, .literal (.string name)])
        (before ++ [.symbol ".", .identifier name])
  /-- A call; its arguments come with their words. -/
  | call {least : Nat} {target : Node} {before : List Word} {arguments : List (Node × List Word)} :
      least ≤ 8 → Spelling 8 target before →
      (∀ argument ∈ arguments, Spelling 0 argument.1 argument.2) →
      Spelling least (.call target (arguments.map Prod.fst))
        (before ++ Word.parenthesized (Word.separated (arguments.map Prod.snd)))
  /-- An array; its items come with their words. -/
  | array {least : Nat} {items : List (Node × List Word)} :
      (∀ item ∈ items, Spelling 0 item.1 item.2) →
      Spelling least (.apply .makeArray (items.map Prod.fst))
        (.symbol "[" :: Word.separated (items.map Prod.snd) ++ [.symbol "]"])
  /-- A pipeline. -/
  | pipeline {value stage : Node} {before after : List Word} :
      Spelling 0 value before → Spelling 1 stage after →
      Spelling 0 (.sugar (.pipeline value stage)) (before ++ .operator "|>" :: after)

namespace Node

/-- The words of each expression. -/
theorem wordsOfAll_eq_map (nodes : List Node) : wordsOfAll nodes = nodes.map words := by
  induction nodes with
  | nil => rfl
  | cons node rest ih => rw [wordsOfAll, ih, List.map_cons]

variable {primitive : Primitive} {text : String} {strength : Nat}

/-- An operation that a binary operator stands for has the strength of the operator. -/
theorem strength_binary (found : primitive.infix? = some (text, strength)) (left right : Node) :
    (Node.apply primitive [left, right]).strength = strength := by
  cases primitive <;> cases found <;> rfl

/-- The words of an operation that a binary operator stands for. -/
theorem words_binary (found : primitive.infix? = some (text, strength)) (left right : Node) :
    (Node.apply primitive [left, right]).words =
      left.asOperand strength left.words ++
        .operator text :: right.asOperand (strength + 1) right.words := by
  cases primitive <;> cases found <;> rfl

end Node

/-- An expression that is spelled by its words wherever it is strong enough is spelled by them
everywhere, with parentheses where it is too weak. -/
theorem Spelling.asOperand {node : Node}
    (spelled : ∀ least ≤ node.strength, Spelling least node node.words) (least : Nat) :
    Spelling least node (node.asOperand least node.words) := by
  unfold Node.asOperand
  split
  case isTrue => exact .parenthesized (spelled 0 (Nat.zero_le _))
  case isFalse strong => exact spelled least (Nat.le_of_not_lt strong)

/-- The words of an expression spell it. -/
theorem Expressible.spelling {node : Node} (expressible : Expressible node) :
    ∀ least ≤ node.strength, Spelling least node node.words := by
  -- The pairs of expressions and their words, as the spelling of a list wants them.
  have paired (nodes : List Node) :
      (nodes.map fun node => (node, node.words)).map Prod.fst = nodes ∧
      (nodes.map fun node => (node, node.words)).map Prod.snd = Node.wordsOfAll nodes := by
    simp [Node.wordsOfAll_eq_map, Function.comp_def]
  induction expressible with
  | var plain => exact fun least _ => .var plain
  | whole positive => exact fun least _ => .whole positive
  | @binary primitive left right found _ _ ihLeft ihRight =>
    intro least weak
    obtain ⟨⟨text, strength⟩, found⟩ := Option.isSome_iff_exists.mp found
    rw [Node.strength_binary found] at weak
    rw [Node.words_binary found]
    exact .binary found weak (.asOperand ihLeft strength) (.asOperand ihRight (strength + 1))
  | not _ ih => exact fun least weak => .not weak (.asOperand ih 7)
  | neg number _ ih => exact fun least weak => .neg weak number (.asOperand ih 7)
  | index _ _ ihNode ihPlace =>
    exact fun least weak => .index weak (.asOperand ihNode 8) (ihPlace 0 (Nat.zero_le _))
  | field _ plain ih => exact fun least weak => .field weak (.asOperand ih 8) plain
  | @call target arguments _ _ ihTarget ihArguments =>
    intro least weak
    have whole : Spelling least (.call target ((arguments.map fun node => (node, node.words)).map
        Prod.fst)) _ :=
      .call weak (.asOperand ihTarget 8) fun argument member => by
        obtain ⟨node, inside, rfl⟩ := List.mem_map.mp member
        exact ihArguments node inside 0 (Nat.zero_le _)
    rwa [(paired arguments).1, (paired arguments).2] at whole
  | @array items _ ih =>
    intro least weak
    have whole : Spelling least (.apply .makeArray ((items.map fun node => (node, node.words)).map
        Prod.fst)) _ :=
      .array fun item member => by
        obtain ⟨node, inside, rfl⟩ := List.mem_map.mp member
        exact ih node inside 0 (Nat.zero_le _)
    rwa [(paired items).1, (paired items).2] at whole
  | pipeline _ _ ihValue ihStage =>
    intro least weak
    obtain rfl : least = 0 := Nat.le_zero.mp weak
    exact .pipeline (.asOperand ihValue 0) (.asOperand ihStage 1)

end ContentSpace

import ContentSpace.Grammar.Program
import ContentSpace.Proofs.Grammar.Level

/-!
# Stages of a pipeline

A stage takes the value of a pipeline. It is written behind the value, or around it: a store
operation and a call then have the value as their first argument, and a name is called with it. A
pipeline of several stages corresponds to applications inside each other, the last stage outermost.

In a stage a store operation lacks its main operand; around a value it has it. It is built in the
one case exactly when it is built in the other, and supplying the value to the one gives the other.
-/

namespace ContentSpace

namespace Word

/-- A keyword. -/
def keyword (text : String) : Word := ⟨.keyword, text⟩

/-- The words of a table between angle brackets, if there is one. -/
def angled : (table : Option String) → List Word
  | none => []
  | some table => [operator "<", identifier table, operator ">"]

/-- The words of a store operation, perhaps with a table, on arguments. -/
def storeCall (word : String) (table : Option String) (arguments : List (List Word)) : List Word :=
  keyword word :: angled table ++ parenthesized (separated arguments)

/-- Whether a word calls a store operation. -/
def callsStore (word : Word) : Bool :=
  word.kind = .keyword ∧ (StoreOperator.ofWord? word.text).isSome

end Word

/-- Words of an expression: some text that has them as its tokens is read with some limit of
nesting. -/
def IsExpression (settings : Settings) (scope : Scope) (words : List Word) : Prop :=
  ∃ source maxDepth node, (Source.tokens settings source).map Token.word = words ∧
    parseExpression { settings with maxDepth } scope source = .ok node

/-- Words of what can be called: an atom with what follows it that calls no store operation. -/
def IsCallee (settings : Settings) (scope : Scope) (words : List Word) : Prop :=
  (∀ first ∈ words.head?, first.callsStore = false) ∧
  ∃ source maxDepth node, (Source.tokens settings source).map Token.word = words ∧
    Grammar.read { settings with maxDepth } scope source (fun env => do
      let node ← Grammar.selection env (Grammar.belowOf env env.limit)
      Grammar.atEnd env
      return node) = .ok node

/-- A stage of a pipeline, with the words of its parts. -/
inductive Stage where
  /-- A store operation, perhaps with a table, on further arguments. -/
  | store (word : String) (table : Option String) (arguments : List (List Word))
  /-- A call with further arguments. -/
  | call (callee : List Word) (arguments : List (List Word))
  /-- A name. -/
  | named (name : String)

namespace Stage

/-- The words of a stage behind a value. -/
def words : Stage → List Word
  | store word table arguments => Word.storeCall word table arguments
  | call callee arguments => callee ++ Word.parenthesized (Word.separated arguments)
  | named name => [.identifier name]

/-- The words of a stage around a value. -/
def around (value : List Word) : Stage → List Word
  | store word table arguments => Word.storeCall word table (value :: arguments)
  | call callee arguments => callee ++ Word.parenthesized (Word.separated (value :: arguments))
  | named name => .identifier name :: Word.parenthesized value

/-- The parts of a stage are what they have to be: a store operation has a main operand, arguments
are expressions, and a name has no dot. -/
def IsReadable (settings : Settings) (scope : Scope) : Stage → Prop
  | store word _ arguments =>
    (∃ operator, StoreOperator.ofWord? word = some operator ∧ operator.slot ≠ .none) ∧
      ∀ argument ∈ arguments, IsExpression settings scope argument
  | call callee arguments => IsCallee settings scope callee ∧
      ∀ argument ∈ arguments, IsExpression settings scope argument
  | named name => '.' ∉ name.toList

/-- Whether a stage is a store operation. -/
def isStore : Stage → Bool
  | store .. => true
  | _ => false

/-- The words of a value with stages behind it. -/
def pipeline (value : List Word) (stages : List Stage) : List Word :=
  value ++ stages.flatMap fun stage => .operator "|>" :: stage.words

/-- The words of a value with stages around it, the last one outermost. -/
def nested (value : List Word) (stages : List Stage) : List Word := stages.foldl around value

variable {value : List Word} {stages : List Stage}

/-- A name around a value is a call without further arguments around it. -/
theorem around_named (name : String) :
    (named name).around value = (call [.identifier name] []).around value := by
  simp [around, Word.separated_cons]

/-- Without stages there is the value alone. -/
theorem pipeline_nil : pipeline value [] = value := List.append_nil value

/-- Further stages are behind the value and the first stage. -/
theorem pipeline_cons (stage : Stage) :
    pipeline value (stage :: stages) =
      pipeline (value ++ .operator "|>" :: stage.words) stages := by
  simp [pipeline]

end Stage

namespace Grammar

variable {operator : StoreOperator} {defaultTag : String} {given : List Node}

/-- A further argument in front stays where it is when the tag is split off. -/
theorem splitTag_cons {supplied : Nat} (value : Node)
    (more : operator.takesTag = true → operator.greatestArity? = some supplied → given ≠ []) :
    splitTag operator supplied defaultTag (value :: given) =
      (splitTag operator supplied defaultTag given).map fun split =>
        (value :: split.1, split.2) := by
  unfold splitTag
  split
  case isTrue => rfl
  case isFalse takes =>
    split
    case isFalse => rfl
    case isTrue full =>
      obtain ⟨first, others, rfl⟩ := List.exists_cons_of_ne_nil (more (by simpa using takes) full)
      rw [List.getLast?_cons_cons, List.dropLast_cons_cons]
      split <;> rfl

/-- The operation of a stage and the operation on the value and the same arguments are built alike:
the value is the main operand that the stage lacks. -/
theorem storeOf_stage_cases (place : operator.slot ≠ .none) (table : String) (value : Node) :
    (∃ call filled, storeOf operator table defaultTag true given = .ok call ∧
      storeOf operator table defaultTag false (value :: given) = .ok filled ∧
      call.acceptsPiped = true ∧ call.supply? value = some filled ∧
      call.handle = none ∧ call.value = none) ∨
    (storeOf operator table defaultTag true given).toOption = none ∧
      (storeOf operator table defaultTag false (value :: given)).toOption = none := by
  have more : operator.takesTag = true →
      operator.greatestArity? = some (given.length + 1) → given ≠ [] := by
    rintro takes full rfl
    revert takes full
    cases operator <;> decide
  have split := @splitTag_cons operator defaultTag given _ value more
  unfold storeOf
  simp only [Bool.true_and, Bool.false_and, List.length_cons, Bool.toNat_true, Bool.toNat_false,
    Nat.add_zero, decide_eq_true_eq, if_neg place, if_neg Bool.false_ne_true, split]
  split
  case isTrue => exact .inr ⟨rfl, rfl⟩
  case isFalse =>
    cases splitTag operator (given.length + 1) defaultTag given with
    | error problem => exact .inr ⟨rfl, rfl⟩
    | ok split =>
      obtain ⟨arguments, tag⟩ := split
      left
      cases slot : operator.slot with
      | none => exact absurd slot place
      | value | handle | arguments =>
        refine ⟨_, _, rfl, rfl, ?_, ?_, rfl, rfl⟩
        · simp [StoreCall.acceptsPiped, slot]
        · simp [StoreCall.supply?, slot]

end Grammar

end ContentSpace

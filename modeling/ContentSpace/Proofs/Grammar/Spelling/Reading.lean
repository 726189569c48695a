import ContentSpace.Proofs.Grammar.Level
import ContentSpace.Proofs.Grammar.Spelling.Basic

/-!
# Reading what is written

A spelling of an expression is read as the expression. What is read first may only be the beginning
of a chain of selections, operators or stages, so it is said for each of these chains that reading
the words of its beginning comes to the same as going on after the beginning. A chain uses up room
with each step, but never more than it has words.
-/

namespace ContentSpace

namespace Grammar

/-- The words that expressions start with. -/
inductive Starts : Word → Prop where
  /-- A name. -/
  | identifier (name : String) : Starts (.identifier name)
  /-- A number with a negative. -/
  | digits {n : Nat} : n < leastMagnitude → Starts (.digits n)
  /-- A parenthesis. -/
  | parenthesis : Starts (.symbol "(")
  /-- A bracket. -/
  | bracket : Starts (.symbol "[")
  /-- A negation. -/
  | not : Starts (.operator "!")
  /-- A minus sign. -/
  | minus : Starts (.operator "-")

namespace Starts

variable {token : Token} {word : Word}

/-- No expression starts with a symbol that closes. -/
theorem ne_symbol {text : String} (starts : Starts word) (closing : text ∈ [")", "]"]) :
    word ≠ .symbol text := by
  intro same
  have text : word.text = text := congrArg Word.text same
  have kind : word.kind = .symbol := congrArg Word.kind same
  subst text
  cases starts with
  | parenthesis | bracket => simp [Word.symbol] at closing
  | _ => cases kind

/-- No expression starts with a keyword. -/
theorem storeWord?_eq_none (starts : Starts word) (known : token.word = word) :
    storeWord? token = none := by
  have kind : token.kind = word.kind := congrArg Word.kind known
  rw [storeWord?, kind, if_neg]
  cases starts <;> nofun

/-- No expression starts with a number that only has a negative. -/
theorem isLeastMagnitude_eq_false (starts : Starts word) (known : token.word = word) :
    isLeastMagnitude token = false := by
  have kind : token.kind = word.kind := congrArg Word.kind known
  have text : token.text = word.text := congrArg Word.text known
  rw [isLeastMagnitude, kind, text]
  cases starts with
  | @digits n small =>
    have different : n ≠ leastMagnitude := by omega
    simpa [Word.digits, Numeral.value_digits] using different
  | _ => rfl

end Starts

/-- Words start like an expression. -/
def Begins (words : List Word) : Prop := ∃ first others, words = first :: others ∧ Starts first

namespace Begins

variable {words : List Word}

/-- Words that start like an expression are some words. -/
theorem ne_nil (begins : Begins words) : words ≠ [] := by
  obtain ⟨first, others, rfl, -⟩ := begins
  exact List.cons_ne_nil _ _

/-- More words do not change how words start. -/
theorem append (begins : Begins words) (more : List Word) : Begins (words ++ more) := by
  obtain ⟨first, others, rfl, starts⟩ := begins
  exact ⟨first, others ++ more, rfl, starts⟩

end Begins

section

variable (env : Environment) (node : Node) (words : List Word)

/-- After certain words, a chain of selections goes on with a tree. -/
def Selects : Prop :=
  ∀ ⦃tokens rest : List Token⦄ ⦃room : Nat⦄, tokens.map Token.word = words →
    words.length ≤ room + 1 → ∃ left ≤ room, room + 1 ≤ left + words.length ∧
      (level env room).operand.run (tokens ++ rest) =
        ((level env left).furtherSelections node).run rest

/-- Certain words are taken as an operand. -/
def Operates : Prop :=
  ∀ ⦃tokens rest : List Token⦄ ⦃room : Nat⦄, tokens.map Token.word = words →
    words.length ≤ room + 1 → (env.peek rest).EndsSelection →
      (level env room).operand.run (tokens ++ rest) = .ok (node, rest)

/-- After certain words, a chain of operators up to a certain strength goes on with a tree. -/
def Combines (strength : Nat) : Prop :=
  ∀ ⦃tokens rest : List Token⦄ ⦃room least : Nat⦄, tokens.map Token.word = words →
    words.length ≤ room + 1 → least ≤ strength → (env.peek rest).EndsOperand (strength + 1) →
      ∃ left ≤ room, room + 1 ≤ left + words.length ∧
        ((level env room).combination least).run (tokens ++ rest) =
          ((level env left).furtherOperands least node).run rest

/-- After certain words, a chain of stages goes on with a tree. -/
def Pipes : Prop :=
  ∀ ⦃tokens rest : List Token⦄ ⦃room : Nat⦄, tokens.map Token.word = words →
    words.length ≤ room + 1 → (env.peek rest).EndsOperand 1 →
      ∃ left ≤ room, room + 1 ≤ left + words.length ∧
        (level env room).pipeline.run (tokens ++ rest) =
          ((level env left).furtherStages node).run rest

end

variable {env : Environment} {node : Node} {words : List Word} {source : List Token} {room : Nat}

/-- What selections go on after is an operand. -/
theorem Selects.operates (selects : Selects env node words) : Operates env node words := by
  intro tokens rest room same enough ends
  obtain ⟨left, -, -, run⟩ := selects same enough
  rw [run, run_furtherSelections_of_ends ends]

/-- An operand is what operators of any strength go on after. -/
theorem Operates.combines (operates : Operates env node words) (some : words ≠ [])
    (strength : Nat) : Combines env node words strength := by
  intro tokens rest room least same enough _ ends
  have length := List.length_pos_of_ne_nil some
  refine ⟨room, Nat.le_refl _, by omega, ?_⟩
  rw [run_combination, operates same enough ends.toEndsSelection, ok_bind]

/-- What weaker operators may go on after as well. -/
theorem Combines.mono {less more : Nat} (combines : Combines env node words more)
    (le : less ≤ more) : Combines env node words less := by
  intro tokens rest room least same enough weak ends
  exact combines same enough (by omega) (ends.mono (by omega))

/-- What operators go on after is what stages go on after. -/
theorem Combines.pipes {strength : Nat} (combines : Combines env node words strength)
    (positive : 1 ≤ strength) (some : words ≠ []) : Pipes env node words := by
  intro tokens rest room same enough ends
  have length := List.length_pos_of_ne_nil some
  obtain ⟨left, -, -, run⟩ := combines same enough positive (ends.mono (by omega))
  refine ⟨room, Nat.le_refl _, by omega, ?_⟩
  rw [run_pipeline, run, run_furtherOperands_of_ends ends.operator, ok_bind]

/-- What stages go on after is an expression. -/
theorem Pipes.takes (pipes : Pipes env node words) (some : words ≠ [])
    (enough : words.length ≤ room) : (level env room).expression.Takes env words node := by
  intro tokens rest same ends
  have length := List.length_pos_of_ne_nil some
  obtain ⟨less, rfl⟩ : ∃ less, room = less + 1 := ⟨room - 1, by omega⟩
  obtain ⟨left, -, -, run⟩ := pipes same enough ends.toEndsOperand
  rw [run_expression, run, run_furtherStages_of_ends ends.stage]

/-- An operand is an expression. -/
theorem Operates.takes (operates : Operates env node words) (some : words ≠ [])
    (enough : words.length ≤ room) : (level env room).expression.Takes env words node :=
  ((operates.combines some 1).pipes (Nat.le_refl _) some).takes some enough

/-- A variable is read. -/
theorem Selects.var {name : String} (plain : Source.IsPlainName name) :
    Selects env (.var name) [.identifier name] := by
  intro tokens rest room same enough
  obtain ⟨token, tokens, rfl, known, same⟩ := List.map_eq_cons_iff.mp same
  obtain rfl : tokens = [] := by simpa using same
  exact ⟨room, Nat.le_refl _, by simp, run_operand_name known plain.dotless⟩

/-- Digits of a number that is small enough stand for that number. -/
theorem wholeLiteral_of_lt {digits : String} {span : Span}
    (small : Numeral.value digits.toList < leastMagnitude) :
    wholeLiteral ⟨.integer, digits, span⟩ =
      .ok (.int (Int64.ofNat (Numeral.value digits.toList))) :=
  if_pos small

/-- Digits of a number that is too large stand for the double that they write. -/
theorem wholeLiteral_of_le {digits : String} {span : Span} {x : Double}
    (large : leastMagnitude ≤ Numeral.value digits.toList)
    (read : Double.ofText? digits.toList = some x) :
    wholeLiteral ⟨.integer, digits, span⟩ = .ok (.float x) := by
  rw [wholeLiteral, if_neg (Nat.not_lt.mpr large), floatLiteral, read]

/-- Digits of a whole number are read as the number. -/
theorem wholeLiteral_digits {n : Int64} (positive : 0 ≤ n) {span : Span} :
    wholeLiteral ⟨.integer, String.ofList (Numeral.digits n.toInt.toNat), span⟩ = .ok (.int n) := by
  have nonnegative : 0 ≤ n.toInt := Int64.le_iff_toInt_le.mp positive
  have small := n.toInt_lt
  have value : Numeral.value (String.ofList (Numeral.digits n.toInt.toNat)).toList =
      n.toInt.toNat := by
    rw [String.toList_ofList, Numeral.value_digits]
  have back : Int64.ofNat n.toInt.toNat = n := by
    rw [← Int64.ofInt_eq_ofNat, Int.toNat_of_nonneg nonnegative, Int64.ofInt_toInt]
  rw [wholeLiteral_of_lt (by rw [value, leastMagnitude]; omega), value, back]

/-- A token that is taken for a literal is what selections go on after. -/
theorem Selects.literal {word : Word} {content : Literal} (plain : word.kind ≠ .operator)
    (other : word.kind ≠ .identifier)
    (read : ∀ (below : Below) (token : Token) (rest : List Token), token.word = word →
      (atom env below).run (token :: rest) = .ok (.literal content, rest)) :
    Selects env (.literal content) [word] := by
  intro tokens rest room same enough
  obtain ⟨token, tokens, rfl, known, same⟩ := List.map_eq_cons_iff.mp same
  obtain rfl : tokens = [] := List.map_eq_nil_iff.mp same
  refine ⟨room, Nat.le_refl _, by simp, ?_⟩
  have kind : token.kind = word.kind := congrArg Word.kind known
  rw [List.singleton_append, run_operand_of_atom kind plain other, read _ token rest known, ok_bind]

/-- Digits are an atom by themselves. -/
theorem run_atom_integer {below : Below} {digits : String} {span : Span} :
    (atom env below).run (⟨.integer, digits, span⟩ :: source) =
      ((wholeLiteral ⟨.integer, digits, span⟩).mapError fun fault => { fault }).map
        fun content => (.literal content, source) := by
  have kind : (Token.mk .integer digits span).kind = .integer := rfl
  show ((ofKind env .integer .expectedExpression).andThen fun token => do
    return Node.literal (← wholeLiteral token)).run _ = _
  rw [Consumer.run_andThen, run_ofKind kind, ok_bind, Parser.run_bind, Parser.run_check]
  cases wholeLiteral ⟨.integer, digits, span⟩ <;> rfl

/-- Digits are read as the number they stand for. -/
theorem Selects.integer {digits : String} {content : Literal}
    (stands : ∀ span, wholeLiteral ⟨.integer, digits, span⟩ = .ok content) :
    Selects env (.literal content) [⟨.integer, digits⟩] := by
  refine .literal nofun nofun fun below token rest known => ?_
  obtain ⟨span, rfl⟩ := Token.exists_of_word known
  rw [run_atom_integer, stands]
  rfl

/-- A whole number is read. -/
theorem Selects.whole {n : Int64} (positive : 0 ≤ n) :
    Selects env (.literal (.int n)) [.digits n.toInt.toNat] :=
  .integer fun _ => wholeLiteral_digits positive

/-- An expression between parentheses is read. -/
theorem Selects.parenthesized
    (takes : ∀ room, words.length ≤ room → (level env room).expression.Takes env words node) :
    Selects env node (Word.parenthesized words) := by
  intro tokens rest room same enough
  obtain ⟨opening, tokens, rfl, opens, whole⟩ := List.map_eq_cons_iff.mp same
  obtain ⟨inside, last, rfl, within, ended⟩ := List.map_eq_append_iff.mp whole
  obtain ⟨close, rfl, closes⟩ : ∃ close, last = [close] ∧ close.word = .symbol ")" := by
    simpa using ended
  have length : (Word.parenthesized words).length = words.length + 2 := by
    simp [Word.parenthesized]
  have ends : (env.peek (close :: rest)).EndsExpression :=
    Token.endsExpression_of_word closes (by decide) (by decide)
  obtain ⟨span, rfl⟩ := Token.exists_of_word opens
  have read : (atom env (belowOf env room)).run
      (⟨.symbol, "(", span⟩ :: (inside ++ close :: rest)) = .ok (node, rest) := by
    show ((symbol env "(").andThen fun _ => do
      let node ← expression env (belowOf env room)
      let _ ← symbol env ")"
      return node).run _ = _
    rw [Consumer.run_andThen, run_symbol opens, ok_bind, Parser.run_bind, Parser.run_consumer]
    show ((levelAbove env (belowOf env room)).expression.run _ >>= _) = _
    rw [← level_eq, takes room (by omega) within ends, ok_bind, Parser.run_bind,
      Parser.run_consumer, run_symbol closes]
    rfl
  have plain : TokenKind.symbol ≠ .operator ∧ TokenKind.symbol ≠ .identifier := by decide
  refine ⟨room, Nat.le_refl _, by omega, ?_⟩
  rw [List.cons_append, List.append_assoc, List.singleton_append,
    run_operand_of_atom rfl plain.1 plain.2, read]
  rfl

/-- Items that start like expressions do not start with a symbol that closes. -/
theorem exists_ne_symbol {items : List (Node × List Word)}
    (begin : ∀ item ∈ items, Begins item.2)
    {text : String} (closing : text ∈ [")", "]"]) :
    ∀ item ∈ items, ∃ first others, item.2 = first :: others ∧ first ≠ .symbol text :=
  fun item member =>
    have ⟨first, others, same, starts⟩ := begin item member
    ⟨first, others, same, starts.ne_symbol closing⟩

/-- An item has no more words than the list it is in. -/
theorem length_le_separated {items : List (Node × List Word)} {item : Node × List Word}
    (member : item ∈ items) : item.2.length ≤ (Word.separated (items.map Prod.snd)).length := by
  cases items with
  | nil => simp at member
  | cons first others =>
    rw [List.map_cons, Word.separated_cons, List.length_append]
    rcases List.mem_cons.mp member with rfl | member
    · omega
    · obtain ⟨front, back, rfl⟩ := List.append_of_mem member
      simp only [List.map_append, List.map_cons, List.flatMap_append, List.flatMap_cons,
        List.length_append, List.length_cons]
      omega

/-- An array is read. -/
theorem Selects.array {items : List (Node × List Word)}
    (begin : ∀ item ∈ items, Begins item.2)
    (takes : ∀ item ∈ items, ∀ room, item.2.length ≤ room →
      (level env room).expression.Takes env item.2 item.1) :
    Selects env (.apply .makeArray (items.map Prod.fst))
      (.symbol "[" :: Word.separated (items.map Prod.snd) ++ [.symbol "]"]) := by
  intro tokens rest room same enough
  have closing : "]" ∈ [")", "]"] := by decide
  have taken (item : Node × List Word) (member : item ∈ items) :
      (expression env (belowOf env room)).Takes env item.2 item.1 := by
    have length := length_le_separated member
    have takes := takes item member room (by simp at enough; omega)
    rwa [level_eq] at takes
  have listed : (delimited env "[" "]" (expression env (belowOf env room))).run (tokens ++ rest) =
      .ok (items.map Prod.fst, rest) :=
    run_delimited_words taken closing (exists_ne_symbol begin closing) same
  obtain ⟨opening, tokens, rfl, opens, whole⟩ := List.map_eq_cons_iff.mp same
  obtain ⟨span, rfl⟩ := Token.exists_of_word opens
  have read : (atom env (belowOf env room)).run (⟨.symbol, "[", span⟩ :: (tokens ++ rest)) =
      .ok (.apply .makeArray (items.map Prod.fst), rest) := by
    show ((delimited env "[" "]" (expression env (belowOf env room))).andThen fun items =>
      return Node.apply .makeArray items).run _ = _
    rw [Consumer.run_andThen, ← List.cons_append, listed]
    rfl
  have plain : TokenKind.symbol ≠ .operator ∧ TokenKind.symbol ≠ .identifier := by decide
  refine ⟨room, Nat.le_refl _, by simp, ?_⟩
  rw [List.cons_append, run_operand_of_atom rfl plain.1 plain.2, read]
  rfl

section

variable {before : List Word} (selects : Selects env node before)
include selects

/-- An index after a tree is read. -/
theorem Selects.index {place : Node} {inside : List Word}
    (takes : ∀ room, inside.length ≤ room → (level env room).expression.Takes env inside place) :
    Selects env (.apply .index [node, place])
      (before ++ .symbol "[" :: inside ++ [.symbol "]"]) := by
  intro tokens rest room same enough
  obtain ⟨tokens, last, rfl, whole, ended⟩ := List.map_eq_append_iff.mp same
  obtain ⟨close, rfl, closes⟩ : ∃ close, last = [close] ∧ close.word = .symbol "]" := by
    simpa using ended
  obtain ⟨front, tokens, rfl, begun, whole⟩ := List.map_eq_append_iff.mp whole
  obtain ⟨opening, within, rfl, opens, whole⟩ := List.map_eq_cons_iff.mp whole
  have ends : (env.peek (close :: rest)).EndsExpression :=
    Token.endsExpression_of_word closes (by decide) (by decide)
  simp only [List.length_append, List.length_cons, List.length_nil] at enough ⊢
  obtain ⟨left, most, least, run⟩ :=
    @selects front (opening :: (within ++ close :: rest)) room begun (by omega)
  obtain ⟨less, rfl⟩ : ∃ less, left = less + 1 := ⟨left - 1, by omega⟩
  refine ⟨less, by omega, by omega, ?_⟩
  have tokens_eq : front ++ opening :: within ++ [close] ++ rest =
      front ++ opening :: (within ++ close :: rest) := by simp
  rw [tokens_eq, run, run_furtherSelections_bracket opens, takes less (by omega) whole ends,
    ok_bind, run_symbol closes, ok_bind]

/-- A field after a tree is read. -/
theorem Selects.field {name : String} (plain : Source.IsPlainName name) :
    Selects env (.apply .field [node, .literal (.string name)])
      (before ++ [.symbol ".", .identifier name]) := by
  intro tokens rest room same enough
  obtain ⟨front, tokens, rfl, begun, whole⟩ := List.map_eq_append_iff.mp same
  obtain ⟨dot, path, rfl, dotted, named⟩ : ∃ dot path, tokens = [dot, path] ∧
      dot.word = .symbol "." ∧ path.word = .identifier name := by
    obtain ⟨dot, tokens, rfl, dotted, whole⟩ := List.map_eq_cons_iff.mp whole
    obtain ⟨path, tokens, rfl, named, whole⟩ := List.map_eq_cons_iff.mp whole
    obtain rfl : tokens = [] := by simpa using whole
    exact ⟨dot, path, rfl, dotted, named⟩
  simp only [List.length_append, List.length_cons, List.length_nil] at enough ⊢
  obtain ⟨left, most, least, run⟩ :=
    @selects front (dot :: path :: rest) room begun (by omega)
  obtain ⟨less, rfl⟩ : ∃ less, left = less + 2 := ⟨left - 2, by omega⟩
  refine ⟨less, by omega, by omega, ?_⟩
  have some : name ≠ "" := by
    rintro rfl
    obtain ⟨first, others, characters, -⟩ := plain.isName
    simp at characters
  have tokens_eq : front ++ [dot, path] ++ rest = front ++ dot :: path :: rest := by simp
  rw [tokens_eq, run, run_furtherSelections_dot dotted named,
    nameParts_of_dotless plain.dotless, run_furtherParts_cons some, run_furtherParts_nil]
  rfl

/-- Arguments after a tree are read. -/
theorem Selects.call {arguments : List (Node × List Word)}
    (begin : ∀ item ∈ arguments, Begins item.2)
    (takes : ∀ item ∈ arguments, ∀ room, item.2.length ≤ room →
      (level env room).expression.Takes env item.2 item.1) :
    Selects env (.call node (arguments.map Prod.fst))
      (before ++ Word.parenthesized (Word.separated (arguments.map Prod.snd))) := by
  intro tokens rest room same enough
  obtain ⟨front, tokens, rfl, begun, whole⟩ := List.map_eq_append_iff.mp same
  have opening := List.map_eq_cons_iff.mp whole
  obtain ⟨opening, inside, rfl, opens, -⟩ := opening
  simp only [List.length_append, Word.parenthesized, List.length_cons, List.length_nil]
    at enough ⊢
  obtain ⟨left, most, least, run⟩ :=
    @selects front (opening :: inside ++ rest) room begun (by omega)
  obtain ⟨less, rfl⟩ : ∃ less, left = less + 1 := ⟨left - 1, by omega⟩
  refine ⟨less, by omega, by omega, ?_⟩
  have closing : ")" ∈ [")", "]"] := by decide
  have taken (item : Node × List Word) (member : item ∈ arguments) :
      (level env less).expression.Takes env item.2 item.1 := by
    have length := length_le_separated member
    exact takes item member less (by omega)
  have listed : (delimited env "(" ")" (level env less).expression).run
      (opening :: inside ++ rest) = .ok (arguments.map Prod.fst, rest) :=
    run_delimited_words taken closing (exists_ne_symbol begin closing) whole
  rw [List.append_assoc, run, List.cons_append, run_furtherSelections_parenthesis opens,
    Grammar.arguments, ← List.cons_append, listed, ok_bind]

end

/-- A tree that is no literal is negated by an operation. -/
theorem negated_of_ne_literal (other : ∀ content, node ≠ .literal content) :
    negated node = .apply .neg [node] := by
  cases node with
  | literal content => exact absurd rfl (other content)
  | _ => rfl

section

variable (operates : Operates env node words)
  (begins : Begins words)
include operates begins

/-- A negation of an operand is read. -/
theorem Operates.not : Operates env (.apply .not [node]) (.operator "!" :: words) := by
  intro tokens rest room same enough ends
  obtain ⟨sign, tokens, rfl, known, within⟩ := List.map_eq_cons_iff.mp same
  obtain ⟨first, others, rfl, -⟩ := begins
  simp only [List.length_cons] at enough
  obtain ⟨less, rfl⟩ : ∃ less, room = less + 1 := ⟨room - 1, by omega⟩
  rw [List.cons_append, run_operand_not known, operates within (by simp; omega) ends, ok_bind]

omit begins in
/-- A minus sign before an operand negates it, unless the operand is the number that only has a
negative. -/
theorem Operates.minus (some : words ≠ [])
    (other : ∀ token : Token, words = [token.word] → isLeastMagnitude token = false) :
    Operates env (negated node) (.operator "-" :: words) := by
  intro tokens rest room same enough ends
  obtain ⟨sign, tokens, rfl, known, within⟩ := List.map_eq_cons_iff.mp same
  have length : words.length = tokens.length := by rw [← within, List.length_map]
  have positive := List.length_pos_of_ne_nil some
  rw [List.length_cons] at enough
  obtain ⟨less, rfl⟩ : ∃ less, room = less + 1 := ⟨room - 1, by omega⟩
  have taken := @operates tokens rest less within (by omega) ends
  rw [List.cons_append, run_operand_minus_of_run known taken, List.length_append,
    Nat.add_sub_cancel, if_neg]
  rw [Bool.and_eq_true, beq_iff_eq]
  rintro ⟨least, one⟩
  obtain ⟨token, rfl⟩ := List.length_eq_one_iff.mp one
  have small : isLeastMagnitude token = false := other token within.symm
  exact Bool.false_ne_true (small.symm.trans least)

/-- A minus sign before an operand that is no literal is read. -/
theorem Operates.neg (other : ∀ content, node ≠ .literal content) :
    Operates env (.apply .neg [node]) (.operator "-" :: words) := by
  rw [← negated_of_ne_literal other]
  refine operates.minus begins.ne_nil fun token single => ?_
  obtain ⟨first, others, rfl, starts⟩ := begins
  exact starts.isLeastMagnitude_eq_false (List.cons.inj single).1.symm

end

/-- An operator is the one that an operation is written with. -/
theorem binary?_of_infix? {primitive : Primitive} {text : String} {strength : Nat} {token : Token}
    (found : primitive.infix? = some (text, strength)) (known : token.word = .operator text)
    (least : Nat) :
    binary? least token = if least ≤ strength then some (strength, primitive) else none := by
  have kind : token.kind = .operator := congrArg Word.kind known
  have same : token.text = text := congrArg Word.text known
  have entry : Primitive.binaryOperators.lookup text = some (strength, primitive) := by
    cases primitive <;> cases found <;> rfl
  rw [binary?, if_pos kind, same, entry, Option.filter_some]
  simp

/-- A binary operator between two operands is read. -/
theorem Combines.binary {primitive : Primitive} {text : String} {strength : Nat} {left right : Node}
    {before after : List Word} (found : primitive.infix? = some (text, strength))
    (first : Combines env left before strength) (second : Combines env right after (strength + 1)) :
    Combines env (.apply primitive [left, right]) (before ++ .operator text :: after) strength := by
  intro tokens rest room least same enough weak ends
  obtain ⟨front, tokens, rfl, begun, whole⟩ := List.map_eq_append_iff.mp same
  obtain ⟨sign, back, rfl, known, whole⟩ := List.map_eq_cons_iff.mp whole
  simp only [List.length_append, List.length_cons] at enough ⊢
  have here := binary?_of_infix? found known
  have stops : (env.peek (sign :: back ++ rest)).EndsOperand (strength + 1) := by
    refine ⟨Token.endsSelection_of_operator known, (here _).trans (if_neg (by omega))⟩
  obtain ⟨left, most, enoughLeft, run⟩ :=
    @first front (sign :: back ++ rest) room least begun (by omega) weak stops
  obtain ⟨less, rfl⟩ : ∃ less, left = less + 1 := ⟨left - 1, by omega⟩
  obtain ⟨last, -, -, runBack⟩ :=
    @second back rest less (strength + 1) whole (by omega) (Nat.le_refl _) (ends.mono (by omega))
  refine ⟨less, by omega, by omega, ?_⟩
  rw [List.append_assoc, run, List.cons_append,
    run_furtherOperands_operator known ((here least).trans (if_pos weak)), runBack,
    run_furtherOperands_of_ends ends.operator, ok_bind]

/-- A pipeline is read. -/
theorem Pipes.pipeline {value stage : Node} {before after : List Word} {strength : Nat}
    (first : Pipes env value before) (positive : 1 ≤ strength)
    (second : Combines env stage after strength)
    (begins : Begins after) :
    Pipes env (.sugar (.pipeline value stage)) (before ++ .operator "|>" :: after) := by
  intro tokens rest room same enough ends
  obtain ⟨front, tokens, rfl, begun, whole⟩ := List.map_eq_append_iff.mp same
  obtain ⟨sign, back, rfl, known, whole⟩ := List.map_eq_cons_iff.mp whole
  simp only [List.length_append, List.length_cons] at enough ⊢
  have stops : (env.peek (sign :: back ++ rest)).EndsOperand 1 := Token.endsOperand_of_stage known
  obtain ⟨left, most, enoughLeft, run⟩ :=
    @first front (sign :: back ++ rest) room begun (by omega) stops
  obtain ⟨less, rfl⟩ : ∃ less, left = less + 1 := ⟨left - 1, by omega⟩
  obtain ⟨last, -, -, runBack⟩ :=
    @second back rest less 1 whole (by omega) positive (ends.mono (by omega))
  have plain : storeWord? (env.peek (back ++ rest)) = none := by
    obtain ⟨first, others, rfl, starts⟩ := begins
    obtain ⟨token, tokens, rfl, known, -⟩ := List.map_eq_cons_iff.mp whole
    exact starts.storeWord?_eq_none known
  refine ⟨less, by omega, by omega, ?_⟩
  rw [List.append_assoc, run, List.cons_append, run_furtherStages_stage known, Level.stageAt, plain]
  dsimp only
  rw [runBack, run_furtherOperands_of_ends ends.operator, ok_bind]

/-- An expression that certain words spell is read from them, as far as its strength allows. -/
structure Taken (env : Environment) (least : Nat) (node : Node) (words : List Word) : Prop where
  /-- The words start like an expression. -/
  begins : Begins words
  /-- An expression that is strong enough is what selections go on after. -/
  selects : 8 ≤ least → Selects env node words
  /-- An expression that is strong enough is an operand. -/
  operates : 7 ≤ least → Operates env node words
  /-- An expression other than a pipeline is what operators go on after. -/
  combines : 1 ≤ least → Combines env node words least
  /-- Every expression is what stages go on after. -/
  pipes : Pipes env node words

namespace Taken

variable {least : Nat}

/-- An expression that is spelled is read if there is room for all its words. -/
theorem takes (taken : Taken env least node words) (enough : words.length ≤ room) :
    (level env room).expression.Takes env words node :=
  taken.pipes.takes taken.begins.ne_nil enough

variable (begins : Begins words)
include begins

/-- What operators of some strength go on after. -/
theorem of_combines {strength : Nat} (combines : Combines env node words strength)
    (bounds : 1 ≤ strength ∧ strength < 7) (le : least ≤ strength) :
    Taken env least node words where
  begins := begins
  selects strong := by omega
  operates strong := by omega
  combines _ := combines.mono le
  pipes := combines.pipes bounds.1 begins.ne_nil

/-- An operand. -/
theorem of_operates (operates : Operates env node words) (le : least ≤ 7) :
    Taken env least node words where
  begins := begins
  selects strong := by omega
  operates _ := operates
  combines _ := operates.combines begins.ne_nil least
  pipes := (operates.combines begins.ne_nil 1).pipes (Nat.le_refl _) begins.ne_nil

/-- What selections go on after. -/
theorem of_selects (selects : Selects env node words) : Taken env least node words where
  begins := begins
  selects _ := selects
  operates _ := selects.operates
  combines _ := selects.operates.combines begins.ne_nil least
  pipes := (selects.operates.combines begins.ne_nil 1).pipes (Nat.le_refl _) begins.ne_nil

end Taken

/-- Binary operators are stronger than stages and weaker than signs. -/
theorem bounds_of_infix? {primitive : Primitive} {text : String} {strength : Nat}
    (found : primitive.infix? = some (text, strength)) : 1 ≤ strength ∧ strength < 7 := by
  cases primitive <;> cases found <;> decide

/-- An expression that certain words spell is read from them. -/
theorem taken_of_spelling (env : Environment) {least : Nat} (spelling : Spelling least node words) :
    Taken env least node words := by
  induction spelling with
  | parenthesized _ ih =>
    exact .of_selects ⟨_, _, rfl, .parenthesis⟩ (.parenthesized fun _ => ih.takes)
  | var plain => exact .of_selects ⟨_, _, rfl, .identifier _⟩ (.var plain)
  | @whole least n positive =>
    have small : n.toInt.toNat < leastMagnitude := by
      have bound := n.toInt_lt
      unfold leastMagnitude
      omega
    exact .of_selects ⟨_, _, rfl, .digits small⟩ (.whole positive)
  | binary found weak _ _ ihLeft ihRight =>
    have bounds := bounds_of_infix? found
    have combines := Combines.binary found (ihLeft.combines bounds.1)
      (ihRight.combines (Nat.succ_pos _))
    exact .of_combines (ihLeft.begins.append _) combines bounds weak
  | not weak _ ih =>
    have operates := ih.operates (Nat.le_refl _)
    exact .of_operates ⟨_, _, rfl, .not⟩ (operates.not ih.begins) weak
  | neg weak other _ ih =>
    have operates := ih.operates (Nat.le_refl _)
    exact .of_operates ⟨_, _, rfl, .minus⟩ (operates.neg ih.begins other) weak
  | index _ _ _ ihNode ihPlace =>
    have selects := ihNode.selects (Nat.le_refl _)
    exact .of_selects ((ihNode.begins.append _).append _) (selects.index fun _ => ihPlace.takes)
  | field _ _ plain ih =>
    have selects := ih.selects (Nat.le_refl _)
    exact .of_selects (ih.begins.append _) (selects.field plain)
  | call _ _ _ ihTarget ihArguments =>
    have selects := ihTarget.selects (Nat.le_refl _)
    exact .of_selects (ihTarget.begins.append _) (selects.call
      (fun item member => (ihArguments item member).begins) fun item member _ =>
        (ihArguments item member).takes)
  | array _ ih =>
    exact .of_selects ⟨_, _, rfl, .bracket⟩ (.array (fun item member => (ih item member).begins)
      fun item member _ => (ih item member).takes)
  | pipeline _ _ ihValue ihStage =>
    have pipes := ihValue.pipes.pipeline (Nat.le_refl _) (ihStage.combines (Nat.le_refl _))
      ihStage.begins
    exact ⟨ihValue.begins.append _, by omega, by omega, by omega, pipes⟩

end Grammar

end ContentSpace

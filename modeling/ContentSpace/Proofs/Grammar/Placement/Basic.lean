import ContentSpace.Proofs.Grammar.Extension.Basic

/-!
# Reading the same words elsewhere

Parsers look at the words of tokens, and at their places only to name the line of a fault. So from
tokens with the same words they take the same, wherever the tokens stand, or they fail with the same
fault on another line. Each way to build a parser from smaller ones keeps this relation.
-/

namespace ContentSpace

/-- The fault without the line on which it arose. -/
def Fault.unplaced : Fault → Fault
  | .syntaxError problem found _ => .syntaxError problem found 0
  | .duplicateTable name _ => .duplicateTable name 0
  | .undeclaredTable name _ => .undeclaredTable name 0
  | .noActiveTable operation _ => .noActiveTable operation 0
  | .lateTable name _ => .lateTable name 0
  | .duplicateParameter block name _ => .duplicateParameter block name 0
  | fault => fault

/-- The line is no part of the code of a fault. -/
@[simp] theorem Fault.code_unplaced (fault : Fault) : fault.unplaced.code = fault.code := by
  cases fault <;> rfl

/-- The failure without the line on which it arose. -/
def Failure.unplaced (failure : Failure) : Failure :=
  { failure with fault := failure.fault.unplaced }

/-- Failures that differ in their lines only have the same code. -/
theorem Failure.code_congr {failure other : Failure} (same : failure.unplaced = other.unplaced) :
    failure.fault.code = other.fault.code := by
  have codes := congrArg (fun failure : Failure => failure.fault.code) same
  simpa [Failure.unplaced] using codes

namespace Grammar

/-- The environment with another token for the end of the source. -/
def Environment.endingIn (env : Environment) (finish : Token) : Environment := { env with finish }

variable {α β γ δ : Type} {related : α → β → Prop} {later : γ → δ → Prop}

/-- Both runs fail alike but for the line, or both give related results and leave the same words. -/
inductive RunMatches (related : α → β → Prop) :
    Except Failure (α × List Token) → Except Failure (β × List Token) → Prop where
  /-- Both runs fail alike. -/
  | failed {failure other : Failure} :
      failure.unplaced = other.unplaced → RunMatches related (.error failure) (.error other)
  /-- Both runs give related results. -/
  | taken {left : α} {right : β} {rest others : List Token} : related left right →
      rest.map Token.word = others.map Token.word →
        RunMatches related (.ok (left, rest)) (.ok (right, others))

/-- Runs that go on alike after runs that match, match. -/
theorem RunMatches.bind {small : Except Failure (α × List Token)}
    {large : Except Failure (β × List Token)}
    {next : α × List Token → Except Failure (γ × List Token)}
    {nextToo : β × List Token → Except Failure (δ × List Token)}
    (first : RunMatches related small large)
    (second : ∀ left right rest others, small = .ok (left, rest) → related left right →
      rest.map Token.word = others.map Token.word →
        RunMatches later (next (left, rest)) (nextToo (right, others))) :
    RunMatches later (small >>= next) (large >>= nextToo) := by
  cases first with
  | failed same => exact .failed same
  | taken holds words => exact second _ _ _ _ rfl holds words

/-- What runs that match give is the same, and so is how they fail, but for the line. -/
theorem RunMatches.mapError_eq {small large : Except Failure (α × List Token)}
    (matching : RunMatches Eq small large) :
    (small.map Prod.fst).mapError Failure.unplaced =
      (large.map Prod.fst).mapError Failure.unplaced := by
  cases matching with
  | failed same => exact congrArg Except.error same
  | taken same => exact congrArg Except.ok same

/-- A parser takes from the same words what another takes. -/
def Parser.Matches (related : α → β → Prop) (small : Parser α) (large : Parser β) : Prop :=
  ∀ source other, source.map Token.word = other.map Token.word →
    RunMatches related (small.run source) (large.run other)

/-- A consumer takes from the same words what another takes. -/
def Consumer.Matches (related : α → β → Prop) (small : Consumer α) (large : Consumer β) : Prop :=
  ∀ source other, source.map Token.word = other.map Token.word →
    RunMatches related (small.run source) (large.run other)

/-- Tokens with the same word. -/
abbrev SameWord (token like : Token) : Prop := token.word = like.word

/-! ## What the next token is -/

/-- Tokens with the same word are the same symbol, keyword or operator. -/
theorem is_iff {token like : Token} (same : SameWord token like) {kind : TokenKind}
    {text : String} : token.is kind text = true ↔ like.is kind text = true := by
  rw [is_congr same]

/-- Tokens with the same word are described alike. -/
theorem describe_congr {token like : Token} (same : SameWord token like) :
    token.describe = like.describe := by
  have kind : token.kind = like.kind := congrArg Word.kind same
  have text : token.text = like.text := congrArg Word.text same
  rw [Token.describe, Token.describe, kind, text]

section

variable {env : Environment} {finish : Token} (ends : SameWord env.finish finish)
include ends

/-- The next tokens have the same word. -/
theorem peek_sameWord {source other : List Token}
    (words : source.map Token.word = other.map Token.word) :
    SameWord (env.peek source) ((env.endingIn finish).peek other) := by
  cases source with
  | nil =>
    obtain rfl : other = [] := List.map_eq_nil_iff.mp words.symm
    exact ends
  | cons next rest =>
    obtain ⟨like, others, rfl, known, -⟩ := List.map_eq_cons_iff.mp words.symm
    exact known.symm

/-- A problem with the next token is the same but for its line. -/
theorem failure_unplaced {problem : SyntaxProblem} {source other : List Token}
    (words : source.map Token.word = other.map Token.word) :
    (env.failure problem source).unplaced =
      ((env.endingIn finish).failure problem other).unplaced := by
  simp only [Environment.failure, Failure.unplaced, Fault.unplaced,
    describe_congr (peek_sameWord ends words)]

end

namespace Parser

variable {small : Parser α} {large : Parser β}

/-- Related results are given without taking anything. -/
theorem Matches.pure {left : α} {right : β} (holds : related left right) :
    Matches related (Pure.pure left) (Pure.pure right) :=
  fun _ _ words => .taken holds words

/-- One parser after another. -/
theorem Matches.bind {next : α → Parser γ} {nextToo : β → Parser δ}
    (first : small.Matches related large)
    (second : ∀ left right, related left right → (next left).Matches later (nextToo right)) :
    (small >>= next).Matches later (large >>= nextToo) := by
  intro source other words
  rw [run_bind, run_bind]
  exact (first source other words).bind fun left right rest others _ holds same =>
    second left right holds rest others same

/-- One parser after another that gives the same. -/
theorem Matches.bindSame {large : Parser α} {next : α → Parser γ} {nextToo : α → Parser δ}
    (first : small.Matches Eq large)
    (second : ∀ value, (next value).Matches later (nextToo value)) :
    (small >>= next).Matches later (large >>= nextToo) :=
  first.bind fun value _ same => same ▸ second value

/-- A consumer as a parser. -/
theorem Matches.consumer {small : Consumer α} {large : Consumer β}
    (matching : small.Matches related large) :
    Matches related (liftM small : Parser α) (liftM large : Parser β) := by
  intro source other words
  rw [run_consumer, run_consumer]
  exact matching source other words

/-- A consumer and what follows its result. -/
theorem Matches.take {small : Consumer α} {large : Consumer β} {next : α → Parser γ}
    {nextToo : β → Parser δ} (first : small.Matches related large)
    (second : ∀ left right, related left right → (next left).Matches later (nextToo right)) :
    Matches later (liftM small >>= next) (liftM large >>= nextToo) :=
  .bind (.consumer first) second

/-- A consumer whose result is dropped, and what follows it. -/
theorem Matches.skip {small : Consumer α} {large : Consumer β} {next : Parser γ}
    {nextToo : Parser δ} (first : small.Matches related large)
    (second : next.Matches later nextToo) :
    Matches later (liftM small >>= fun _ => next) (liftM large >>= fun _ => nextToo) :=
  .take first fun _ _ _ => second

/-- A consumer and what follows the same result. -/
theorem Matches.takeSame {small large : Consumer α} {next : α → Parser γ}
    {nextToo : α → Parser δ} (first : small.Matches Eq large)
    (second : ∀ value, (next value).Matches later (nextToo value)) :
    Matches later (liftM small >>= next) (liftM large >>= nextToo) :=
  .bindSame (.consumer first) second

/-- A check that fails alike. -/
theorem Matches.check {left right : Except Fault α}
    (same : left.mapError Fault.unplaced = right.mapError Fault.unplaced) :
    Matches Eq (liftM left : Parser α) (liftM right : Parser α) := by
  intro source other words
  rw [run_check, run_check]
  cases left with
  | error fault =>
    cases right with
    | error _ => exact .failed (congrArg (Failure.mk · none) (Except.error.inj same))
    | ok _ => cases same
  | ok value =>
    cases right with
    | error _ => cases same
    | ok _ => exact .taken (Except.ok.inj same) words

/-- A check that fails alike, and what follows its result. -/
theorem Matches.checked {left right : Except Fault α} {next : α → Parser γ}
    {nextToo : α → Parser δ}
    (same : left.mapError Fault.unplaced = right.mapError Fault.unplaced)
    (second : ∀ value, (next value).Matches later (nextToo value)) :
    Matches later (liftM left >>= next) (liftM right >>= nextToo) :=
  .bindSame (.check same) second

/-- A fault that is the same but for its line. -/
theorem Matches.refuse {fault other : Fault} (same : fault.unplaced = other.unplaced) :
    Matches related (Parser.refuse fault) (Parser.refuse other) :=
  fun _ _ _ => .failed (congrArg (Failure.mk · none) same)

/-- A choice by the same condition. -/
theorem Matches.ite {condition conditionToo : Prop} [Decidable condition] [Decidable conditionToo]
    {other : Parser α} {otherToo : Parser β} (same : condition ↔ conditionToo)
    (yes : small.Matches related large) (no : other.Matches related otherToo) :
    Matches related (if condition then small else other)
      (if conditionToo then large else otherToo) := by
  by_cases holds : condition
  · rwa [if_pos holds, if_pos (same.mp holds)]
  · rwa [if_neg holds, if_neg (holds ∘ same.mpr)]

section

variable {env : Environment} {finish : Token} (ends : SameWord env.finish finish)
include ends

/-- What follows the next token. -/
theorem Matches.peek {next : Token → Parser γ} {nextToo : Token → Parser δ}
    (second : ∀ token like, SameWord token like → (next token).Matches later (nextToo like)) :
    Matches later (Parser.next env >>= next) (Parser.next (env.endingIn finish) >>= nextToo) := by
  intro source other words
  rw [run_bind, run_bind, run_next, run_next]
  exact second _ _ (peek_sameWord ends words) source other words

/-- A problem with the next token. -/
theorem Matches.fail {problem : SyntaxProblem} :
    Matches related (Parser.fail env problem) (Parser.fail (env.endingIn finish) problem) :=
  fun _ _ words => .failed (failure_unplaced ends words)

end

end Parser

namespace Consumer

variable {small : Consumer α} {large : Consumer β}

/-- A parser after a consumer. -/
theorem Matches.andThen {next : α → Parser γ} {nextToo : β → Parser δ}
    (first : small.Matches related large)
    (second : ∀ left right, related left right → (next left).Matches later (nextToo right)) :
    (small.andThen next).Matches later (large.andThen nextToo) := by
  intro source other words
  rw [run_andThen, run_andThen]
  exact (first source other words).bind fun left right rest others _ holds same =>
    second left right holds rest others same

/-- A parser after a consumer whose result is dropped. -/
theorem Matches.skip {next : Parser γ} {nextToo : Parser δ}
    (first : small.Matches related large) (second : next.Matches later nextToo) :
    (small.andThen fun _ => next).Matches later (large.andThen fun _ => nextToo) :=
  first.andThen fun _ _ _ => second

/-- A parser after a consumer that gives the same. -/
theorem Matches.andThenSame {large : Consumer α} {next : α → Parser γ} {nextToo : α → Parser δ}
    (first : small.Matches Eq large)
    (second : ∀ value, (next value).Matches later (nextToo value)) :
    (small.andThen next).Matches later (large.andThen nextToo) :=
  first.andThen fun value _ same => same ▸ second value

/-- A consumer after a parser. -/
theorem Matches.before {small : Parser α} {large : Parser β} {next : α → Consumer γ}
    {nextToo : β → Consumer δ} (first : small.Matches related large)
    (second : ∀ left right, related left right → (next left).Matches later (nextToo right)) :
    (small.before next).Matches later (large.before nextToo) := by
  intro source other words
  rw [run_before, run_before]
  exact (first source other words).bind fun left right rest others _ holds same =>
    second left right holds rest others same

/-- A choice by the same condition. -/
theorem Matches.ite {condition conditionToo : Prop} [Decidable condition] [Decidable conditionToo]
    {other : Consumer α} {otherToo : Consumer β} (same : condition ↔ conditionToo)
    (yes : small.Matches related large) (no : other.Matches related otherToo) :
    Matches related (if condition then small else other)
      (if conditionToo then large else otherToo) := by
  by_cases holds : condition
  · rwa [if_pos holds, if_pos (same.mp holds)]
  · rwa [if_neg holds, if_neg (holds ∘ same.mpr)]

/-- The tokens of consumers that match are counted alike. -/
theorem Matches.counted {large : Consumer α} (matching : small.Matches Eq large) :
    small.counted.Matches Eq large.counted := by
  intro source other words
  rw [run_counted, run_counted]
  have before := congrArg List.length words
  generalize small.run source = first, large.run other = second, matching source other words = runs
  cases runs with
  | failed same => exact .failed same
  | taken same rests =>
    have after := congrArg List.length rests
    rw [List.length_map, List.length_map] at before after
    exact .taken (by rw [same, before, after]) rests

/-- Failures are changed alike. -/
theorem Matches.mapFailure {change : Failure → Failure} (matching : small.Matches related large)
    (keeps : ∀ failure other : Failure, failure.unplaced = other.unplaced →
      (change failure).unplaced = (change other).unplaced) :
    (small.mapFailure change).Matches related (large.mapFailure change) := by
  intro source other words
  rw [run_mapFailure, run_mapFailure]
  generalize small.run source = first, large.run other = second, matching source other words = runs
  cases runs with
  | failed same => exact .failed (keeps _ _ same)
  | taken holds rests => exact .taken holds rests

section

variable {env : Environment} {finish : Token} (ends : SameWord env.finish finish)
include ends

/-- What the next token selects. -/
theorem Matches.ahead {select : Token → Consumer α} {selectToo : Token → Consumer β}
    (each : ∀ token like, SameWord token like →
      (select token).Matches related (selectToo like)) :
    (Consumer.ahead env select).Matches related
      (Consumer.ahead (env.endingIn finish) selectToo) :=
  fun source other words => each _ _ (peek_sameWord ends words) source other words

/-- A problem with the next token. -/
theorem Matches.fail {problem : SyntaxProblem} :
    Matches related (Consumer.fail env problem) (Consumer.fail (env.endingIn finish) problem) :=
  fun _ _ words => .failed (failure_unplaced ends words)

end

end Consumer

section

variable {env : Environment} {finish : Token} (ends : SameWord env.finish finish)
include ends

/-! ## Tokens -/

/-- Tokens with the same word are taken by tests that do not look further. -/
theorem token_matches {test testToo : Token → Bool} {problem : SyntaxProblem}
    (agree : ∀ token like, SameWord token like → test token = testToo like) :
    (token env test problem).Matches SameWord (token (env.endingIn finish) testToo problem) := by
  intro source other words
  cases source with
  | nil =>
    obtain rfl : other = [] := List.map_eq_nil_iff.mp words.symm
    exact .failed (failure_unplaced ends words)
  | cons next rest =>
    obtain ⟨like, others, rfl, known, rests⟩ := List.map_eq_cons_iff.mp words.symm
    rw [run_token_cons, run_token_cons, agree next like known.symm]
    split
    · exact .taken known.symm rests.symm
    · exact .failed (failure_unplaced ends words)

/-- A certain symbol is taken alike. -/
theorem symbol_matches {word : String} :
    (symbol env word).Matches SameWord (symbol (env.endingIn finish) word) :=
  token_matches ends fun _ _ same => is_congr same _ _

/-- A certain keyword is taken alike. -/
theorem keyword_matches {word : String} :
    (keyword env word).Matches SameWord (keyword (env.endingIn finish) word) :=
  token_matches ends fun _ _ same => is_congr same _ _

/-- A certain operator is taken alike. -/
theorem operator_matches {word : String} :
    (operator env word).Matches SameWord (operator (env.endingIn finish) word) :=
  token_matches ends fun _ _ same => is_congr same _ _

/-- A token of a certain kind is taken alike. -/
theorem ofKind_matches {kind : TokenKind} {problem : SyntaxProblem} :
    (ofKind env kind problem).Matches SameWord (ofKind (env.endingIn finish) kind problem) :=
  token_matches ends fun _ _ same => congrArg (fun word => word.kind == kind) same

/-- A name is taken alike. -/
theorem name_matches : (name env).Matches SameWord (name (env.endingIn finish)) :=
  ofKind_matches ends

/-- The end of the source is found alike. -/
theorem atEnd_matches : (atEnd env).Matches Eq (atEnd (env.endingIn finish)) := by
  intro source other words
  cases source with
  | nil =>
    obtain rfl : other = [] := List.map_eq_nil_iff.mp words.symm
    exact .taken rfl rfl
  | cons next rest =>
    obtain ⟨like, others, rfl, -⟩ := List.map_eq_cons_iff.mp words.symm
    exact .failed (failure_unplaced ends words)

/-! ## Items -/

variable {small large : Consumer α} (each : small.Matches Eq large)
include each

/-- Further items are taken alike. -/
theorem furtherItems_matches :
    (furtherItems env small).Matches Eq (furtherItems (env.endingIn finish) large) := by
  intro source
  induction size : source.length using Nat.strongRecOn generalizing source with
  | ind size ih =>
    intro other words
    have comma : (env.peek source).isSymbol "," = ((env.endingIn finish).peek other).isSymbol "," :=
      is_congr (peek_sameWord ends words) _ _
    rw [run_furtherItems, run_furtherItems, comma]
    split
    · refine (symbol_matches ends source other words).bind fun _ _ rest others taken _ same => ?_
      refine (each rest others same).bind fun first _ left leftToo item equal rests => ?_
      have fewer := Consumer.length_of_run taken
      have shorter := Consumer.length_of_run item
      refine (ih left.length (by omega) left rfl leftToo rests).bind
        fun items _ last lastToo _ equalToo lasts => ?_
      exact .taken (equal ▸ equalToo ▸ rfl) lasts
    · exact .taken rfl words

/-- Delimited items are taken alike. -/
theorem delimited_matches {before after : String} :
    (delimited env before after small).Matches Eq
      (delimited (env.endingIn finish) before after large) := by
  refine (symbol_matches ends).skip <| .peek ends fun next like same => ?_
  refine .ite (is_iff same) ?_ ?_
  · exact .skip (symbol_matches ends) (.pure rfl)
  · refine .takeSame each fun first => .bindSame (furtherItems_matches ends each) fun others => ?_
    exact .skip (symbol_matches ends) (.pure rfl)

/-- Items up to a symbol are taken alike. -/
theorem itemsUntil_matches {after : String} :
    (itemsUntil env after small).Matches Eq (itemsUntil (env.endingIn finish) after large) := by
  intro source
  induction size : source.length using Nat.strongRecOn generalizing source with
  | ind size ih =>
    intro other words
    have closing : (env.peek source).isSymbol after =
        ((env.endingIn finish).peek other).isSymbol after :=
      is_congr (peek_sameWord ends words) _ _
    rw [run_itemsUntil, run_itemsUntil, closing]
    split
    · exact .taken rfl words
    · refine (each source other words).bind fun first _ left leftToo item equal rests => ?_
      have shorter := Consumer.length_of_run item
      refine (ih left.length (by omega) left rfl leftToo rests).bind
        fun items _ last lastToo _ equalToo lasts => ?_
      exact .taken (equal ▸ equalToo ▸ rfl) lasts

end

end Grammar

end ContentSpace

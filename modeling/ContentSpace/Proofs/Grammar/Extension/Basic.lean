import ContentSpace.Proofs.Grammar.Run
import ContentSpace.Proofs.Source.Word

/-!
# Reading what has more after it

What a parser takes from some tokens, another one takes from the same words when more tokens come
after them. Only where the first parser left nothing does it matter what comes after: the token
there has to stop the second parser, or tells how it goes on. Each way to build a parser from
smaller ones keeps this relation. A part that something has to follow never comes to the end of the
tokens, so nothing has to stop it.
-/

namespace ContentSpace

/-- Tokens look alike when they have the same word, or when the tokens of the first have come to
their end and the second stops what could go on there. -/
inductive Token.Akin (stops : Token → Prop) (first second : Token) : Prop where
  /-- The tokens have the same word. -/
  | same : first.word = second.word → Token.Akin stops first second
  /-- Something stops at the second token where the first is the end. -/
  | finish : first.kind = .finish → stops second → Token.Akin stops first second

namespace Grammar

variable {α β γ δ : Type} {env other : Environment} {stops stopsFirst : Token → Prop}

/-- What a run may be that goes on with a value before the tokens that come after. -/
abbrev Onward (β : Type) := β → List Token → Except Failure (β × List Token) → Prop

/-- The value is the result. -/
def ended : Onward β := fun value rest run => run = .ok (value, rest)

variable {onward : Onward β} {onwardLater : Onward δ} {related : α → β → Prop}
  {later : γ → δ → Prop}

/-- What is taken from some tokens is taken from the same words when more tokens come after them. If
something was left, as much is left; if nothing was left, the token that comes after stops what is
taken, and it goes on there. -/
def ExtendsAt (env : Environment) (stops : Token → Prop) (onward : Onward β)
    (related : α → β → Prop) (small : List Token → Except Failure (α × List Token))
    (large : List Token → Except Failure (β × List Token)) (source : List Token) : Prop :=
  ∀ ⦃tokens rest left : List Token⦄ ⦃value : α⦄, small source = .ok (value, left) →
    tokens.map Token.word = source.map Token.word → (left = [] → stops (env.peek rest)) →
      ∃ like, related value like ∧
        (left = [] ∧ onward like rest (large (tokens ++ rest)) ∨
          left ≠ [] ∧ ∃ others, others.map Token.word = left.map Token.word ∧
            large (tokens ++ rest) = .ok (like, others ++ rest))

namespace ExtendsAt

variable {small : List Token → Except Failure (α × List Token)}
  {large : List Token → Except Failure (β × List Token)} {source : List Token}

/-- What ends leaves the same words before what comes after. -/
theorem exists_of_ended (holds : ExtendsAt env stops ended related small large source)
    {tokens rest left : List Token} {value : α} (run : small source = .ok (value, left))
    (same : tokens.map Token.word = source.map Token.word)
    (stop : left = [] → stops (env.peek rest)) :
    ∃ like others, related value like ∧ others.map Token.word = left.map Token.word ∧
      large (tokens ++ rest) = .ok (like, others ++ rest) := by
  obtain ⟨like, alike, ⟨rfl, whole⟩ | ⟨-, others, words, part⟩⟩ := holds run same stop
  · exact ⟨like, [], alike, rfl, whole⟩
  · exact ⟨like, others, alike, words, part⟩

/-- What leaves the same words before what comes after ends. -/
theorem of_exists (holds : ∀ ⦃tokens rest left : List Token⦄ ⦃value : α⦄,
      small source = .ok (value, left) → tokens.map Token.word = source.map Token.word →
      (left = [] → stops (env.peek rest)) →
        ∃ like others, related value like ∧ others.map Token.word = left.map Token.word ∧
          large (tokens ++ rest) = .ok (like, others ++ rest)) :
    ExtendsAt env stops ended related small large source := by
  intro tokens rest left value run same stop
  obtain ⟨like, others, alike, words, taken⟩ := holds run same stop
  refine ⟨like, alike, ?_⟩
  by_cases none : left = []
  · subst none
    obtain rfl : others = [] := List.map_eq_nil_iff.mp words
    exact .inl ⟨rfl, taken⟩
  · exact .inr ⟨none, others, words, taken⟩

/-- One run after another. The first has to be stopped only where the second may take nothing. -/
theorem bind {next : α → List Token → Except Failure (γ × List Token)}
    {nextToo : β → List Token → Except Failure (δ × List Token)}
    (first : ExtendsAt env stopsFirst ended related small large source)
    (reaches : ∀ value result left, next value [] = .ok (result, left) →
      left = [] ∧ ∀ token, stops token → stopsFirst token)
    (second : ∀ value like, related value like →
      ∀ source, ExtendsAt env stops onwardLater later (next value) (nextToo like) source) :
    ExtendsAt env stops onwardLater later (fun source => small source >>= fun r => next r.1 r.2)
      (fun source => large source >>= fun r => nextToo r.1 r.2) source := by
  intro tokens rest left result run same stop
  obtain ⟨⟨value, middle⟩, runFirst, runSecond⟩ := ok_of_bind_eq_ok run
  have stopFirst (none : middle = []) : stopsFirst (env.peek rest) := by
    subst none
    obtain ⟨none, weaker⟩ := reaches value result left runSecond
    exact weaker _ (stop none)
  obtain ⟨like, others, alike, words, taken⟩ := first.exists_of_ended runFirst same stopFirst
  dsimp only
  rw [taken]
  exact second value like alike middle runSecond words stop

/-- What is stopped by some tokens is stopped by fewer, and what goes on there may be told in other
words. -/
theorem weaken {fewer : Token → Prop} {onwardToo : Onward β}
    (holds : ExtendsAt env stops onward related small large source)
    (implies : ∀ token, fewer token → stops token)
    (goes : ∀ value rest run, fewer (env.peek rest) → onward value rest run →
      onwardToo value rest run) :
    ExtendsAt env fewer onwardToo related small large source := by
  intro tokens rest left value run same stop
  obtain ⟨like, alike, ⟨none, whole⟩ | part⟩ :=
    holds run same fun none => implies _ (stop none)
  · exact ⟨like, alike, .inl ⟨none, goes _ _ _ (stop none) whole⟩⟩
  · exact ⟨like, alike, .inr part⟩

end ExtendsAt

/-- A parser that takes nothing from no tokens. -/
def Parser.NeedsToken (parser : Parser α) : Prop := ∀ result, parser.run [] ≠ .ok result

/-- What a parser takes, another one takes when more comes after. -/
def Parser.Extends (env : Environment) (stops : Token → Prop) (onward : Onward β)
    (related : α → β → Prop) (small : Parser α) (large : Parser β) : Prop :=
  ∀ source, ExtendsAt env stops onward related small.run large.run source

/-- What a consumer takes, another one takes when more comes after. -/
def Consumer.Extends (env : Environment) (stops : Token → Prop) (onward : Onward β)
    (related : α → β → Prop) (small : Consumer α) (large : Consumer β) : Prop :=
  ∀ source, ExtendsAt env stops onward related small.run large.run source

/-- A token is taken alike from the same words. -/
theorem token_extends {test testToo : Token → Bool} {problem problemToo : SyntaxProblem}
    (agree : ∀ first second : Token, first.word = second.word → test first = testToo second) :
    (token env test problem).Extends other stops ended
      (fun first second => first.word = second.word) (token other testToo problemToo) := by
  intro source
  refine ExtendsAt.of_exists fun tokens rest left value run same _ => ?_
  cases source with
  | nil => cases run
  | cons next source =>
    obtain ⟨like, others, rfl, known, words⟩ := List.map_eq_cons_iff.mp same
    rw [run_token_cons] at run
    split at run
    case isFalse => cases run
    case isTrue passes =>
      cases run
      refine ⟨like, others, known.symm, words, ?_⟩
      rw [List.cons_append, run_token_cons, ← agree value like known.symm, if_pos passes]

/-- Tokens with the same word pass the same tests. -/
theorem is_congr {first second : Token} (same : first.word = second.word) (kind : TokenKind)
    (text : String) : first.is kind text = second.is kind text := by
  rw [Bool.eq_iff_iff, Token.is_iff, Token.is_iff, same]

section

variable {text : String}

/-- A symbol is taken alike. -/
theorem symbol_extends : (symbol env text).Extends other stops ended
    (fun first second => first.word = second.word) (symbol other text) :=
  token_extends fun _ _ same => is_congr same _ _

/-- A keyword is taken alike. -/
theorem keyword_extends : (keyword env text).Extends other stops ended
    (fun first second => first.word = second.word) (keyword other text) :=
  token_extends fun _ _ same => is_congr same _ _

/-- An operator is taken alike. -/
theorem operator_extends : (operator env text).Extends other stops ended
    (fun first second => first.word = second.word) (operator other text) :=
  token_extends fun _ _ same => is_congr same _ _

/-- A token of a certain kind is taken alike. -/
theorem ofKind_extends {kind : TokenKind} {problem : SyntaxProblem} :
    (ofKind env kind problem).Extends other stops ended
      (fun first second => first.word = second.word) (ofKind other kind problem) := by
  refine token_extends fun first second same => ?_
  have kinds : first.kind = second.kind := congrArg Word.kind same
  rw [kinds]

end

namespace Parser

variable {small : Parser α} {large : Parser β}

/-- What follows a consumer needs a token. -/
theorem NeedsToken.take {consumer : Consumer α} {next : α → Parser γ} :
    (liftM consumer >>= next).NeedsToken := by
  intro result run
  rw [run_bind, run_consumer] at run
  obtain ⟨⟨value, middle⟩, first, -⟩ := ok_of_bind_eq_ok run
  exact Consumer.run_nil_ne_ok first

/-- What something follows that needs a token needs a token. -/
theorem NeedsToken.bind {next : α → Parser γ} (needs : ∀ value, (next value).NeedsToken) :
    (small >>= next).NeedsToken := by
  intro result run
  rw [run_bind] at run
  obtain ⟨⟨value, middle⟩, first, second⟩ := ok_of_bind_eq_ok run
  obtain rfl := eq_nil_of_run first
  exact needs value result second

/-- A value is given alike. -/
theorem Extends.pure {value : α} {like : β} (holds : related value like) :
    Extends env stops ended related (Pure.pure value) (Pure.pure like) := by
  intro source
  refine ExtendsAt.of_exists fun tokens rest left value run same _ => ?_
  cases run
  exact ⟨like, tokens, holds, same, rfl⟩

/-- A value is given alike before tokens that are left. -/
theorem extendsAt_pure {value : α} {like : β} {source : List Token} (holds : related value like)
    (some : source ≠ []) :
    ExtendsAt env stops onward related (Pure.pure value : Parser α).run
      (Pure.pure like : Parser β).run source := by
  intro tokens rest left value run same _
  cases run
  exact ⟨like, holds, .inr ⟨some, tokens, same, rfl⟩⟩

/-- What passes a check passes the other one. -/
theorem Extends.check {result : Except Fault α} {resultToo : Except Fault β}
    (holds : ∀ value, result = .ok value → ∃ like, resultToo = .ok like ∧ related value like) :
    Extends env stops ended related (liftM result : Parser α) (liftM resultToo : Parser β) := by
  intro source
  refine ExtendsAt.of_exists fun tokens rest left value run same _ => ?_
  cases result with
  | error fault => cases run
  | ok passed =>
    cases run
    obtain ⟨like, rfl, alike⟩ := holds _ rfl
    exact ⟨like, tokens, alike, same, rfl⟩

/-- What a failure takes is taken by everything. -/
theorem Extends.fail {problem : SyntaxProblem} :
    Extends other stops onward related (Parser.fail env problem) large := by
  intro source tokens rest left value run
  cases run

/-- What a refusal takes is taken by everything. -/
theorem Extends.refuse {fault : Fault} :
    Extends other stops onward related (Parser.refuse fault) large := by
  intro source tokens rest left value run
  cases run

/-- A consumer as a parser. -/
theorem Extends.consumer {small : Consumer α} {large : Consumer β}
    (holds : small.Extends env stops onward related large) :
    Extends env stops onward related (liftM small : Parser α) (liftM large : Parser β) := by
  intro source tokens rest left value run
  rw [run_consumer] at run ⊢
  exact holds source run

section

variable {next : α → Parser γ} {nextToo : β → Parser δ}

/-- One parser after another. -/
theorem Extends.bind (first : small.Extends env stops ended related large)
    (second : ∀ value like, related value like →
      (next value).Extends env stops onwardLater later (nextToo like)) :
    (small >>= next).Extends env stops onwardLater later (large >>= nextToo) := by
  intro source tokens rest left result run
  rw [run_bind] at run ⊢
  have reaches (value : α) (result : γ) (left : List Token)
      (run : (next value).run [] = .ok (result, left)) :
      left = [] ∧ ∀ token, stops token → stops token :=
    ⟨eq_nil_of_run run, fun _ => id⟩
  exact (first source).bind reaches second run

/-- One parser before another one that needs a token. -/
theorem Extends.between (first : small.Extends env stopsFirst ended related large)
    (needs : ∀ value, (next value).NeedsToken)
    (second : ∀ value like, related value like →
      (next value).Extends env stops onwardLater later (nextToo like)) :
    (small >>= next).Extends env stops onwardLater later (large >>= nextToo) := by
  intro source tokens rest left result run
  rw [run_bind] at run ⊢
  exact (first source).bind (fun value _ _ run => absurd run (needs value _)) second run

/-- A consumer before a parser. -/
theorem Extends.take {small : Consumer α} {large : Consumer β}
    (first : small.Extends env stops ended related large)
    (second : ∀ value like, related value like →
      (next value).Extends env stops onwardLater later (nextToo like)) :
    Extends env stops onwardLater later (liftM small >>= next) (liftM large >>= nextToo) :=
  .bind (.consumer first) second

/-- A consumer before a parser that needs a token. -/
theorem Extends.takeBetween {small : Consumer α} {large : Consumer β}
    (first : small.Extends env stopsFirst ended related large)
    (needs : ∀ value, (next value).NeedsToken)
    (second : ∀ value like, related value like →
      (next value).Extends env stops onwardLater later (nextToo like)) :
    Extends env stops onwardLater later (liftM small >>= next) (liftM large >>= nextToo) :=
  .between (.consumer first) needs second

end

section

variable {next : Token → Parser γ} {nextToo : Token → Parser δ}

/-- The next token tells alike where there is one; where there is none, it has to be told what goes
on. -/
theorem Extends.peekOr
    (last : ∀ ⦃rest result left⦄, stops (other.peek rest) →
      (next env.finish).run [] = .ok (result, left) →
        ∃ like, later result like ∧
          onwardLater like rest ((Parser.next other >>= nextToo).run rest))
    (each : ∀ ⦃first second : Token⦄ ⦃source⦄, first.word = second.word →
      ExtendsAt other stops onwardLater later (next first).run (nextToo second).run
        (first :: source)) :
    (Parser.next env >>= next).Extends other stops onwardLater later
      (Parser.next other >>= nextToo) := by
  intro source tokens rest left result run same stop
  rw [run_bind, run_next, ok_bind] at run
  cases source with
  | nil =>
    obtain rfl : tokens = [] := List.map_eq_nil_iff.mp same
    have none := eq_nil_of_run run
    obtain ⟨like, alike, goes⟩ := last (stop none) run
    exact ⟨like, alike, .inl ⟨none, goes⟩⟩
  | cons first source =>
    obtain ⟨second, others, rfl, known, -⟩ := List.map_eq_cons_iff.mp same
    rw [run_bind, run_next, ok_bind]
    exact each known.symm run same stop

/-- The next token tells alike, unless it is the end. -/
theorem Extends.peek (finish : env.finish.kind = .finish)
    (each : ∀ first second : Token, first.Akin stops second →
      (next first).Extends other stops ended later (nextToo second)) :
    (Parser.next env >>= next).Extends other stops ended later (Parser.next other >>= nextToo) := by
  refine .peekOr (fun rest result left stop run => ?_) fun _ _ _ same => each _ _ (.same same) _
  have last := each _ _ (.finish finish stop) []
  obtain ⟨like, others, alike, words, whole⟩ := last.exists_of_ended run rfl fun _ => stop
  obtain rfl := eq_nil_of_run run
  obtain rfl : others = [] := List.map_eq_nil_iff.mp words
  refine ⟨like, alike, ?_⟩
  rw [run_bind, run_next, ok_bind]
  exact whole

/-- The next token tells alike if there has to be one. -/
theorem Extends.peekToken (needs : ∀ token, (next token).NeedsToken)
    (each : ∀ first second : Token, first.word = second.word →
      (next first).Extends other stops onwardLater later (nextToo second)) :
    (Parser.next env >>= next).Extends other stops onwardLater later
      (Parser.next other >>= nextToo) :=
  .peekOr (fun _ _ _ _ run => absurd run (needs _ _)) fun _ _ _ same => each _ _ same _

end

end Parser

namespace Consumer

variable {small : Consumer α} {large : Consumer β}

/-- What a failure takes is taken by everything. -/
theorem Extends.fail {problem : SyntaxProblem} :
    Extends other stops onward related (Consumer.fail env problem) large := by
  intro source tokens rest left value run
  cases run

/-- A parser after a consumer, from certain tokens. -/
theorem extendsAt_andThen {next : α → Parser γ} {nextToo : β → Parser δ} {source : List Token}
    (first : ExtendsAt env stops ended related small.run large.run source)
    (second : ∀ value like, related value like →
      (next value).Extends env stops onwardLater later (nextToo like)) :
    ExtendsAt env stops onwardLater later (small.andThen next).run (large.andThen nextToo).run
      source := by
  intro tokens rest left result run
  rw [run_andThen] at run ⊢
  have reaches (value : α) (result : γ) (left : List Token)
      (run : (next value).run [] = .ok (result, left)) :
      left = [] ∧ ∀ token, stops token → stops token :=
    ⟨Parser.eq_nil_of_run run, fun _ => id⟩
  exact first.bind reaches second run

/-- A parser after a consumer. -/
theorem Extends.andThen {next : α → Parser γ} {nextToo : β → Parser δ}
    (first : small.Extends env stops ended related large)
    (second : ∀ value like, related value like →
      (next value).Extends env stops onwardLater later (nextToo like)) :
    (small.andThen next).Extends env stops onwardLater later (large.andThen nextToo) :=
  fun source => extendsAt_andThen (first source) second

/-- A consumer after a parser. -/
theorem Extends.before {small : Parser α} {large : Parser β} {next : α → Consumer γ}
    {nextToo : β → Consumer δ} (first : small.Extends env stopsFirst ended related large)
    (second : ∀ value like, related value like →
      (next value).Extends env stops onwardLater later (nextToo like)) :
    (small.before next).Extends env stops onwardLater later (large.before nextToo) := by
  intro source tokens rest left result run
  rw [run_before] at run ⊢
  exact (first source).bind (fun _ _ _ run => absurd run run_nil_ne_ok) second run

/-- What the next token selects, from certain tokens. -/
theorem extendsAt_ahead {select : Token → Consumer α} {selectToo : Token → Consumer β}
    {source : List Token} (each : ∀ second : Token, (env.peek source).word = second.word →
      ExtendsAt other stops onward related (select (env.peek source)).run (selectToo second).run
        source) :
    ExtendsAt other stops onward related (Consumer.ahead env select).run
      (Consumer.ahead other selectToo).run source := by
  intro tokens rest left result run same stop
  rw [run_ahead] at run ⊢
  cases source with
  | nil => exact absurd run run_nil_ne_ok
  | cons first source =>
    obtain ⟨second, others, rfl, known, -⟩ := List.map_eq_cons_iff.mp same
    exact each _ known.symm run same stop

/-- What the next token selects. -/
theorem Extends.ahead {select : Token → Consumer α} {selectToo : Token → Consumer β}
    (each : ∀ first second : Token, first.word = second.word →
      (select first).Extends other stops onward related (selectToo second)) :
    (Consumer.ahead env select).Extends other stops onward related
      (Consumer.ahead other selectToo) :=
  fun source => extendsAt_ahead fun second same => each _ second same source

/-- The tokens that were taken are counted alike. -/
theorem Extends.counted {large : Consumer α} (holds : small.Extends env stops ended Eq large) :
    small.counted.Extends env stops ended Eq large.counted := by
  intro source
  refine ExtendsAt.of_exists fun tokens rest left result run same stop => ?_
  rw [run_counted] at run ⊢
  cases taken : small.run source with
  | error failure =>
    rw [taken] at run
    cases run
  | ok pair =>
    obtain ⟨value, left⟩ := pair
    rw [taken] at run
    cases run
    obtain ⟨_, others, rfl, words, whole⟩ := (holds source).exists_of_ended taken same stop
    have before := congrArg List.length same
    have after := congrArg List.length words
    refine ⟨_, others, rfl, words, ?_⟩
    rw [whole]
    simp only [List.length_map] at before after
    simp only [Except.map, List.length_append, before, after, Nat.add_sub_add_right]

end Consumer

section

variable {small large : Consumer α} (each : small.Extends other stopsFirst ended Eq large)
include each

/-- Further items are taken alike when something follows them. -/
theorem furtherItems_extends : (furtherItems env small).Extends other (fun _ => False) ended Eq
    (furtherItems other large) := by
  intro source
  refine ExtendsAt.of_exists fun tokens rest left result run same stop => ?_
  -- A comma follows every item but the last, and something follows the last, so no item has to be
  -- stopped by what comes after.
  have some : left ≠ [] := stop
  induction size : source.length using Nat.strongRecOn generalizing source tokens result with
  | ind size ih =>
    cases source with
    | nil => exact absurd (Parser.eq_nil_of_run run) some
    | cons comma source =>
      obtain ⟨commaToo, tokens, rfl, known, words⟩ := List.map_eq_cons_iff.mp same
      have alike : (env.peek (comma :: source)).isSymbol "," =
          (other.peek (commaToo :: tokens ++ rest)).isSymbol "," := is_congr known.symm _ _
      rw [run_furtherItems] at run ⊢
      rw [← alike]
      split at run
      case isFalse no =>
        cases run
        rw [if_neg no]
        exact ⟨[], commaToo :: tokens, rfl, same, rfl⟩
      case isTrue yes =>
        have comes : comma.isSymbol "," = true := yes
        obtain ⟨⟨_, _⟩, taken, run⟩ := ok_of_bind_eq_ok run
        rw [symbol, run_token_cons, if_pos comes] at taken
        cases taken
        obtain ⟨⟨first, middle⟩, runFirst, run⟩ := ok_of_bind_eq_ok run
        obtain ⟨⟨others, last⟩, runOthers, run⟩ := ok_of_bind_eq_ok run
        cases run
        have inside (none : middle = []) : stopsFirst (other.peek rest) := by
          subst none
          exact absurd (Parser.eq_nil_of_run runOthers) some
        obtain ⟨_, between, rfl, wordsFirst, takenFirst⟩ :=
          (each _).exists_of_ended runFirst words inside
        have shorter : middle.length < source.length := Consumer.length_of_run runFirst
        simp only [List.length_cons] at size
        obtain ⟨_, after, rfl, wordsOthers, takenOthers⟩ :=
          ih middle.length (by omega) middle between others runOthers wordsFirst rfl
        have comesToo : commaToo.isSymbol "," = true := alike.symm.trans yes
        refine ⟨_, after, rfl, wordsOthers, ?_⟩
        rw [if_pos yes, symbol, List.cons_append, run_token_cons, if_pos comesToo, ok_bind,
          takenFirst, ok_bind, takenOthers]
        rfl

/-- Items between two symbols are taken alike. -/
theorem delimited_extends {before after : String} :
    (delimited env before after small).Extends other stops ended Eq
      (delimited other before after large) := by
  refine .andThen symbol_extends fun _ _ _ => ?_
  refine .peekToken (fun next => ?_) fun next nextToo same => ?_
  · split
    · exact .take
    · exact .take
  · have alike : next.isSymbol after = nextToo.isSymbol after := is_congr same _ _
    rw [alike]
    split
    · exact .take symbol_extends fun _ _ _ => .pure rfl
    · refine .takeBetween each (fun _ => .bind fun _ => .take) fun first _ same => ?_
      subst same
      refine .between (furtherItems_extends each) (fun _ => .take) fun others _ same => ?_
      subst same
      exact .take symbol_extends fun _ _ _ => .pure rfl

end

end Grammar

end ContentSpace

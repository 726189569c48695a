import ContentSpace.Proofs.Grammar.Descent.Basic
import ContentSpace.Proofs.Grammar.Run
import ContentSpace.Proofs.Stateful

/-!
# Descents follow parsers

A descent whose cursor stands before certain tokens does what a parser does with these tokens: it
gives the same and moves its cursor before the tokens that the parser leaves, or fails alike. What
it never does is to halt for another reason, or to count more depth than the limit. Each way to put
steps together keeps this, so the procedures of a descent follow the parsers by the same rules as
they are built.
-/

namespace ContentSpace.Grammar.Descent

open Stateful

variable {α β : Type} {tokens source rest : List Token} {env : Environment} {depth : Nat}
  {state : State} {after : Nat → Prop}

/-- The cursor stands before certain tokens, followed by the end token, at a depth within the
limit. -/
structure State.At (tokens : List Token) (env : Environment) (source : List Token) (depth : Nat)
    (state : State) : Prop where
  /-- The end token is none that a parser takes. -/
  finish : env.finish.kind = .finish
  /-- The tokens before the cursor are counted. -/
  split : ∃ front, tokens = front ++ (source ++ [env.finish]) ∧ state.position = front.length
  /-- The depth is counted. -/
  counted : state.depth = depth
  /-- The depth is within the limit. -/
  room : depth ≤ env.limit
  /-- So was every depth before. -/
  highest : state.highest ≤ env.limit

/-- A descent ends as a parser does: it gave the same result, at a depth with a property, or it
failed alike. -/
inductive Follows (tokens : List Token) (env : Environment) (after : Nat → Prop) :
    EStateM.Result Halt State α → Except Failure (α × List Token) → Prop where
  /-- Both give the same and leave the same tokens. -/
  | took {value : α} {rest : List Token} {depth : Nat} {state : State} :
      state.At tokens env rest depth → after depth →
        Follows tokens env after (.ok value state) (.ok (value, rest))
  /-- Both fail alike. -/
  | failed {failure : Failure} {state : State} :
      state.highest ≤ env.limit →
        Follows tokens env after (.error (.failed failure) state) (.error failure)

/-! ## The cursor -/

/-- A token of the list is looked at. -/
theorem run_peekAt {ahead : Nat} {next : Token}
    (inside : tokens[min (state.position + ahead) (tokens.length - 1)]? = some next) :
    (peekAt tokens ahead).run state = .ok next state := by
  rw [peekAt, run_get_bind, inside]
  rfl

namespace State.At

variable (here : state.At tokens env source depth)
include here

/-- The tokens from the cursor on are those that were not read, and the end token. -/
theorem position_add : state.position + source.length + 1 = tokens.length := by
  obtain ⟨front, rfl, position⟩ := here.split
  simp [position, Nat.add_assoc]

/-- The token at the cursor is the first that was not read. -/
theorem run_peek : (peek tokens).run state = .ok (env.peek source) state := by
  obtain ⟨front, rfl, position⟩ := here.split
  refine run_peekAt ?_
  rw [position, Nat.add_zero, Nat.min_eq_left (by simp)]
  cases source <;> simp [Environment.peek]

/-- One token ahead is the second that was not read. -/
theorem run_peekAt_one :
    (peekAt tokens 1).run state = .ok (env.peek source.tail) state := by
  obtain ⟨front, rfl, position⟩ := here.split
  refine run_peekAt ?_
  rw [position]
  cases source with
  | nil => simp [Environment.peek]
  | cons first rest =>
    rw [Nat.min_eq_left (by simp), List.getElem?_append_right (Nat.le_add_right _ _),
      Nat.add_sub_cancel_left]
    cases rest <;> simp [Environment.peek]

/-- A loop may have a round for each token that was not read, and one more. -/
theorem run_rounds : (rounds tokens).run state = .ok (source.length + 1) state := by
  have count := here.position_add
  show EStateM.Result.ok (tokens.length - state.position) state = _
  rw [← count, Nat.add_assoc, Nat.add_sub_cancel_left]

end State.At

/-- The cursor moves over the first token that was not read. -/
theorem State.At.run_advance {first : Token} (here : state.At tokens env (first :: rest) depth) :
    ∃ after, (advance tokens).run state = .ok () after ∧ after.At tokens env rest depth := by
  have count := here.position_add
  obtain ⟨front, rfl, position⟩ := here.split
  refine ⟨{ state with position := state.position + 1 }, ?_, ?_⟩
  · show EStateM.Result.ok () (if state.position + 1 < _ then _ else _) = _
    rw [if_pos (by simp only [List.length_cons] at count; omega)]
  · exact ⟨here.finish, ⟨front ++ [first], by simp, by simp [position]⟩, here.counted, here.room,
      here.highest⟩

/-- The cursor stays at the last token. -/
theorem State.At.run_advance_nil (here : state.At tokens env [] depth) :
    (advance tokens).run state = .ok () state := by
  have count := here.position_add
  show EStateM.Result.ok () (if state.position + 1 < tokens.length then _ else state) = _
  rw [if_neg (by simp only [List.length_nil] at count; omega)]

/-! ## Ways to put steps together -/

/-- A token that passes the test is taken. -/
theorem run_token_of_test {test : Token → Bool} {problem : SyntaxProblem} {first : Token}
    {rest : List Token} (passes : test first = true) :
    (token env test problem).run (first :: rest) = .ok (first, rest) := by
  rw [run_token_cons, if_pos passes]

/-- Steps in a row follow parsers in a row. -/
theorem Follows.bind {steps : Descent α} {next : α → Descent β}
    {outcome : Except Failure (α × List Token)}
    {later : α × List Token → Except Failure (β × List Token)}
    (first : Follows tokens env (· = depth) (steps.run state) outcome)
    (second : ∀ value rest state, outcome = .ok (value, rest) → state.At tokens env rest depth →
      Follows tokens env after ((next value).run state) (later (value, rest))) :
    Follows tokens env after ((steps >>= next).run state) (outcome >>= later) := by
  generalize ran : steps.run state = result at first
  cases first with
  | took here same =>
    subst same
    rw [run_bind_of_ok ran]
    exact second _ _ _ rfl here
  | failed bounded =>
    rw [run_bind_of_error ran]
    exact .failed bounded

/-- A depth with a property has every weaker property. -/
theorem Follows.mono {result : EStateM.Result Halt State α}
    {outcome : Except Failure (α × List Token)} {wider : Nat → Prop}
    (follows : Follows tokens env after result outcome)
    (weaker : ∀ depth, after depth → wider depth) : Follows tokens env wider result outcome := by
  cases follows with
  | took there holds => exact .took there (weaker _ holds)
  | failed bounded => exact .failed bounded

/-- A choice between steps follows the same choice of what they follow. -/
theorem Follows.ite {γ : Type} {condition : Prop} [Decidable condition] {yes no : Descent α}
    {first second : γ} (outcome : γ → Except Failure (α × List Token))
    (holds : condition → Follows tokens env after (yes.run state) (outcome first))
    (fails : ¬ condition → Follows tokens env after (no.run state) (outcome second)) :
    Follows tokens env after ((if condition then yes else no).run state)
      (outcome (if condition then first else second)) := by
  split
  next is => exact holds is
  next not => exact fails not

/-- Steps fail where steps before them fail. -/
theorem Follows.fail_bind {steps : Descent α} (next : α → Descent β) {failure : Failure}
    {before : Nat → Prop} (failed : Follows tokens env before (steps.run state) (.error failure)) :
    Follows tokens env after ((steps >>= next).run state) (.error failure) := by
  generalize ran : steps.run state = result at failed
  cases failed with
  | failed bounded =>
    rw [run_bind_of_error ran]
    exact .failed bounded

/-- What follows a consumer goes on with fewer tokens. -/
theorem Follows.andThen {steps : Descent α} {next : α → Descent β} {consumer : Consumer α}
    {later : α → Parser β}
    (first : Follows tokens env (· = depth) (steps.run state) (consumer.run source))
    (second : ∀ value rest state, rest.length < source.length → state.At tokens env rest depth →
      Follows tokens env after ((next value).run state) ((later value).run rest)) :
    Follows tokens env after ((steps >>= next).run state) ((consumer.andThen later).run source) := by
  rw [Consumer.run_andThen]
  refine first.bind fun value rest state took => ?_
  exact second value rest state (Consumer.length_of_run took)

/-- What follows a consumer inside a parser goes on with fewer tokens. -/
theorem Follows.take {steps : Descent α} {next : α → Descent β} {consumer : Consumer α}
    {later : α → Parser β}
    (first : Follows tokens env (· = depth) (steps.run state) (consumer.run source))
    (second : ∀ value rest state, rest.length < source.length → state.At tokens env rest depth →
      Follows tokens env after ((next value).run state) ((later value).run rest)) :
    Follows tokens env after ((steps >>= next).run state)
      ((liftM consumer >>= later : Parser β).run source) := by
  rw [Parser.run_bind, Parser.run_consumer]
  refine first.bind fun value rest state took => ?_
  exact second value rest state (Consumer.length_of_run took)

/-- What follows a parser goes on with no more tokens. -/
theorem Follows.parse {steps : Descent α} {next : α → Descent β} {parser : Parser α}
    {later : α → Parser β}
    (first : Follows tokens env (· = depth) (steps.run state) (parser.run source))
    (second : ∀ value rest state, rest.length ≤ source.length → state.At tokens env rest depth →
      Follows tokens env after ((next value).run state) ((later value).run rest)) :
    Follows tokens env after ((steps >>= next).run state) ((parser >>= later).run source) := by
  rw [Parser.run_bind]
  refine first.bind fun value rest state took => ?_
  exact second value rest state (Parser.length_of_run took)

/-- What follows a parser goes on with a function of what it gives. -/
theorem Follows.parse_map {γ : Type} {steps : Descent α} {next : α → Descent β} {parser : Parser γ}
    {later : γ → Parser β} (f : γ → α)
    (first : Follows tokens env (· = depth) (steps.run state)
      (parser.run source >>= fun taken => .ok (f taken.1, taken.2)))
    (second : ∀ value rest state, rest.length ≤ source.length → state.At tokens env rest depth →
      Follows tokens env after ((next (f value)).run state) ((later value).run rest)) :
    Follows tokens env after ((steps >>= next).run state) ((parser >>= later).run source) := by
  rw [Parser.run_bind]
  cases ran : parser.run source with
  | error failure =>
    rw [ran, error_bind] at first
    exact first.fail_bind next
  | ok taken =>
    rw [ran, ok_bind] at first
    generalize walked : steps.run state = result at first
    cases first with
    | took there same =>
      subst same
      rw [run_bind_of_ok walked]
      exact second _ _ _ (Parser.length_of_run ran) there

/-- The depth is set back after steps that gave a result. -/
theorem run_chained_of_ok {steps : Descent α} {value : α} {next : State}
    (ran : steps.run state = .ok value next) :
    (chained steps).run state = .ok value { next with depth := state.depth } := by
  unfold EStateM.run at ran ⊢
  rw [Descent.chained, ran]

/-- The depth is set back after steps that halted. -/
theorem run_chained_of_error {steps : Descent α} {halt : Halt} {next : State}
    (ran : steps.run state = .error halt next) :
    (chained steps).run state = .error halt { next with depth := state.depth } := by
  unfold EStateM.run at ran ⊢
  rw [Descent.chained, ran]

/-- The depth is set back after steps that changed it. -/
theorem Follows.chained {steps : Descent α} {outcome : Except Failure (α × List Token)}
    (here : state.At tokens env source depth)
    (follows : Follows tokens env (fun _ => True) (steps.run state) outcome) :
    Follows tokens env (· = depth) ((chained steps).run state) outcome := by
  generalize ran : steps.run state = result at follows
  cases follows with
  | took there =>
    rw [run_chained_of_ok ran]
    exact .took ⟨there.finish, there.split, here.counted, here.room, there.highest⟩ rfl
  | failed bounded =>
    rw [run_chained_of_error ran]
    exact .failed bounded

/-- Failures are changed alike. -/
theorem Follows.mapFailure {steps : Descent α} {consumer : Consumer α}
    (change : Failure → Failure)
    (follows : Follows tokens env after (steps.run state) (consumer.run source)) :
    Follows tokens env after ((mapFailure change steps).run state)
      ((consumer.mapFailure change).run source) := by
  rw [Consumer.run_mapFailure]
  generalize ran : steps.run state = result at follows
  generalize consumer.run source = outcome at follows
  unfold EStateM.run at ran ⊢
  rw [Descent.mapFailure, ran]
  cases follows with
  | took there holds => exact .took there holds
  | failed bounded => exact .failed bounded

section

variable (here : state.At tokens env source depth)
include here

/-- A fault is a failure. -/
theorem State.At.refuse {fault : Fault} :
    Follows tokens env after ((refuse fault : Descent α).run state) (.error { fault }) :=
  .failed here.highest

/-- A problem with the next token is a failure. -/
theorem State.At.fail {problem : SyntaxProblem} :
    Follows tokens env after ((fail tokens problem : Descent α).run state)
      (.error (env.failure problem source)) := by
  rw [Descent.fail, run_bind_of_ok here.run_peek]
  exact .failed here.highest

/-- What was checked is a result or a failure. -/
theorem State.At.check {result : Except Fault α} :
    Follows tokens env (· = depth) ((check result).run state)
      ((liftM result : Parser α).run source) := by
  cases result with
  | ok value => exact .took here rfl
  | error fault => exact .failed here.highest

/-- Steps that depend on the next token follow a parser that does. -/
theorem State.At.next {next : Token → Descent β} {later : Token → Parser β}
    (second : Follows tokens env after ((next (env.peek source)).run state)
      ((later (env.peek source)).run source)) :
    Follows tokens env after ((peek tokens >>= next).run state)
      ((Parser.next env >>= later).run source) := by
  rw [run_bind_of_ok here.run_peek, Parser.run_bind, Parser.run_next]
  exact second

/-- Steps for a token that passes a test, or else for any other, follow what takes the token or
does something else. -/
theorem State.At.eat {test : Token → Bool} {problem : SyntaxProblem} {yes no : Descent β}
    {later : Token × List Token → Except Failure (β × List Token)}
    {other : Except Failure (β × List Token)} (ends : test env.finish = false)
    (taken : ∀ first rest state, rest.length < source.length → state.At tokens env rest depth →
      Follows tokens env after (yes.run state) (later (first, rest)))
    (left : Follows tokens env after (no.run state) other) :
    Follows tokens env after
      ((eat tokens test >>= fun found => if found then yes else no).run state)
      (if test (env.peek source) then (token env test problem).run source >>= later else other) := by
  rw [Descent.eat, bind_assoc, run_bind_of_ok here.run_peek]
  cases passes : test (env.peek source) with
  | false => exact left
  | true =>
    cases source with
    | nil => cases ends.symm.trans passes
    | cons first rest =>
      obtain ⟨after, ran, there⟩ := here.run_advance
      have passes : test first = true := passes
      rw [if_pos rfl, if_pos rfl, bind_assoc, run_bind_of_ok ran, run_token_of_test passes, ok_bind]
      exact taken first rest after (Nat.lt_succ_self _) there

/-- Steps for a token that passes a test follow a parser that looks at the next token. -/
theorem State.At.eat_take {test : Token → Bool} {problem : SyntaxProblem} {yes no : Descent β}
    {later : Token → Parser β} {other : Parser β} (ends : test env.finish = false)
    (taken : ∀ first rest state, rest.length < source.length → state.At tokens env rest depth →
      Follows tokens env after (yes.run state) ((later first).run rest))
    (left : Follows tokens env after (no.run state) (other.run source)) :
    Follows tokens env after
      ((Descent.eat tokens test >>= fun found => if found then yes else no).run state)
      ((Parser.next env >>= fun next =>
        if test next then liftM (token env test problem) >>= later else other).run source) := by
  rw [Parser.run_bind, Parser.run_next, ok_bind, apply_ite (fun parser => Parser.run parser _),
    Parser.run_bind, Parser.run_consumer]
  exact here.eat ends taken left

/-- Steps for a token that passes a test follow a consumer that takes the token. -/
theorem State.At.eat_andThen {test : Token → Bool} {problem : SyntaxProblem} {yes no : Descent β}
    {later : Token → Parser β} {other : Consumer β} (ends : test env.finish = false)
    (taken : ∀ first rest state, rest.length < source.length → state.At tokens env rest depth →
      Follows tokens env after (yes.run state) ((later first).run rest))
    (left : Follows tokens env after (no.run state) (other.run source)) :
    Follows tokens env after
      ((Descent.eat tokens test >>= fun found => if found then yes else no).run state)
      ((if test (env.peek source) then (token env test problem).andThen later else other).run
        source) := by
  rw [apply_ite (fun consumer => Consumer.run consumer _), Consumer.run_andThen]
  exact here.eat ends taken left

/-- The end token is no symbol. -/
theorem State.At.isSymbol_finish (word : String) : env.finish.isSymbol word = false := by
  simp [Token.isSymbol, Token.is, here.finish]

/-- The end token is no keyword. -/
theorem State.At.isKeyword_finish (word : String) : env.finish.isKeyword word = false := by
  simp [Token.isKeyword, Token.is, here.finish]

/-- The end token is no operator. -/
theorem State.At.isOperator_finish (word : String) : env.finish.isOperator word = false := by
  simp [Token.isOperator, Token.is, here.finish]

/-- The end token is of no other kind. -/
theorem State.At.kind_finish {kind : TokenKind} (more : kind ≠ .finish) :
    (env.finish.kind == kind) = false := by
  simpa [here.finish] using more.symm

/-- A token that is known to pass a test is moved over where a consumer takes it. -/
theorem State.At.advance {test : Token → Bool} {problem : SyntaxProblem} {next : Unit → Descent β}
    {later : Token → Parser β} (passes : test (env.peek source) = true)
    (ends : test env.finish = false)
    (second : ∀ rest state, rest.length < source.length → state.At tokens env rest depth →
      Follows tokens env after ((next ()).run state) ((later (env.peek source)).run rest)) :
    Follows tokens env after ((advance tokens >>= next).run state)
      (((token env test problem).andThen later).run source) := by
  cases source with
  | nil => cases ends.symm.trans passes
  | cons first rest =>
    obtain ⟨after, ran, there⟩ := here.run_advance
    have taken : test first = true := passes
    rw [run_bind_of_ok ran, Consumer.run_andThen, run_token_of_test taken, ok_bind]
    exact second rest after (Nat.lt_succ_self _) there

/-- A token that is known to pass a test is moved over where a parser takes it. -/
theorem State.At.advance_take {test : Token → Bool} {problem : SyntaxProblem}
    {next : Unit → Descent β} {later : Token → Parser β} (passes : test (env.peek source) = true)
    (ends : test env.finish = false)
    (second : ∀ rest state, rest.length < source.length → state.At tokens env rest depth →
      Follows tokens env after ((next ()).run state) ((later (env.peek source)).run rest)) :
    Follows tokens env after ((Descent.advance tokens >>= next).run state)
      ((liftM (token env test problem) >>= later : Parser β).run source) := by
  rw [Parser.run_bind, Parser.run_consumer, ← Consumer.run_andThen]
  exact here.advance passes ends second

/-- A token of a known kind is all that a consumer takes. -/
theorem State.At.advance_kind {kind : TokenKind} {problem : SyntaxProblem} (value : Token → α)
    (known : (env.peek source).kind = kind) (more : kind ≠ .finish) :
    Follows tokens env (· = depth)
      ((Descent.advance tokens >>= fun _ => Pure.pure (value (env.peek source))).run state)
      (((Grammar.ofKind env kind problem).andThen fun taken => Pure.pure (value taken)).run
        source) :=
  here.advance (by simp [known]) (here.kind_finish more) fun _ _ _ last => .took last rfl

/-- A token that passes a test is taken, any other is a failure. -/
theorem State.At.expect {test : Token → Bool} {problem : SyntaxProblem}
    (ends : test env.finish = false) :
    Follows tokens env (· = depth) ((expect tokens test problem).run state)
      ((token env test problem).run source) := by
  rw [Descent.expect, run_bind_of_ok here.run_peek]
  cases source with
  | nil =>
    rw [Environment.peek, List.headD_nil, if_neg (by simp [ends]), run_token_nil]
    exact here.fail
  | cons first rest =>
    rw [Environment.peek, List.headD_cons, run_token_cons]
    split
    · obtain ⟨after, ran, there⟩ := here.run_advance
      rw [run_bind_of_ok ran]
      exact .took there rfl
    · exact here.fail

/-- A certain symbol is taken. -/
theorem State.At.symbol {word : String} :
    Follows tokens env (· = depth) ((symbol tokens word).run state)
      ((Grammar.symbol env word).run source) :=
  here.expect (here.isSymbol_finish word)

/-- A certain keyword is taken. -/
theorem State.At.keyword {word : String} :
    Follows tokens env (· = depth) ((keyword tokens word).run state)
      ((Grammar.keyword env word).run source) :=
  here.expect (here.isKeyword_finish word)

/-- A certain operator is taken. -/
theorem State.At.operator {word : String} :
    Follows tokens env (· = depth) ((operator tokens word).run state)
      ((Grammar.operator env word).run source) :=
  here.expect (here.isOperator_finish word)

/-- A token of a certain kind is taken. -/
theorem State.At.ofKind {kind : TokenKind} {problem : SyntaxProblem} (more : kind ≠ .finish) :
    Follows tokens env (· = depth) ((ofKind tokens kind problem).run state)
      ((Grammar.ofKind env kind problem).run source) :=
  here.expect (here.kind_finish more)

/-- A name is taken. -/
theorem State.At.name :
    Follows tokens env (· = depth) ((name tokens).run state) ((Grammar.name env).run source) :=
  here.ofKind nofun

end

/-! ## Lists of items -/

section

variable {item : Descent α} {consumer : Consumer α} {size rounds : Nat}

/-- Further items are followed, however many were taken before. -/
theorem furtherItems_follows (items : List α)
    (each : ∀ rest state, rest.length < size → state.At tokens env rest depth →
      Follows tokens env (· = depth) (item.run state) (consumer.run rest))
    (here : state.At tokens env source depth) (most : source.length ≤ size)
    (enough : source.length < rounds) :
    Follows tokens env (· = depth) ((furtherItems tokens item rounds items).run state)
      ((Grammar.furtherItems env consumer).run source >>= fun taken =>
        .ok (items ++ taken.1, taken.2)) := by
  induction rounds generalizing source state items with
  | zero => omega
  | succ rounds ih =>
    rw [furtherItems, run_furtherItems]
    rw [apply_ite (fun outcome : Except Failure (List α × List Token) =>
      outcome >>= fun taken => .ok (items ++ taken.1, taken.2)), bind_assoc, ok_bind]
    refine here.eat (here.isSymbol_finish ",") (fun _ rest next less there => ?_) ?_
    · rw [bind_assoc]
      refine (each rest next (by omega) there).bind fun value later last took beyond => ?_
      have fewer : later.length < rest.length := Consumer.length_of_run took
      have others := ih (items ++ [value]) beyond (by omega) (by omega)
      simpa [bind_assoc] using others
    · rw [List.append_nil]
      exact .took here rfl

/-- Items between symbols are followed. -/
theorem delimited_follows {before close : String}
    (each : ∀ rest state, rest.length < source.length → state.At tokens env rest depth →
      Follows tokens env (· = depth) (item.run state) (consumer.run rest))
    (here : state.At tokens env source depth) :
    Follows tokens env (· = depth) ((delimited tokens before close item).run state)
      ((Grammar.delimited env before close consumer).run source) := by
  refine here.symbol.andThen fun _ rest next fewer there => ?_
  refine there.next ?_
  split
  · exact there.symbol.take fun _ _ _ _ last => .took last rfl
  · refine (each rest next fewer there).take fun first rest next less there => ?_
    rw [run_bind_of_ok there.run_rounds]
    have others := furtherItems_follows [first] each there (by omega) (Nat.lt_succ_self _)
    refine others.parse_map _ fun others rest next _ there => ?_
    exact there.symbol.take fun _ _ _ _ last => .took last rfl

/-- Items up to a symbol are followed, however many were taken before. -/
theorem itemsUntil_follows (close : String) (items : List α)
    (each : ∀ rest state, rest.length ≤ size → state.At tokens env rest depth →
      Follows tokens env (· = depth) (item.run state) (consumer.run rest))
    (here : state.At tokens env source depth) (most : source.length ≤ size)
    (enough : source.length < rounds) :
    Follows tokens env (· = depth) ((itemsUntil tokens close item rounds items).run state)
      ((Grammar.itemsUntil env close consumer).run source >>= fun taken =>
        .ok (items ++ taken.1, taken.2)) := by
  induction rounds generalizing source state items with
  | zero => omega
  | succ rounds ih =>
    rw [itemsUntil, run_itemsUntil, run_bind_of_ok here.run_peek]
    split
    · rw [ok_bind, List.append_nil]
      exact .took here rfl
    · rw [bind_assoc]
      refine (each source state most here).bind fun value rest next took there => ?_
      have fewer := Consumer.length_of_run took
      have others := ih (items ++ [value]) there (by omega) (by omega)
      simpa [bind_assoc] using others

end

end ContentSpace.Grammar.Descent

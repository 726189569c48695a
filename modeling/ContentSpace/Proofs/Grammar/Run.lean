import ContentSpace.Grammar.Program
import ContentSpace.Proofs.Grammar.Ensures

/-!
# Runs of parsers

A run of a parser gives what was taken and the tokens after it, or the first failure. That the
tokens got fewer is part of the parser and not of the run, so runs of different tokens can be
compared. The run of a compound parser falls into runs of its parts, in order.
-/

namespace ContentSpace.Grammar

variable {α β : Type} {env : Environment} {source : List Token}

/-- What a parser takes from tokens, and the tokens after it. -/
def Parser.run (parser : Parser α) (source : List Token) : Except Failure (α × List Token) :=
  (parser source).map fun parsed => (parsed.value, parsed.rest)

/-- What a consumer takes from tokens, and the tokens after it. -/
def Consumer.run (consumer : Consumer α) (source : List Token) : Except Failure (α × List Token) :=
  (consumer source).map fun taken => (taken.value, taken.rest)

/-- What follows a success goes on with its result. -/
@[simp] theorem ok_bind {ε : Type} (value : α) (next : α → Except ε β) :
    ((Except.ok value : Except ε α) >>= next) = next value :=
  rfl

/-- What follows a failure does not run. -/
@[simp] theorem error_bind {ε : Type} (failure : ε) (next : α → Except ε β) :
    ((Except.error failure : Except ε α) >>= next) = .error failure :=
  rfl

namespace Parser

/-- A parser that ran without failure took what its run says. -/
theorem exists_of_run {parser : Parser α} {value : α} {rest : List Token}
    (run : parser.run source = .ok (value, rest)) :
    ∃ bounded, parser source = .ok ⟨value, rest, bounded⟩ := by
  unfold Parser.run at run
  cases taken : parser source with
  | error failure =>
    rw [taken] at run
    cases run
  | ok parsed =>
    rw [taken] at run
    cases run
    exact ⟨parsed.bounded, rfl⟩

/-- No token is added in a run. -/
theorem length_of_run {parser : Parser α} {value : α} {rest : List Token}
    (run : parser.run source = .ok (value, rest)) : rest.length ≤ source.length :=
  (exists_of_run run).1

/-- Nothing is left of no tokens. -/
theorem eq_nil_of_run {parser : Parser α} {value : α} {rest : List Token}
    (run : parser.run [] = .ok (value, rest)) : rest = [] :=
  List.eq_nil_of_length_eq_zero (Nat.le_zero.mp (length_of_run run))

/-- A parser takes what its run says. -/
theorem map_value_eq_map_run (parser : Parser α) (source : List Token) :
    (parser source).map Parsed.value = (parser.run source).map Prod.fst := by
  unfold Parser.run
  cases parser source <;> rfl

/-- A result at hand takes nothing. -/
@[simp] theorem run_pure (value : α) :
    (Pure.pure value : Parser α).run source = .ok (value, source) :=
  rfl

/-- One parser runs after another. -/
@[simp] theorem run_bind (parser : Parser α) (next : α → Parser β) :
    (parser >>= next).run source =
      parser.run source >>= fun result => (next result.1).run result.2 := by
  show ((do
    let left ← parser source
    let right ← next left.value left.rest
    return (⟨right.value, right.rest, Nat.le_trans right.bounded left.bounded⟩ :
      Parsed β source) : Except Failure (Parsed β source)).map _) = _
  unfold Parser.run
  cases parser source with
  | error failure => rfl
  | ok left =>
    show (((next left.value left.rest).bind fun right => _).map _) =
      ((next left.value left.rest).map _)
    cases next left.value left.rest <;> rfl

/-- A refusal gives its fault. -/
@[simp] theorem run_refuse (fault : Fault) :
    (Parser.refuse fault : Parser α).run source = .error { fault } :=
  rfl

/-- A failure blames the next token. -/
@[simp] theorem run_fail (problem : SyntaxProblem) :
    (Parser.fail env problem : Parser α).run source = .error (env.failure problem source) :=
  rfl

/-- Looking at the next token takes nothing. -/
@[simp] theorem run_next : (Parser.next env).run source = .ok (env.peek source, source) := rfl

/-- Looking at all tokens takes nothing. -/
@[simp] theorem run_ahead : Parser.ahead.run source = .ok (source, source) := rfl

/-- A check takes nothing. -/
@[simp] theorem run_check (result : Except Fault α) :
    (liftM result : Parser α).run source =
      (result.mapError fun fault => { fault }).map fun value => (value, source) := by
  cases result <;> rfl

/-- A consumer runs alike as a parser. -/
@[simp] theorem run_consumer (consumer : Consumer α) :
    (liftM consumer : Parser α).run source = consumer.run source := by
  show ((do
    let taken ← consumer source
    return (⟨taken.value, taken.rest, Nat.le_of_lt taken.shorter⟩ : Parsed α source) :
      Except Failure (Parsed α source)).map _) = _
  unfold Consumer.run
  cases consumer source <;> rfl

end Parser

namespace Consumer

/-- A consumer that ran without failure took what its run says. -/
theorem exists_of_run {consumer : Consumer α} {value : α} {rest : List Token}
    (run : consumer.run source = .ok (value, rest)) :
    ∃ shorter, consumer source = .ok ⟨value, rest, shorter⟩ := by
  unfold Consumer.run at run
  cases taken : consumer source with
  | error failure =>
    rw [taken] at run
    cases run
  | ok consumed =>
    rw [taken] at run
    cases run
    exact ⟨consumed.shorter, rfl⟩

/-- At least one token is taken in a run. -/
theorem length_of_run {consumer : Consumer α} {value : α} {rest : List Token}
    (run : consumer.run source = .ok (value, rest)) : rest.length < source.length :=
  (exists_of_run run).1

/-- Nothing is taken from no tokens. -/
theorem run_nil_ne_ok {consumer : Consumer α} {value : α} {rest : List Token} :
    consumer.run [] ≠ .ok (value, rest) :=
  fun run => Nat.not_lt_zero _ (length_of_run run)

/-- A parser runs after a consumer. -/
@[simp] theorem run_andThen (consumer : Consumer α) (next : α → Parser β) :
    (consumer.andThen next).run source =
      consumer.run source >>= fun result => (next result.1).run result.2 := by
  unfold Consumer.andThen Consumer.run Parser.run
  dsimp only
  cases consumer source with
  | error failure => rfl
  | ok left =>
    show (((next left.value left.rest).bind fun right => _).map _) =
      ((next left.value left.rest).map _)
    cases next left.value left.rest <;> rfl

/-- A consumer runs after a parser. -/
@[simp] theorem run_before (parser : Parser α) (next : α → Consumer β) :
    (parser.before next).run source =
      parser.run source >>= fun result => (next result.1).run result.2 := by
  unfold Parser.before Consumer.run Parser.run
  dsimp only
  cases parser source with
  | error failure => rfl
  | ok left =>
    show (((next left.value left.rest).bind fun right => _).map _) =
      ((next left.value left.rest).map _)
    cases next left.value left.rest <;> rfl

/-- The next token selects what runs. -/
@[simp] theorem run_ahead (select : Token → Consumer α) :
    (Consumer.ahead env select).run source = (select (env.peek source)).run source :=
  rfl

/-- A failure blames the next token. -/
@[simp] theorem run_fail (problem : SyntaxProblem) :
    (Consumer.fail env problem : Consumer α).run source = .error (env.failure problem source) :=
  rfl

/-- The tokens that were taken are counted. -/
@[simp] theorem run_counted (consumer : Consumer α) :
    consumer.counted.run source = (consumer.run source).map fun result =>
      ((result.1, source.length - result.2.length), result.2) := by
  unfold Consumer.counted Consumer.run
  dsimp only
  cases consumer source <;> rfl

/-- Failures are changed. -/
@[simp] theorem run_mapFailure (consumer : Consumer α) (change : Failure → Failure) :
    (consumer.mapFailure change).run source = (consumer.run source).mapError change := by
  unfold Consumer.mapFailure Consumer.run
  dsimp only
  cases consumer source <;> rfl

end Consumer

/-- A parser that reads something in its course takes at least one token. -/
theorem Parser.length_lt_of_run_bind {γ : Type} {first : Parser α} {consumer : α → Consumer β}
    {next : α → β → Parser γ} {value : γ} {rest : List Token}
    (run : (first >>= fun left => liftM (consumer left) >>= next left).run source =
      .ok (value, rest)) : rest.length < source.length := by
  rw [Parser.run_bind] at run
  obtain ⟨left, ranFirst, run⟩ := ok_of_bind_eq_ok run
  rw [Parser.run_bind, Parser.run_consumer] at run
  obtain ⟨taken, ranConsumer, run⟩ := ok_of_bind_eq_ok run
  have before := Parser.length_of_run ranFirst
  have between := Consumer.length_of_run ranConsumer
  have after := Parser.length_of_run run
  omega

/-- There is no token to take. -/
@[simp] theorem run_token_nil (test : Token → Bool) (problem : SyntaxProblem) :
    (token env test problem).run [] = .error (env.failure problem []) :=
  rfl

/-- A token is taken if it passes the test. -/
@[simp] theorem run_token_cons (test : Token → Bool) (problem : SyntaxProblem) (next : Token)
    (rest : List Token) :
    (token env test problem).run (next :: rest) =
      if test next then .ok (next, rest) else .error (env.failure problem (next :: rest)) := by
  unfold Consumer.run token
  dsimp only
  split <;> rfl

section

variable (item : Consumer α)

/-- Further items are taken as long as a comma comes next. -/
theorem run_furtherItems :
    (furtherItems env item).run source =
      if (env.peek source).isSymbol "," then
        (symbol env ",").run source >>= fun comma => item.run comma.2 >>= fun first =>
          (furtherItems env item).run first.2 >>= fun others => .ok (first.1 :: others.1, others.2)
      else .ok ([], source) := by
  unfold Parser.run
  rw [furtherItems]
  dsimp only
  split
  · have ran : ((symbol env ",").andThen fun _ => liftM item).run source =
        (symbol env ",").run source >>= fun comma => (liftM item : Parser α).run comma.2 :=
      Consumer.run_andThen (symbol env ",") fun _ => liftM item
    simp only [Parser.run_consumer] at ran
    rw [← bind_assoc, ← ran]
    unfold Consumer.run
    cases (symbol env ",").andThen (fun _ => liftM item) source with
    | error failure => rfl
    | ok first =>
      show (((furtherItems env item first.rest).bind fun others => _).map _) =
        (((furtherItems env item first.rest).map _).bind fun others => _)
      cases furtherItems env item first.rest <;> rfl
  · rfl

/-- Items are taken until a symbol comes next. -/
theorem run_itemsUntil (after : String) :
    (itemsUntil env after item).run source =
      if (env.peek source).isSymbol after then .ok ([], source)
      else item.run source >>= fun first => (itemsUntil env after item).run first.2 >>=
        fun others => .ok (first.1 :: others.1, others.2) := by
  unfold Parser.run
  rw [itemsUntil]
  dsimp only
  split
  · rfl
  · unfold Consumer.run
    cases item source with
    | error failure => rfl
    | ok first =>
      show (((itemsUntil env after item first.rest).bind fun others => _).map _) =
        (((itemsUntil env after item first.rest).map _).bind fun others => _)
      cases itemsUntil env after item first.rest <;> rfl

end

/-- Declarations are taken as long as one comes next. -/
theorem run_declarations :
    (declarations env).run source =
      if atDeclaration source then
        ((declaration env).andThen fun name =>
          .check (env.scope.declare name.text name.line)).run source >>= fun first =>
            (declarations { env with scope := first.1 }).run first.2
      else .ok (env, source) := by
  unfold Parser.run Consumer.run
  rw [declarations]
  split
  · cases (declaration env).andThen (fun name =>
      .check (env.scope.declare name.text name.line)) source with
    | error failure => rfl
    | ok first =>
      show (((declarations { env with scope := first.value } first.rest).bind fun others =>
        _).map _) = ((declarations { env with scope := first.value } first.rest).map _)
      cases declarations { env with scope := first.value } first.rest <;> rfl
  · rfl

/-- Parameters are taken as long as a comma comes next. -/
theorem run_furtherParameters {block : String} {before : List String} :
    (furtherParameters env block before).run source =
      if (env.peek source).isSymbol "," then
        ((symbol env ",").andThen fun _ => liftM (parameter env block before)).run source >>=
          fun next => (furtherParameters env block (before ++ [next.1])).run next.2
      else .ok (before, source) := by
  unfold Parser.run Consumer.run
  rw [furtherParameters]
  split
  · cases (symbol env ",").andThen (fun _ => liftM (parameter env block before)) source with
    | error failure => rfl
    | ok next =>
      show (((furtherParameters env block (before ++ [next.value]) next.rest).bind fun all => _).map
        _) = ((furtherParameters env block (before ++ [next.value]) next.rest).map _)
      cases furtherParameters env block (before ++ [next.value]) next.rest <;> rfl
  · rfl

section

variable {settings : Settings} {scope : Scope} {text : String} {parser : Environment → Parser α}

/-- What is read is what a run gives. -/
theorem read_eq_map_run :
    read settings scope text parser =
      ((parser (start settings scope text)).run (Source.tokens settings text)).map Prod.fst :=
  Parser.map_value_eq_map_run _ _

/-- What cannot be read fails in a run. -/
theorem run_of_read_eq_error {failure : Failure}
    (failed : read settings scope text parser = .error failure) :
    (parser (start settings scope text)).run (Source.tokens settings text) = .error failure := by
  rw [read_eq_map_run] at failed
  generalize (parser (start settings scope text)).run (Source.tokens settings text) = run at failed ⊢
  cases run with
  | error other =>
    cases failed
    rfl
  | ok result => cases failed

/-- What was read was given by a run. -/
theorem exists_of_read_eq_ok {value : α} (found : read settings scope text parser = .ok value) :
    ∃ rest, (parser (start settings scope text)).run (Source.tokens settings text) =
      .ok (value, rest) := by
  rw [read_eq_map_run] at found
  generalize (parser (start settings scope text)).run (Source.tokens settings text) = run at found ⊢
  cases run with
  | error failure => cases found
  | ok result =>
    cases found
    exact ⟨_, rfl⟩

end

end ContentSpace.Grammar

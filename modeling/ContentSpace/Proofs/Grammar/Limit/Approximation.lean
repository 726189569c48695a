import ContentSpace.Grammar.Expression
import ContentSpace.Proofs.Grammar.Run

/-!
# Reading with less room

A parser with less room approximates one with more: from the same tokens it gives the same, or it
fails because the tree would be deeper than its limit. Results need not be equal: those of a parser
that hands out another parser need only approximate as well. Each way to build a parser from smaller
ones keeps the approximation, because nothing else depends on the limit.
-/

namespace ContentSpace.Grammar

/-- The environment with another limit. -/
def Environment.withLimit (env : Environment) (limit : Nat) : Environment := { env with limit }

/-- The next token does not depend on the limit. -/
@[simp] theorem Environment.peek_withLimit (env : Environment) (limit : Nat) (source : List Token) :
    (env.withLimit limit).peek source = env.peek source :=
  rfl

/-- A failure because a tree would be deeper than a limit. -/
def Failure.TooDeep (limit : Nat) (failure : Failure) : Prop :=
  ∃ found line, failure.fault = .syntaxError (.tooDeep limit) found line

variable {limit : Nat} {α β γ δ : Type} {related : α → β → Prop} {later : γ → δ → Prop}

/-- A run fails for the limit, or both runs fail alike, or both give related results and leave the
same tokens. -/
inductive RunApproximates (limit : Nat) (related : α → β → Prop) :
    Except Failure (α × List Token) → Except Failure (β × List Token) → Prop where
  /-- The first run lacks room. -/
  | tooDeep {failure : Failure} {other : Except Failure (β × List Token)} :
      Failure.TooDeep limit failure → RunApproximates limit related (.error failure) other
  /-- Both runs fail alike. -/
  | failed {failure : Failure} : RunApproximates limit related (.error failure) (.error failure)
  /-- Both runs give related results. -/
  | taken {left : α} {right : β} {rest : List Token} :
      related left right → RunApproximates limit related (.ok (left, rest)) (.ok (right, rest))

/-- Runs that go on alike after approximate runs are approximate. -/
theorem RunApproximates.bind {small : Except Failure (α × List Token)}
    {large : Except Failure (β × List Token)}
    {next : α × List Token → Except Failure (γ × List Token)}
    {nextToo : β × List Token → Except Failure (δ × List Token)}
    (first : RunApproximates limit related small large)
    (second : ∀ left right rest, small = .ok (left, rest) → related left right →
      RunApproximates limit later (next (left, rest)) (nextToo (right, rest))) :
    RunApproximates limit later (small >>= next) (large >>= nextToo) := by
  cases first with
  | tooDeep lacks => exact .tooDeep lacks
  | failed => exact .failed
  | taken holds => exact second _ _ _ rfl holds

/-- Approximate runs with the same results are the same, unless the first one lacks room. -/
theorem RunApproximates.tooDeep_or_eq {small large : Except Failure (α × List Token)}
    (approximates : RunApproximates limit Eq small large) :
    (∃ failure, small = .error failure ∧ Failure.TooDeep limit failure) ∨ small = large := by
  cases approximates with
  | @tooDeep failure other lacks => exact .inl ⟨failure, rfl, lacks⟩
  | failed => exact .inr rfl
  | taken same =>
    subst same
    exact .inr rfl

/-- A parser fails for the limit or does what another does. -/
def Parser.Approximates (limit : Nat) (related : α → β → Prop) (small : Parser α)
    (large : Parser β) : Prop :=
  ∀ source, RunApproximates limit related (small.run source) (large.run source)

/-- A consumer fails for the limit or does what another does. -/
def Consumer.Approximates (limit : Nat) (related : α → β → Prop) (small : Consumer α)
    (large : Consumer β) : Prop :=
  ∀ source, RunApproximates limit related (small.run source) (large.run source)

namespace Parser

variable {small : Parser α} {large : Parser β}

/-- A parser does what it does. -/
theorem Approximates.refl (parser : Parser α) : parser.Approximates limit Eq parser := by
  intro source
  cases parser.run source with
  | error failure => exact .failed
  | ok result => exact .taken rfl

/-- Related results are given without taking anything. -/
theorem Approximates.pure {left : α} {right : β} (holds : related left right) :
    Approximates limit related (Pure.pure left) (Pure.pure right) :=
  fun _ => .taken holds

/-- One parser after another. -/
theorem Approximates.bind {next : α → Parser γ} {nextToo : β → Parser δ}
    (first : small.Approximates limit related large)
    (second : ∀ left right, related left right →
      (next left).Approximates limit later (nextToo right)) :
    (small >>= next).Approximates limit later (large >>= nextToo) := by
  intro source
  rw [run_bind, run_bind]
  exact (first source).bind fun left right rest _ holds => second left right holds rest

/-- The same parser before others. -/
theorem Approximates.after {parser : Parser α} {next : α → Parser γ} {nextToo : α → Parser δ}
    (second : ∀ value, (next value).Approximates limit later (nextToo value)) :
    (parser >>= next).Approximates limit later (parser >>= nextToo) :=
  (Approximates.refl parser).bind fun value _ same => same ▸ second value

/-- A consumer as a parser. -/
theorem Approximates.consumer {small : Consumer α} {large : Consumer β}
    (approximates : small.Approximates limit related large) :
    Approximates limit related (liftM small : Parser α) (liftM large : Parser β) := by
  intro source
  rw [run_consumer, run_consumer]
  exact approximates source

/-- A consumer and what follows its result. -/
theorem Approximates.take {small large : Consumer α} {next : α → Parser γ} {nextToo : α → Parser δ}
    (first : small.Approximates limit Eq large)
    (second : ∀ value, (next value).Approximates limit later (nextToo value)) :
    Approximates limit later (liftM small >>= next) (liftM large >>= nextToo) :=
  .bind (.consumer first) fun value _ same => same ▸ second value

/-- A lack of room approximates everything. -/
theorem Approximates.tooDeep {env : Environment} :
    Approximates limit related (Parser.fail env (.tooDeep limit)) large :=
  fun _ => .tooDeep ⟨_, _, rfl⟩

end Parser

namespace Consumer

variable {small : Consumer α} {large : Consumer β}

/-- A consumer does what it does. -/
theorem Approximates.refl (consumer : Consumer α) : consumer.Approximates limit Eq consumer := by
  intro source
  cases consumer.run source with
  | error failure => exact .failed
  | ok result => exact .taken rfl

/-- A parser after a consumer. -/
theorem Approximates.andThen {large : Consumer α} {next : α → Parser γ} {nextToo : α → Parser δ}
    (first : small.Approximates limit Eq large)
    (second : ∀ value, (next value).Approximates limit later (nextToo value)) :
    (small.andThen next).Approximates limit later (large.andThen nextToo) := by
  intro source
  rw [run_andThen, run_andThen]
  exact (first source).bind fun value _ rest _ same => same ▸ second value rest

/-- The same consumer before others. -/
theorem Approximates.after {consumer : Consumer α} {next : α → Parser γ}
    {nextToo : α → Parser δ}
    (second : ∀ value, (next value).Approximates limit later (nextToo value)) :
    (consumer.andThen next).Approximates limit later (consumer.andThen nextToo) :=
  (Approximates.refl consumer).andThen second

/-- A consumer after a parser. -/
theorem Approximates.before {small : Parser α} {large : Parser β} {next : α → Consumer γ}
    {nextToo : β → Consumer δ} (first : small.Approximates limit related large)
    (second : ∀ left right, related left right →
      (next left).Approximates limit later (nextToo right)) :
    (small.before next).Approximates limit later (large.before nextToo) := by
  intro source
  rw [run_before, run_before]
  exact (first source).bind fun left right rest _ holds => second left right holds rest

/-- What the next token selects. -/
theorem Approximates.ahead {env : Environment} {more : Nat} {select : Token → Consumer α}
    {selectToo : Token → Consumer β}
    (each : ∀ token, (select token).Approximates limit related (selectToo token)) :
    (Consumer.ahead env select).Approximates limit related
      (Consumer.ahead (env.withLimit more) selectToo) :=
  fun source => each (env.peek source) source

/-- A lack of room approximates everything. -/
theorem Approximates.tooDeep {env : Environment} :
    Approximates limit related (Consumer.fail env (.tooDeep limit)) large :=
  fun _ => .tooDeep ⟨_, _, rfl⟩

/-- The tokens of approximate consumers are counted alike. -/
theorem Approximates.counted {large : Consumer α}
    (approximates : small.Approximates limit Eq large) :
    small.counted.Approximates limit Eq large.counted := by
  intro source
  rw [run_counted, run_counted]
  generalize small.run source = first, large.run source = second, approximates source = runs
  cases runs with
  | tooDeep lacks => exact .tooDeep lacks
  | failed => exact .failed
  | taken same => exact .taken (congrArg (·, _) same)

/-- Failures are changed alike, and a lack of room stays one. -/
theorem Approximates.mapFailure {change : Failure → Failure}
    (approximates : small.Approximates limit related large)
    (keeps : ∀ failure, (change failure).fault = failure.fault) :
    (small.mapFailure change).Approximates limit related (large.mapFailure change) := by
  intro source
  rw [run_mapFailure, run_mapFailure]
  generalize small.run source = first, large.run source = second, approximates source = runs
  cases runs with
  | @tooDeep failure other lacks =>
    obtain ⟨found, line, fault⟩ := lacks
    exact .tooDeep ⟨found, line, (keeps failure).trans fault⟩
  | failed => exact .failed
  | taken holds => exact .taken holds

end Consumer

section

variable {env : Environment} {more : Nat} {small large : Consumer α}
  (each : small.Approximates limit Eq large)
include each

/-- Further items are taken alike. -/
theorem furtherItems_approximates :
    (furtherItems env small).Approximates limit Eq (furtherItems (env.withLimit more) large) := by
  intro source
  induction size : source.length using Nat.strongRecOn generalizing source with
  | ind size ih =>
    rw [run_furtherItems, run_furtherItems, Environment.peek_withLimit]
    split
    · refine (Consumer.Approximates.refl (symbol env ",") source).bind fun _ _ rest comma _ => ?_
      refine (each rest).bind fun first _ later item same => ?_
      have fewer := Consumer.length_of_run comma
      have shorter := Consumer.length_of_run item
      refine (ih later.length (by omega) later rfl).bind fun others _ last _ sameToo => ?_
      exact .taken (same ▸ sameToo ▸ rfl)
    · exact .taken rfl

/-- Delimited items are taken alike. -/
theorem delimited_approximates {before after : String} :
    (delimited env before after small).Approximates limit Eq
      (delimited (env.withLimit more) before after large) := by
  refine .after fun _ => .after fun next => ?_
  split
  · exact .refl _
  · refine .bind (.consumer each) fun first _ same => ?_
    refine .bind (furtherItems_approximates each) fun others _ sameToo => ?_
    exact .after fun _ => .pure (same ▸ sameToo ▸ rfl)

/-- Items up to a symbol are taken alike. -/
theorem itemsUntil_approximates {after : String} :
    (itemsUntil env after small).Approximates limit Eq
      (itemsUntil (env.withLimit more) after large) := by
  intro source
  induction size : source.length using Nat.strongRecOn generalizing source with
  | ind size ih =>
    rw [run_itemsUntil, run_itemsUntil, Environment.peek_withLimit]
    split
    · exact .taken rfl
    · refine (each source).bind fun first _ later item same => ?_
      have shorter := Consumer.length_of_run item
      refine (ih later.length (by omega) later rfl).bind fun others _ last _ sameToo => ?_
      exact .taken (same ▸ sameToo ▸ rfl)

end

end ContentSpace.Grammar

import ContentSpace.Proofs.Grammar.Descent.Agreement.Program
import ContentSpace.Proofs.Source.Partition

/-!
# Parsing ends and keeps its budget

Whatever the tokens are, a descent over them ends: it gives a result or refuses the tokens. No loop
goes on without taking tokens, no chain of calls is longer than the room and the tokens that are
left allow for, and the depth stays within its limit and is set back where it was raised. And what
the descent gives is what the parsers give.
-/

namespace ContentSpace.Grammar.Descent

variable {α : Type} {env : Environment} {source : List Token} {start state : State} {length : Nat}

/-- How a run over tokens ends that keeps its budget, next to what a parser does with them. -/
inductive Ends (env : Environment) (source : List Token) (least : Nat) (start : State) :
    EStateM.Result Halt State α → Except Failure (α × List Token) → Prop where
  /-- Both give the same; the cursor moved over so many tokens at least, to those that the parser
  leaves, and the depth is that of the start. -/
  | took {value : α} {state : State} :
      start.position + least ≤ state.position → state.depth = start.depth →
        state.highest ≤ env.limit →
          Ends env source least start (.ok value state) (.ok (value, source.drop state.position))
  /-- Both refuse the tokens alike. -/
  | refused {failure : Failure} {state : State} :
      state.highest ≤ env.limit →
        Ends env source least start (.error (.failed failure) state) (.error failure)

/-- The cursor stands before one of the tokens or the end token, and no depth is beyond the
limit. -/
structure State.Within (env : Environment) (source : List Token) (state : State) : Prop where
  /-- The cursor is not past the end token. -/
  position : state.position ≤ source.length
  /-- The depth is within the limit. -/
  depth : state.depth ≤ env.limit
  /-- So was every depth before. -/
  highest : state.highest ≤ env.limit

/-- How long a chain of calls can get with the room and the tokens that are left. -/
def budget (env : Environment) (source : List Token) (state : State) : Nat :=
  3 * min (env.limit - state.depth) (source.length - state.position) + 4

/-- The state after a run, whether it halted or not. -/
def after : EStateM.Result Halt State α → State
  | .ok _ state => state
  | .error _ state => state

/-- A descent over tokens and the end token ends and keeps its budget. -/
structure KeepsBudget (env : Environment) (source : List Token) : Prop where
  /-- A statement takes a token at least, wherever the cursor stands and however deep. -/
  statement (state : State) (length : Nat) : state.Within env source →
    budget env source state ≤ length →
      Ends env source 1 state
        (((calls (source ++ [env.finish]) length).statement env).run state)
        ((Grammar.statement (env.limit - state.depth) env).run (source.drop state.position))
  /-- So does an expression. -/
  expression (state : State) (length : Nat) : state.Within env source →
    budget env source state ≤ length →
      Ends env source 1 state
        (((calls (source ++ [env.finish]) length).expression env).run state)
        ((level env (env.limit - state.depth)).expression.run (source.drop state.position))
  /-- So does a block, which starts at no depth. -/
  block (state : State) (length : Nat) : state.Within env source → state.depth = 0 →
    budget env source state ≤ length →
      Ends env source 1 state ((block (source ++ [env.finish]) length env).run state)
        ((Grammar.block env).run (source.drop state.position))
  /-- A program is read or refused, and as the parser does it if there is no other end token. -/
  program (length : Nat) : budget env source {} ≤ length →
    ∃ outcome,
      Ends env source 0 {} ((program (source ++ [env.finish]) length env).run {}) outcome ∧
      ((∀ token ∈ source, token.kind ≠ .finish) → outcome = (Grammar.program env).run source)
  /-- So is an expression that is all there is. -/
  wholeExpression (length : Nat) : budget env source {} ≤ length →
    ∃ outcome,
      Ends env source 0 {} ((wholeExpression (source ++ [env.finish]) length env).run {}) outcome ∧
      ((∀ token ∈ source, token.kind ≠ .finish) →
        outcome = (expressionBefore Grammar.atEnd env).run source)
  /-- Chained steps leave the depth as it was, whether they fail or not. -/
  chained {α : Type} (steps : Descent α) (state : State) :
    (after ((chained steps).run state)).depth = state.depth
  /-- So do nested ones. -/
  nested {α : Type} (steps : Descent α) (state : State) :
    (after ((nested (source ++ [env.finish]) env.limit steps).run state)).depth = state.depth

/-- A cursor that is not past the end token stands before the tokens from its position on. -/
theorem State.Within.at (within : state.Within env source) (finish : env.finish.kind = .finish) :
    state.At (source ++ [env.finish]) env (source.drop state.position) state.depth := by
  refine ⟨finish, ⟨source.take state.position, ?_, ?_⟩, rfl, within.depth, within.highest⟩
  · rw [← List.append_assoc, List.take_append_drop]
  · rw [List.length_take, Nat.min_eq_left within.position]

/-- At the start the cursor stands before all tokens, at no depth. -/
theorem State.at_start (finish : env.finish.kind = .finish) :
    State.At (source ++ [env.finish]) env source 0 {} :=
  ⟨finish, ⟨[], rfl, rfl⟩, rfl, Nat.zero_le _, Nat.zero_le _⟩

/-- The tokens from the cursor on are the last ones. -/
theorem State.At.drop_position {rest : List Token} {depth : Nat}
    (there : state.At (source ++ [env.finish]) env rest depth) :
    rest = source.drop state.position := by
  obtain ⟨front, split, position⟩ := there.split
  rw [← List.append_assoc, List.append_left_inj] at split
  rw [split, position, List.drop_left]

/-- What follows a parser that takes so many tokens at least keeps its budget. -/
theorem Follows.ends {least : Nat} {result : EStateM.Result Halt State α}
    {outcome : Except Failure (α × List Token)}
    (follows : Follows (source ++ [env.finish]) env (· = start.depth) result outcome)
    (within : start.position ≤ source.length)
    (moves : ∀ value rest, outcome = .ok (value, rest) →
      rest.length + least ≤ (source.drop start.position).length) :
    Ends env source least start result outcome := by
  cases follows with
  | failed bounded => exact .refused bounded
  | @took value rest depth state there same =>
    have count := there.position_add
    have moved := moves value rest rfl
    rw [List.length_append, List.length_singleton] at count
    rw [List.length_drop] at moved
    obtain rfl := there.drop_position
    exact .took (by omega) (there.counted.trans same) there.highest

/-- What follows a consumer takes a token at least. -/
theorem Follows.ends_consumer {result : EStateM.Result Halt State α} {consumer : Consumer α}
    (follows : Follows (source ++ [env.finish]) env (· = start.depth) result
      (consumer.run (source.drop start.position)))
    (within : start.position ≤ source.length) :
    Ends env source 1 start result (consumer.run (source.drop start.position)) :=
  follows.ends within fun _ _ took => Consumer.length_of_run took

/-- What reads up to the end keeps its budget, whatever end token that is. -/
theorem exists_ends {result : EStateM.Result Halt State α}
    {parser : (Environment → Parser Unit) → Parser α}
    (follows : ∀ ending : Environment → Parser Unit,
      (∀ {scope : Scope} {rest : List Token} {state : State},
        state.At (source ++ [env.finish]) { env with scope } rest 0 →
          Follows (source ++ [env.finish]) { env with scope } (· = 0)
            ((atEnd (source ++ [env.finish])).run state) ((ending { env with scope }).run rest)) →
        Follows (source ++ [env.finish]) env (· = 0) result ((parser ending).run source)) :
    ∃ outcome, Ends env source 0 {} result outcome ∧
      ((∀ token ∈ source, token.kind ≠ .finish) →
        outcome = (parser Grammar.atEnd).run source) := by
  by_cases only : ∀ token ∈ source, token.kind ≠ .finish
  · have single : ∀ token ∈ (source ++ [env.finish]).dropLast, token.kind ≠ .finish := by
      rwa [List.dropLast_concat]
    have reads := follows Grammar.atEnd fun there => atEnd_follows single there
    exact ⟨_, reads.ends (Nat.zero_le _) fun _ _ took => Parser.length_of_run took, fun _ => rfl⟩
  · have reads := follows ended fun there => ended_follows there
    exact ⟨_, reads.ends (Nat.zero_le _) fun _ _ took => Parser.length_of_run took,
      fun plain => absurd plain only⟩

/-- A program is read or refused with a budget for all tokens. -/
theorem program_ends (finish : env.finish.kind = .finish)
    (enough : budget env source {} ≤ length) :
    ∃ outcome, Ends env source 0 {} ((program (source ++ [env.finish]) length env).run {}) outcome ∧
      ((∀ token ∈ source, token.kind ≠ .finish) → outcome = (Grammar.program env).run source) :=
  exists_ends fun _ ends => program_follows ends (State.at_start finish) enough

/-- An expression that is all there is is read or refused with a budget for all tokens. -/
theorem wholeExpression_ends (finish : env.finish.kind = .finish)
    (enough : budget env source {} ≤ length) :
    ∃ outcome,
      Ends env source 0 {} ((wholeExpression (source ++ [env.finish]) length env).run {}) outcome ∧
      ((∀ token ∈ source, token.kind ≠ .finish) →
        outcome = (expressionBefore Grammar.atEnd env).run source) :=
  exists_ends fun _ ends => wholeExpression_follows ends (State.at_start finish) enough

/-- What a run gives, or why it halted. -/
def outcome : EStateM.Result Halt State α → Except Halt α
  | .ok value _ => .ok value
  | .error halt _ => .error halt

/-- A run that keeps its budget gives what the parser gives. -/
theorem Ends.outcome_eq {least : Nat} {result : EStateM.Result Halt State α}
    {parsed : Except Failure (α × List Token)} (ends : Ends env source least start result parsed) :
    outcome result = (parsed.map Prod.fst).mapError .failed := by
  cases ends <;> rfl

/-- A descent over the tokens of source text gives what parsing the source text gives. -/
theorem outcome_descent (settings : Settings) (scope : Scope) (text : String)
    (enough : 3 * min settings.maxDepth (Source.tokens settings text).length + 4 ≤ length) :
    outcome ((program (Source.tokens settings text ++ [Source.endToken text]) length
      (Grammar.start settings {} text)).run {}) = (parseProgram settings text).mapError .failed ∧
    outcome ((wholeExpression (Source.tokens settings text ++ [Source.endToken text]) length
      (Grammar.start settings scope text)).run {}) =
        (parseExpression settings scope text).mapError .failed := by
  have only := Source.kind_ne_finish_of_mem_tokens settings text
  constructor
  · obtain ⟨parsed, ends, same⟩ := @program_ends (Grammar.start settings {} text) _ _ rfl enough
    rw [parseProgram, Grammar.read, Parser.map_value_eq_map_run, ← same only]
    exact ends.outcome_eq
  · obtain ⟨parsed, ends, same⟩ :=
      @wholeExpression_ends (Grammar.start settings scope text) _ _ rfl enough
    rw [parseExpression, Grammar.read, Parser.map_value_eq_map_run]
    exact (same only) ▸ ends.outcome_eq

/-- The depth after chained steps is that before them. -/
theorem depth_after_chained (steps : Descent α) (state : State) :
    (after ((chained steps).run state)).depth = state.depth := by
  cases ran : steps.run state with
  | ok value next => rw [run_chained_of_ok ran, after]
  | error halt next => rw [run_chained_of_error ran, after]

/-- Parsing ends and keeps its budget, for every list of tokens, every scope and every limit. -/
theorem descent_keepsBudget (finish : env.finish.kind = .finish) (source : List Token) :
    KeepsBudget env source where
  statement state length within enough := by
    have there := within.at finish
    have follow := calls_follow (source ++ [env.finish]) length
    refine (follow.statement there ?_).ends_consumer within.position
    rwa [List.length_drop]
  expression state length within enough := by
    have there := within.at finish
    have follow := calls_follow (source ++ [env.finish]) length
    refine (follow.expression there ?_).ends_consumer within.position
    rw [List.length_drop]
    exact Nat.le_of_succ_le enough
  block state length within flat enough := by
    have there := within.at finish
    rw [flat] at there
    rw [budget, flat, ← List.length_drop] at enough
    have reads := (block_follows there enough).mono fun _ same => same.trans flat.symm
    exact reads.ends_consumer within.position
  program _ enough := program_ends finish enough
  wholeExpression _ enough := wholeExpression_ends finish enough
  chained := depth_after_chained
  nested steps := depth_after_chained _

/-- With room for two levels, an expression in parentheses is read by a chain of ten calls, which
counts two levels and sets them back. -/
theorem descent_keepsBudget_parentheses :
    let env := Grammar.start { maxDepth := 2 } {} "(a)"
    let source := Source.tokens { maxDepth := 2 } "(a)"
    let run := ((calls (source ++ [env.finish]) 10).expression env).run {}
    env.finish.kind = .finish ∧
      Ends env source 1 {} run ((level env 2).expression.run source) ∧
      after run = { position := 3, depth := 0, highest := 2 } :=
  ⟨rfl, (descent_keepsBudget rfl _).expression {} 10
    ⟨Nat.zero_le _, Nat.zero_le _, Nat.zero_le _⟩ (by decide +kernel), by decide +kernel⟩

end ContentSpace.Grammar.Descent

import ContentSpace.Proofs.Grammar.Descent.Agreement.Expression
import ContentSpace.Proofs.Grammar.Descent.Program

/-!
# Descents through statements follow the parsers

A statement counts one level of depth, and what is inside it starts with its tokens or with fewer.
So the statements of its bodies and its expressions find shorter chains of calls, and every chain
of calls at some depth follows the parsers as soon as its length is enough for the room and for the
tokens that are left.
-/

namespace ContentSpace.Grammar.Descent

open Stateful

variable {tokens source : List Token} {env : Environment} {depth length size : Nat}
  {state : State} {calls : Calls} {value : Consumer Node} {inner : Environment → Consumer Node}

/-- The tables in scope do not matter for where the cursor stands. -/
theorem State.At.inScope (here : state.At tokens env source depth) (scope : Scope) :
    state.At tokens { env with scope } source depth :=
  ⟨here.finish, here.split, here.counted, here.room, here.highest⟩

/-- The tables in scope do not matter for how a descent ends. -/
theorem Follows.inScope {α : Type} {after : Nat → Prop}
    {result : EStateM.Result Halt State α} {outcome : Except Failure (α × List Token)}
    (follows : Follows tokens env after result outcome) (scope : Scope) :
    Follows tokens { env with scope } after result outcome := by
  cases follows with
  | took there holds => exact .took (there.inScope scope) holds
  | failed bounded => exact .failed bounded

/-- Statements between braces are followed. -/
theorem body_follows
    (each : ∀ rest state, rest.length < source.length → state.At tokens env rest depth →
      Follows tokens env (· = depth) ((calls.statement env).run state) ((inner env).run rest))
    (here : state.At tokens env source depth) :
    Follows tokens env (· = depth) ((body tokens calls env).run state)
      ((Grammar.body env inner).run source) := by
  refine here.symbol.andThen fun _ rest next fewer there => ?_
  rw [run_bind_of_ok there.run_rounds]
  have statement (last : List Token) (next : State) (few : last.length ≤ rest.length)
      (there : next.At tokens env last depth) := each last next (by omega) there
  have statements := itemsUntil_follows "\x7d" [] statement there
    (Nat.le_refl _) (Nat.lt_succ_self _)
  refine statements.parse_map _ fun statements rest next _ there => ?_
  exact there.symbol.take fun _ _ _ _ last => .took last rfl

/-- Inside a statement, expressions and statements are followed as long as there are no more tokens
than at its start. -/
structure Calls.Inside (tokens : List Token) (env : Environment) (depth size : Nat) (calls : Calls)
    (value : Consumer Node) (inner : Environment → Consumer Node) : Prop where
  /-- Expressions are followed, also at the start. -/
  expression {source : List Token} {state : State} :
    state.At tokens env source depth → source.length ≤ size →
      Follows tokens env (· = depth) ((calls.expression env).run state) (value.run source)
  /-- Statements are followed after the start, whatever the tables in scope are. -/
  statement (scope : Scope) {source : List Token} {state : State} :
    state.At tokens { env with scope } source depth → source.length < size →
      Follows tokens { env with scope } (· = depth) ((calls.statement { env with scope }).run state)
        ((inner { env with scope }).run source)

section

variable (inside : calls.Inside tokens env depth size value inner)
  (here : state.At tokens env source depth) (most : source.length ≤ size)
include inside here most

/-- The body of a statement is followed. -/
theorem Calls.Inside.body (scope : Scope) :
    Follows tokens env (· = depth) ((body tokens calls { env with scope }).run state)
      ((Grammar.body { env with scope } inner).run source) := by
  have each (rest : List Token) (next : State) (fewer : rest.length < source.length)
      (there : next.At tokens { env with scope } rest depth) :=
    inside.statement scope there (Nat.lt_of_lt_of_le fewer most)
  exact (body_follows each (here.inScope scope)).inScope env.scope

/-- An expression up to a semicolon is followed. -/
theorem terminated_follows :
    Follows tokens env (· = depth) ((terminated tokens calls env).run state)
      ((Grammar.terminated env value).run source) := by
  refine (inside.expression here most).andThen fun node rest next _ there => ?_
  exact there.symbol.take fun _ _ _ _ last => .took last rfl

/-- What is assigned is followed. -/
theorem assigned_follows :
    Follows tokens env (· = depth) ((assigned tokens calls env).run state)
      ((Grammar.assigned env value).run source) := by
  refine here.operator.andThen fun _ rest next fewer there => ?_
  rw [Parser.run_consumer]
  exact terminated_follows inside there (by omega)

/-- A condition between parentheses is followed. -/
theorem condition_follows :
    Follows tokens env (· = depth) ((condition tokens calls env).run state)
      ((Grammar.condition env value).run source) := by
  refine here.symbol.andThen fun _ rest next fewer there => ?_
  refine (inside.expression there (by omega)).take fun node rest next _ there => ?_
  exact there.symbol.take fun _ _ _ _ last => .took last rfl

/-- A binding is followed. -/
theorem binding_follows {word : String} {bind : String → Node → Node} :
    Follows tokens env (· = depth) ((binding tokens calls env word bind).run state)
      ((Grammar.binding env value word bind).run source) := by
  refine here.keyword.andThen fun _ rest next fewer there => ?_
  refine there.name.take fun name rest next less there => ?_
  have assigned := assigned_follows inside there (by omega)
  exact assigned.take fun _ _ _ _ last => .took last rfl

/-- What follows `else` is followed. -/
theorem alternative_follows :
    Follows tokens env (· = depth) ((alternative tokens calls env).run state)
      ((Grammar.alternative env inner).run source) := by
  refine here.eat_take (here.isKeyword_finish "else") (fun _ rest next fewer there => ?_) ?_
  · refine there.next ?_
    split
    · have other := inside.statement env.scope there (by omega)
      exact other.take fun _ _ _ _ last => .took last rfl
    · rw [Parser.run_consumer]
      exact inside.body there (by omega) env.scope
  · exact .took here rfl

/-- A choice between statements is followed. -/
theorem branching_follows :
    Follows tokens env (· = depth) ((branching tokens calls env).run state)
      ((Grammar.branching env value inner).run source) := by
  refine here.keyword.andThen fun _ rest next fewer there => ?_
  refine (condition_follows inside there (by omega)).take fun test rest next less there => ?_
  refine (inside.body there (by omega) env.scope).take fun yes rest next lesser there => ?_
  refine (alternative_follows inside there (by omega)).parse fun no _ _ _ last => ?_
  exact .took last rfl

/-- A loop while a condition holds is followed. -/
theorem whileLoop_follows :
    Follows tokens env (· = depth) ((whileLoop tokens calls env).run state)
      ((Grammar.whileLoop env value inner).run source) := by
  refine here.keyword.andThen fun _ rest next fewer there => ?_
  refine (condition_follows inside there (by omega)).take fun test rest next less there => ?_
  exact (inside.body there (by omega) env.scope).take fun _ _ _ _ last => .took last rfl

/-- A loop over a collection is followed. -/
theorem forLoop_follows :
    Follows tokens env (· = depth) ((forLoop tokens calls env).run state)
      ((Grammar.forLoop env value inner).run source) := by
  refine here.keyword.andThen fun _ rest next fewer there => ?_
  refine there.symbol.take fun _ rest next less there => ?_
  refine there.name.take fun name rest next lesser there => ?_
  refine there.keyword.take fun _ rest next few there => ?_
  refine (inside.expression there (by omega)).take fun iterable rest next fewest there => ?_
  refine there.symbol.take fun _ rest next least there => ?_
  exact (inside.body there (by omega) env.scope).take fun _ _ _ _ last => .took last rfl

/-- The end of a block is followed. -/
theorem ending_follows :
    Follows tokens env (· = depth) ((ending tokens calls env).run state)
      ((Grammar.ending env value).run source) := by
  refine here.keyword.andThen fun _ rest next fewer there => ?_
  refine there.eat_take (there.isSymbol_finish ";") (fun _ _ _ _ last => .took last rfl) ?_
  have result := terminated_follows inside there (by omega)
  exact result.take fun _ _ _ _ last => .took last rfl

/-- An assertion is followed. -/
theorem assertion_follows :
    Follows tokens env (· = depth) ((assertion tokens calls env).run state)
      ((Grammar.assertion env value).run source) := by
  refine here.keyword.andThen fun _ rest next fewer there => ?_
  exact (terminated_follows inside there (by omega)).take fun _ _ _ _ last => .took last rfl

/-- A body with an active table is followed. -/
theorem usingTable_follows :
    Follows tokens env (· = depth) ((usingTable tokens calls env).run state)
      ((Grammar.usingTable env inner).run source) := by
  refine here.keyword.andThen fun _ rest next fewer there => ?_
  refine there.name.take fun word rest next less there => ?_
  refine there.check.parse fun table rest next lesser there => ?_
  have statements := inside.body there (by omega) (env.scope.activate table)
  exact statements.take fun _ _ _ _ last => .took last rfl

/-- A name bound again is followed. -/
theorem reassignment_follows :
    Follows tokens env (· = depth) ((reassignment tokens calls env).run state)
      ((Grammar.reassignment env value).run source) := by
  refine here.name.andThen fun name rest next fewer there => ?_
  split
  · exact there.refuse
  · exact (assigned_follows inside there (by omega)).take fun _ _ _ _ last => .took last rfl

/-- A name and what is assigned to it in a table are followed. -/
theorem latentAssignment_follows {what : String} {line : Nat}
    {make : String → String → Node → Sugar Node} :
    Follows tokens env (· = depth) ((latentAssignment tokens calls env what line make).run state)
      ((Grammar.latentAssignment env value what line make).run source) := by
  refine (tableName_follows here).parse fun table rest next fewer there => ?_
  refine there.check.parse fun table rest next less there => ?_
  refine there.name.take fun name rest next lesser there => ?_
  exact (assigned_follows inside there (by omega)).take fun _ _ _ _ last => .took last rfl

omit inside most in
/-- A snapshot of a table is followed. -/
theorem latentSnapshot_follows {line : Nat} :
    Follows tokens env (· = depth) ((latentSnapshot tokens env line).run state)
      ((Grammar.latentSnapshot env line).run source) := by
  refine (tableName_follows here).parse fun table rest next fewer there => ?_
  refine there.check.parse fun table rest next less there => ?_
  refine there.name.take fun name rest next lesser there => ?_
  exact there.symbol.take fun _ _ _ _ last => .took last rfl

/-- A body with a name for the content of a handle is followed. -/
theorem latentMatch_follows {line : Nat} :
    Follows tokens env (· = depth) ((latentMatch tokens calls env line).run state)
      ((Grammar.latentMatch env value inner line).run source) := by
  refine (tableName_follows here).parse fun table rest next fewer there => ?_
  refine there.check.parse fun table rest next less there => ?_
  refine there.name.take fun name rest next lesser there => ?_
  refine there.operator.take fun _ rest next few there => ?_
  refine (inside.expression there (by omega)).take fun handle rest next fewest there => ?_
  exact (inside.body there (by omega) env.scope).take fun _ _ _ _ last => .took last rfl

/-- A condition with a table that may be named is followed. -/
theorem latentGuard_follows :
    Follows tokens env (· = depth) ((latentGuard tokens calls env).run state)
      ((Grammar.latentGuard env value).run source) := by
  refine (tableName_follows here).parse fun table rest next fewer there => ?_
  cases table with
  | some table =>
    refine there.check.parse fun _ rest next less there => ?_
    exact (terminated_follows inside there (by omega)).take fun _ _ _ _ last => .took last rfl
  | none =>
    exact (terminated_follows inside there (by omega)).take fun _ _ _ _ last => .took last rfl

/-- A body with a table of its own is followed. -/
theorem latentScope_follows {line : Nat} :
    Follows tokens env (· = depth) ((latentScope tokens calls env line).run state)
      ((Grammar.latentScope env inner line).run source) := by
  refine (tableName_follows here).parse fun table rest next fewer there => ?_
  refine there.check.parse fun parent rest next less there => ?_
  refine there.name.take fun name rest next lesser there => ?_
  refine there.check.parse fun scope rest next few there => ?_
  exact (inside.body there (by omega) scope).take fun _ _ _ _ last => .took last rfl

/-- A statement on a table is followed. -/
theorem latent_follows :
    Follows tokens env (· = depth) ((latent tokens calls env).run state)
      ((Grammar.latent env value inner).run source) := by
  refine here.keyword.andThen fun latent rest next fewer there => there.next ?_
  refine .ite (Parser.run · rest) (fun word => ?_) fun _ => ?_
  · refine there.advance_take word (there.isKeyword_finish _) fun rest next _ there => ?_
    exact there.name.take fun name _ _ _ there => there.refuse
  refine .ite (Parser.run · rest) (fun word => ?_) fun _ => ?_
  · refine there.advance_take word (there.isKeyword_finish _) fun rest next less there => ?_
    exact latentAssignment_follows inside there (by omega)
  refine .ite (Parser.run · rest) (fun word => ?_) fun _ => ?_
  · refine there.advance_take word (there.isKeyword_finish _) fun rest next less there => ?_
    exact latentSnapshot_follows there
  refine .ite (Parser.run · rest) (fun word => ?_) fun _ => ?_
  · refine there.advance_take word (there.isKeyword_finish _) fun rest next less there => ?_
    exact latentMatch_follows inside there (by omega)
  refine .ite (Parser.run · rest) (fun word => ?_) fun _ => ?_
  · refine there.advance_take word (there.isKeyword_finish _) fun rest next less there => ?_
    exact latentGuard_follows inside there (by omega)
  refine .ite (Parser.run · rest) (fun word => ?_) fun _ => ?_
  · refine there.advance_take word (there.isKeyword_finish _) fun rest next less there => ?_
    exact latentAssignment_follows inside there (by omega)
  refine .ite (Parser.run · rest) (fun word => ?_) fun _ => ?_
  · refine there.advance_take word (there.isKeyword_finish _) fun rest next less there => ?_
    refine there.keyword.take fun _ rest next lesser there => ?_
    exact latentAssignment_follows inside there (by omega)
  refine .ite (Parser.run · rest) (fun word => ?_) fun _ => ?_
  · refine there.advance_take word (there.isKeyword_finish _) fun rest next less there => ?_
    exact latentScope_follows inside there (by omega)
  exact latentAssignment_follows inside there (by omega)

end

/-- A test of the next two tokens is a test of the tokens that are left, if no end token passes. -/
theorem peek_two {first second : Token → Bool} (ends : first env.finish = false)
    (endsToo : second env.finish = false) (source : List Token) :
    (first (env.peek source) && second (env.peek source.tail)) =
      match source with
      | one :: two :: _ => first one && second two
      | _ => false := by
  match source with
  | [] =>
    show (first env.finish && second env.finish) = false
    rw [ends, Bool.false_and]
  | [one] =>
    show (first one && second env.finish) = false
    rw [endsToo, Bool.and_false]
  | one :: two :: rest => rfl

/-- The test for a name and an equals sign tells what it tells of the tokens. -/
theorem State.At.run_atReassignment (here : state.At tokens env source depth) :
    (atReassignment tokens).run state = .ok (Grammar.atReassignment source) state := by
  have other : decide (env.finish.kind = .identifier) = false := by simp [here.finish]
  have same : (decide ((env.peek source).kind = .identifier) &&
      (env.peek source.tail).isOperator "=") = Grammar.atReassignment source :=
    @peek_two env (fun name => decide (name.kind = .identifier)) (·.isOperator "=") other
      (here.isOperator_finish "=") source
  rw [atReassignment, run_bind_of_ok here.run_peek, run_bind_of_ok here.run_peekAt_one, same]
  rfl

/-- A statement is followed, if its expressions and statements are. -/
theorem statementOf_follows (inside : calls.Inside tokens env depth size value inner)
    (here : state.At tokens env source depth) (most : source.length ≤ size) :
    Follows tokens env (· = depth) ((statementOf tokens calls env).run state)
      ((Grammar.statementOf env value inner).run source) := by
  rw [statementOf, run_bind_of_ok here.run_peek, run_bind_of_ok here.run_atReassignment]
  show Follows tokens env (· = depth) _ (Consumer.run (ite _ _ _) source)
  refine .ite (Consumer.run · source) (fun _ => binding_follows inside here most) fun _ => ?_
  refine .ite (Consumer.run · source) (fun _ => binding_follows inside here most) fun _ => ?_
  refine .ite (Consumer.run · source) (fun _ => branching_follows inside here most) fun _ => ?_
  refine .ite (Consumer.run · source) (fun _ => whileLoop_follows inside here most) fun _ => ?_
  refine .ite (Consumer.run · source) (fun _ => forLoop_follows inside here most) fun _ => ?_
  refine .ite (Consumer.run · source) (fun _ => ending_follows inside here most) fun _ => ?_
  refine .ite (Consumer.run · source) (fun _ => assertion_follows inside here most) fun _ => ?_
  refine .ite (Consumer.run · source) (fun _ => usingTable_follows inside here most) fun _ => ?_
  refine .ite (Consumer.run · source) (fun _ => latent_follows inside here most) fun _ => ?_
  refine .ite (Consumer.run · source) (fun _ => reassignment_follows inside here most) fun _ => ?_
  exact terminated_follows inside here most

/-- A statement takes up room for what is inside it. -/
theorem run_statement {room : Nat} :
    (Grammar.statement room env).run source =
      (Grammar.deepen env (belowOf env room) >>= fun lower =>
        liftM (Grammar.statementOf env lower.expression (Grammar.statement (room - 1))) :
          Parser Node).run source := by
  cases room with
  | zero => rfl
  | succ room =>
    rw [Parser.run_bind, run_deepen_succ, ok_bind, Parser.run_consumer]
    rfl

/-- A statement one level deeper is followed. -/
theorem statement_follows (follow : calls.Follow tokens length)
    (enough : 3 * min (env.limit - depth) source.length + 3 ≤ length)
    (here : state.At tokens env source depth) :
    Follows tokens env (· = depth) ((statement tokens calls env).run state)
      ((Grammar.statement (env.limit - depth) env).run source) := by
  rw [run_statement]
  refine .chained here (here.deepen fun next room there => ?_)
  have inside : calls.Inside tokens env (depth + 1) source.length
      (level env (env.limit - (depth + 1))).expression
      (Grammar.statement (env.limit - depth - 1)) := by
    refine ⟨fun here most => follow.expression here (by omega), fun scope rest _ here fewer => ?_⟩
    have shorter : 3 * min (env.limit - (depth + 1)) rest.length + 4 ≤ length := by omega
    exact follow.statement here shorter
  rw [Parser.run_consumer]
  exact (statementOf_follows inside there (Nat.le_refl _)).mono fun _ _ => trivial

/-- Every chain of calls follows the parsers, if its length is enough for the room and for the
tokens that are left. -/
theorem calls_follow (tokens : List Token) (length : Nat) :
    (Descent.calls tokens length).Follow tokens length := by
  induction length with
  | zero => exact ⟨by omega, by omega, by omega, by omega⟩
  | succ length ih =>
    refine ⟨fun here enough => ?_, fun least here enough => ?_, fun here enough => ?_,
      fun here enough => statement_follows ih (by omega) here⟩
    · rw [level_eq]
      exact expression_follows ih (by omega) here
    · rw [level_eq]
      exact combination_follows ih (by omega) here
    · rw [level_eq]
      exact operand_follows ih (by omega) here

end ContentSpace.Grammar.Descent

import ContentSpace.Grammar.Program
import ContentSpace.Proofs.Grammar.Descent.Agreement.Statement
import ContentSpace.Proofs.Grammar.Limit.Program

/-!
# Descents through programs follow the parsers

Declarations, parameters and blocks are read at no depth. What ends a program or an expression is
an end token: in a list that has no other than the last one, it comes where no token is left.
-/

namespace ContentSpace.Grammar.Descent

open Stateful

variable {α : Type} {tokens source : List Token} {env : Environment} {depth length : Nat}
  {state : State}

/-! ## Declarations -/

/-- The test for a declaration tells what it tells of the tokens. -/
theorem State.At.run_atDeclaration (here : state.At tokens env source depth) :
    (atDeclaration tokens).run state = .ok (Grammar.atDeclaration source) state := by
  have same : ((env.peek source).isKeyword "latent" && (env.peek source.tail).isKeyword "table") =
      Grammar.atDeclaration source :=
    @peek_two env (·.isKeyword "latent") (·.isKeyword "table") (here.isKeyword_finish "latent")
      (here.isKeyword_finish "table") source
  rw [atDeclaration, run_bind_of_ok here.run_peek, run_bind_of_ok here.run_peekAt_one, same]
  rfl

/-- A declaration is followed. -/
theorem declaration_follows (here : state.At tokens env source depth) :
    Follows tokens env (· = depth) ((declaration tokens).run state)
      ((Grammar.declaration env).run source) := by
  refine here.keyword.andThen fun _ rest next _ there => ?_
  refine there.keyword.take fun _ rest next _ there => ?_
  refine there.name.take fun name rest next _ there => ?_
  exact there.symbol.take fun _ _ _ _ last => .took last rfl

/-- A declaration that comes too late is a failure. -/
theorem lateDeclaration_follows (here : state.At tokens env source depth) :
    Follows tokens env (· = depth) ((lateDeclaration tokens : Descent α).run state)
      ((Grammar.lateDeclaration env : Consumer α).run source) :=
  (declaration_follows here).andThen fun _ _ _ _ there => there.refuse

/-- What follows declarations goes on in the scope that has their tables. -/
theorem declarations_follows {rounds : Nat} {next : Environment → Descent α}
    {later : Environment → Parser α} (here : state.At tokens env source depth)
    (few : source.length < rounds)
    (second : ∀ scope rest state, rest.length ≤ source.length →
      state.At tokens { env with scope } rest depth →
        Follows tokens env (· = depth) ((next { env with scope }).run state)
          ((later { env with scope }).run rest)) :
    Follows tokens env (· = depth) ((declarations tokens rounds env >>= next).run state)
      ((Grammar.declarations env >>= later).run source) := by
  induction rounds generalizing env source state with
  | zero => omega
  | succ rounds ih =>
    rw [declarations, Parser.run_bind, run_declarations, bind_assoc,
      run_bind_of_ok here.run_atDeclaration]
    split
    · rw [Consumer.run_andThen, bind_assoc, bind_assoc, bind_assoc]
      refine (declaration_follows here).bind fun name rest after took there => ?_
      have fewer : rest.length < source.length := Consumer.length_of_run took
      rw [bind_assoc]
      refine there.check.bind fun scope last beyond taken within => ?_
      have less : last.length ≤ rest.length := Parser.length_of_run taken
      rw [← Parser.run_bind]
      have others := ih (within.inScope scope) (by omega) fun other left final few ended =>
        (second other left final (by omega) ended).inScope scope
      exact others.inScope env.scope
    · rw [ok_bind]
      exact second env.scope source state (Nat.le_refl _) here

/-! ## Blocks -/

/-- A parameter is followed. -/
theorem parameter_follows {block : String} {before : List String}
    (here : state.At tokens env source depth) :
    Follows tokens env (· = depth) ((parameter tokens block before).run state)
      ((Grammar.parameter env block before).run source) := by
  refine here.name.andThen fun name rest next _ there => ?_
  split
  · exact there.refuse
  · exact .took there rfl

/-- Further parameters are followed. -/
theorem furtherParameters_follows {block : String} {rounds : Nat} (before : List String)
    (here : state.At tokens env source depth) (few : source.length < rounds) :
    Follows tokens env (· = depth) ((furtherParameters tokens block rounds before).run state)
      ((Grammar.furtherParameters env block before).run source) := by
  induction rounds generalizing source state before with
  | zero => omega
  | succ rounds ih =>
    rw [furtherParameters, run_furtherParameters, Consumer.run_andThen, bind_assoc]
    refine here.eat (here.isSymbol_finish ",") (fun _ rest next less there => ?_) ?_
    · rw [Parser.run_consumer]
      refine (parameter_follows there).bind fun name last beyond took after => ?_
      have fewer : last.length < rest.length := Consumer.length_of_run took
      exact ih _ after (show last.length < rounds by omega)
    · exact .took here rfl

/-- Parameters between parentheses are followed. -/
theorem parameters_follows {block : String} (here : state.At tokens env source depth) :
    Follows tokens env (· = depth) ((parameters tokens block).run state)
      ((Grammar.parameters env block).run source) := by
  refine here.symbol.andThen fun _ rest next _ there => ?_
  refine there.next ?_
  split
  · exact there.symbol.take fun _ _ _ _ last => .took last rfl
  · refine (parameter_follows there).take fun first rest next _ there => ?_
    rw [run_bind_of_ok there.run_rounds]
    refine (furtherParameters_follows [first] there (Nat.lt_succ_self _)).parse ?_
    intro all rest next _ there
    exact there.symbol.take fun _ _ _ _ last => .took last rfl

/-- The table that a block names is followed. -/
theorem activeTable_follows (here : state.At tokens env source depth) :
    Follows tokens env (· = depth) ((activeTable tokens env).run state)
      ((Grammar.activeTable env).run source) := by
  refine here.eat_take (here.isKeyword_finish "using") (fun _ rest next _ there => ?_) ?_
  · refine there.name.take fun word rest next _ there => ?_
    exact there.check.parse fun table _ _ _ last => .took last rfl
  · exact .took here rfl

/-- The statements of a block are followed at no depth. -/
theorem blockBody_follows (here : state.At tokens env source 0)
    (enough : 3 * min env.limit source.length + 4 ≤ length) :
    Follows tokens env (· = 0) ((body tokens (calls tokens length) env).run state)
      ((Grammar.body env (Grammar.statement env.limit)).run source) := by
  refine body_follows (fun rest next fewer there => ?_) here
  exact (calls_follow tokens length).statement there (by omega)

/-- A block is followed. -/
theorem block_follows (here : state.At tokens env source 0)
    (enough : 3 * min env.limit source.length + 4 ≤ length) :
    Follows tokens env (· = 0) ((block tokens length env).run state)
      ((Grammar.block env).run source) := by
  refine here.keyword.andThen fun _ rest next fewer there => ?_
  refine there.name.take fun name rest next less there => ?_
  refine (parameters_follows there).take fun parameters rest next lesser there => ?_
  refine (activeTable_follows there).parse fun table rest next least there => ?_
  have few : 3 * min env.limit rest.length + 4 ≤ length := by omega
  cases table with
  | none => exact (blockBody_follows there few).take fun _ _ _ _ last => .took last rfl
  | some table =>
    have statements := blockBody_follows (there.inScope (env.scope.activate table)) few
    exact (statements.inScope env.scope).take fun _ _ _ _ last => .took last rfl

/-- A block of a program is followed. -/
theorem blockOf_follows {program : String} (here : state.At tokens env source 0)
    (enough : 3 * min env.limit source.length + 4 ≤ length) :
    Follows tokens env (· = 0) ((blockOf tokens length env program).run state)
      ((Grammar.blockOf env program).run source) := by
  rw [blockOf, run_bind_of_ok here.run_atDeclaration]
  unfold Consumer.run Grammar.blockOf
  split
  · exact lateDeclaration_follows here
  · exact (block_follows here enough).mapFailure _

/-! ## The end -/

/-- An end token or the end of the tokens. -/
def ended (env : Environment) : Parser Unit := fun source =>
  if (env.peek source).kind = .finish then .ok ⟨(), source.tail, by simp⟩
  else Parser.fail env .expectedEnd source

/-- The end is followed, be it the end of the list or not. -/
theorem ended_follows (here : state.At tokens env source depth) :
    Follows tokens env (· = depth) ((atEnd tokens).run state) ((ended env).run source) := by
  rw [atEnd, ofKind, expect, bind_assoc, run_bind_of_ok here.run_peek]
  unfold Parser.run ended
  by_cases last : (env.peek source).kind = .finish
  · rw [if_pos (by simp [last]), if_pos last, bind_assoc]
    cases source with
    | nil =>
      rw [run_bind_of_ok here.run_advance_nil]
      exact .took here rfl
    | cons first rest =>
      obtain ⟨after, ran, there⟩ := here.run_advance
      rw [run_bind_of_ok ran]
      exact .took there rfl
  · rw [if_neg (by simp [last]), if_neg last]
    have failed : Follows tokens env (· = depth)
        ((fail tokens .expectedEnd : Descent Token).run state)
        (.error (env.failure .expectedEnd source)) :=
      here.fail
    exact failed.fail_bind _

/-- In a list whose only end token is the last one, an end token comes where no token is left. -/
theorem atEnd_follows (only : ∀ token ∈ tokens.dropLast, token.kind ≠ .finish)
    (here : state.At tokens env source depth) :
    Follows tokens env (· = depth) ((atEnd tokens).run state) ((Grammar.atEnd env).run source) := by
  have same : (Grammar.atEnd env).run source = (ended env).run source := by
    obtain ⟨front, rfl, -⟩ := here.split
    unfold Parser.run Grammar.atEnd ended
    cases source with
    | nil => exact (if_pos here.finish).symm ▸ rfl
    | cons first rest =>
      rw [← List.append_assoc, List.dropLast_concat] at only
      have more : first.kind ≠ .finish := only first (by simp)
      exact (if_neg more).symm ▸ rfl
  rw [same]
  exact ended_follows here

section

variable (ending : Environment → Parser Unit) (env : Environment)

/-- A program before a certain end. -/
def programBefore : Parser Program := do
  let env ← Grammar.declarations env
  let _ ← Grammar.keyword env "program"
  let name ← Grammar.name env
  let _ ← Grammar.symbol env "\x7b"
  let env ← Grammar.declarations env
  let blocks ← Grammar.itemsUntil env "\x7d" (Grammar.blockOf env name.text)
  let _ ← Grammar.symbol env "\x7d"
  let late ← Grammar.atDeclaration <$> Parser.ahead
  if late then Grammar.lateDeclaration env
  else
    ending env
    return { name := name.text, tables := env.scope.declared, blocks }

/-- An expression before a certain end. -/
def expressionBefore : Parser Node := do
  let node ← (level env env.limit).expression
  ending env
  return node

end

section

variable {ending : Environment → Parser Unit}
  (ends : ∀ {scope : Scope} {source : List Token} {state : State},
    state.At tokens { env with scope } source 0 →
      Follows tokens { env with scope } (· = 0) ((atEnd tokens).run state)
        ((ending { env with scope }).run source))
  (here : state.At tokens env source 0) (enough : 3 * min env.limit source.length + 4 ≤ length)
include ends here enough

/-- An expression before an end is followed, if the end is. -/
theorem wholeExpression_follows :
    Follows tokens env (· = 0) ((wholeExpression tokens length env).run state)
      ((expressionBefore ending env).run source) := by
  have expression := (calls_follow tokens length).expression here (by omega)
  refine expression.take fun node rest next _ there => ?_
  exact (ends there).parse fun _ _ _ _ last => .took last rfl

/-- A program before an end is followed, if the end is. -/
theorem program_follows :
    Follows tokens env (· = 0) ((program tokens length env).run state)
      ((programBefore ending env).run source) := by
  rw [program, run_bind_of_ok here.run_rounds]
  refine declarations_follows here (Nat.lt_succ_self _) fun scope rest next fewer there => ?_
  suffices declared : Follows tokens { env with scope } (· = 0) _ _ from declared.inScope env.scope
  refine there.keyword.take fun _ rest next less there => ?_
  refine there.name.take fun name rest next lesser there => ?_
  refine there.symbol.take fun _ rest next few there => ?_
  rw [run_bind_of_ok there.run_rounds]
  refine declarations_follows there (Nat.lt_succ_self _) fun scopeToo rest next fewest there => ?_
  suffices declared : Follows tokens { env with scope := scopeToo } (· = 0) _ _ from
    declared.inScope scope
  rw [run_bind_of_ok there.run_rounds]
  have each (last : List Token) (next : State) (least : last.length ≤ rest.length)
      (there : next.At tokens { env with scope := scopeToo } last 0) :=
    @blockOf_follows _ _ _ length _ name.text there
      (show 3 * min env.limit last.length + 4 ≤ length by omega)
  have blocks := itemsUntil_follows "\x7d" [] each there (Nat.le_refl _) (Nat.lt_succ_self _)
  refine blocks.parse_map _ fun blocks rest next _ there => ?_
  refine there.symbol.take fun _ rest next _ there => ?_
  have tells : (Grammar.atDeclaration <$> Parser.ahead).run rest =
      .ok (Grammar.atDeclaration rest, rest) :=
    rfl
  rw [Parser.run_bind, tells, ok_bind, run_bind_of_ok there.run_atDeclaration]
  split
  · rw [Parser.run_consumer]
    exact lateDeclaration_follows there
  · exact (ends there).parse fun _ _ _ _ last => .took last rfl

end

end ContentSpace.Grammar.Descent

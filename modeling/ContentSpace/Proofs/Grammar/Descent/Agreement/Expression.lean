import ContentSpace.Grammar.Statement
import ContentSpace.Proofs.Grammar.Descent.Agreement.Basic
import ContentSpace.Proofs.Grammar.Descent.Expression
import ContentSpace.Proofs.Grammar.Level

/-!
# Descents through expressions follow the levels

At a depth, the procedures for expressions do what the parsers of the level for the remaining room
do. A chain of calls from an operand to an expression inside it takes at least one token, and one
from an expression to the operands of it counts one more level of depth; so the length of a chain
is bounded by the room that is left and by the tokens that are left.
-/

namespace ContentSpace.Grammar.Descent

open Stateful

variable {α : Type} {tokens source : List Token} {env : Environment} {depth length : Nat}
  {state : State} {after : Nat → Prop} {calls : Calls}

/-- The length of chains of calls for which there is room and are tokens at a certain depth. -/
def reach (env : Environment) (depth : Nat) (source : List Token) : Nat :=
  3 * min (env.limit - depth + 1) source.length

/-- The procedures follow the parsers if chains of calls may have a certain length. -/
structure Calls.Follow (tokens : List Token) (length : Nat) (calls : Calls) : Prop where
  /-- Expressions are followed. -/
  expression {env : Environment} {source : List Token} {depth : Nat} {state : State} :
    state.At tokens env source depth → 3 * min (env.limit - depth) source.length + 3 ≤ length →
      Follows tokens env (· = depth) ((calls.expression env).run state)
        ((level env (env.limit - depth)).expression.run source)
  /-- Operands combined by operators are followed. -/
  combination {env : Environment} {source : List Token} {depth : Nat} {state : State}
    (least : Nat) :
    state.At tokens env source depth → reach env depth source + 2 ≤ length →
      Follows tokens env (· = depth) ((calls.combination env least).run state)
        (((level env (env.limit - depth)).combination least).run source)
  /-- Operands are followed. -/
  operand {env : Environment} {source : List Token} {depth : Nat} {state : State} :
    state.At tokens env source depth → reach env depth source + 1 ≤ length →
      Follows tokens env (· = depth) ((calls.operand env).run state)
        ((level env (env.limit - depth)).operand.run source)
  /-- Statements are followed. -/
  statement {env : Environment} {source : List Token} {depth : Nat} {state : State} :
    state.At tokens env source depth → 3 * min (env.limit - depth) source.length + 4 ≤ length →
      Follows tokens env (· = depth) ((calls.statement env).run state)
        ((Grammar.statement (env.limit - depth) env).run source)

/-- With fewer tokens chains of calls are no longer. -/
theorem reach_le {rest : List Token} (enough : reach env depth source ≤ length)
    (fewer : rest.length ≤ source.length) : reach env depth rest ≤ length := by
  unfold reach at enough ⊢
  omega

/-- Steps one level deeper follow the parsers of the level below, if there is one. -/
theorem State.At.deepen {β : Type} {next : Unit → Descent β} {later : Level → Parser β}
    (here : state.At tokens env source depth)
    (second : ∀ state, depth < env.limit → state.At tokens env source (depth + 1) →
      Follows tokens env after ((next ()).run state)
        ((later (level env (env.limit - (depth + 1)))).run source)) :
    Follows tokens env after ((deepen tokens env.limit >>= next).run state)
      ((Grammar.deepen env (belowOf env (env.limit - depth)) >>= later).run source) := by
  have counted := here.counted
  have entering : (Descent.deepen tokens env.limit).run state =
      (if env.limit ≤ state.depth then Descent.fail tokens (.tooDeep env.limit)
        else set { state with
          depth := state.depth + 1, highest := max state.highest (state.depth + 1) } :
        Descent Unit).run state := rfl
  rw [counted] at entering
  rw [Parser.run_bind]
  by_cases room : depth < env.limit
  · rw [if_neg (by omega)] at entering
    obtain ⟨less, more⟩ : ∃ less, env.limit - depth = less + 1 :=
      ⟨env.limit - (depth + 1), by omega⟩
    have same : env.limit - (depth + 1) = less := by omega
    rw [more, run_deepen_succ, ok_bind, run_bind_of_ok entering]
    rw [same] at second
    exact second _ room ⟨here.finish, here.split, rfl, room, Nat.max_le.mpr ⟨here.highest, room⟩⟩
  · rw [if_pos (by omega)] at entering
    have none : env.limit - depth = 0 := by omega
    have failed : Follows tokens env after ((Descent.deepen tokens env.limit).run state)
        (.error (env.failure (.tooDeep env.limit) source)) := by
      rw [entering]
      exact here.fail
    rw [none]
    exact failed.fail_bind next

/-! ## Atoms -/

/-- The number of a position is followed. -/
theorem position_follows (here : state.At tokens env source depth) :
    Follows tokens env (· = depth) ((position tokens).run state)
      ((Grammar.position env).run source) := by
  refine here.symbol.andThen fun _ rest next _ there => ?_
  exact (there.ofKind (by decide)).take fun _ _ _ _ last => .took last rfl

/-- A table between angle brackets is followed. -/
theorem tableName_follows (here : state.At tokens env source depth) :
    Follows tokens env (· = depth) ((tableName tokens).run state)
      ((Grammar.ascription env).run source) := by
  refine here.eat_take (here.isOperator_finish "<") (fun _ rest next _ there => ?_) ?_
  · refine there.name.take fun table rest next _ there => ?_
    exact there.operator.take fun _ _ _ _ last => .took last rfl
  · exact .took here rfl

section

variable (follow : calls.Follow tokens length)
include follow

/-- An expression inside others is followed once a token was taken. -/
theorem Calls.Follow.inside {rest : List Token} (enough : reach env depth source ≤ length)
    (fewer : rest.length < source.length) (there : state.At tokens env rest depth) :
    Follows tokens env (· = depth) ((calls.expression env).run state)
      ((Grammar.expression env (belowOf env (env.limit - depth))).run rest) := by
  have reads := follow.expression there (by unfold reach at enough; omega)
  rw [level_eq] at reads
  exact reads

variable (enough : reach env depth source ≤ length) (here : state.At tokens env source depth)
include enough here

/-- Arguments are followed. -/
theorem arguments_follows :
    Follows tokens env (· = depth) ((arguments tokens calls env).run state)
      ((Grammar.arguments env
        (Grammar.expression env (belowOf env (env.limit - depth)))).run source) :=
  delimited_follows (fun _ _ fewer there => follow.inside enough fewer there) here

/-- A store operation is followed. -/
theorem storeCall_follows {inStage : Bool} {operator : StoreOperator} :
    Follows tokens env (· = depth) ((storeCall tokens calls env inStage operator).run state)
      ((Grammar.storeCall env (belowOf env (env.limit - depth)) inStage operator).run source) := by
  refine (here.ofKind (by decide)).andThen fun word rest next fewer there => ?_
  refine (tableName_follows there).parse fun table rest next less there => ?_
  refine there.next ?_
  split
  · have later := reach_le enough (Nat.le_of_lt (Nat.lt_of_le_of_lt less fewer))
    refine (arguments_follows follow later there).take fun given rest next _ there => ?_
    refine there.check.parse fun table rest next _ there => ?_
    exact there.check.parse fun call _ _ _ last => .took last rfl
  · have none : Follows tokens env (· = depth) ((pure [] : Descent (List Node)).run next)
        ((Parser.pure [] : Parser (List Node)).run rest) := .took there rfl
    refine none.parse fun given rest next _ there => ?_
    refine there.check.parse fun table rest next _ there => ?_
    exact there.check.parse fun call _ _ _ last => .took last rfl

/-- An expression between two symbols is followed. -/
theorem enclosed_follows {before close : String} :
    Follows tokens env (· = depth) ((enclosed tokens calls env before close).run state)
      ((Grammar.enclosed env (belowOf env (env.limit - depth)) before close).run source) := by
  refine here.symbol.andThen fun _ rest next fewer there => ?_
  refine (follow.inside enough fewer there).take fun node rest next _ there => ?_
  exact there.symbol.take fun _ _ _ _ last => .took last rfl

/-- A choice between expressions is followed. -/
theorem choice_follows :
    Follows tokens env (· = depth) ((choice tokens calls env).run state)
      ((Grammar.choice env (belowOf env (env.limit - depth))).run source) := by
  refine here.keyword.andThen fun _ rest next fewer there => ?_
  have first := reach_le enough (Nat.le_of_lt fewer)
  refine (enclosed_follows follow first there).take fun condition rest next fewer there => ?_
  have second := reach_le first (Nat.le_of_lt fewer)
  refine (enclosed_follows follow second there).take fun yes rest next fewer there => ?_
  refine there.keyword.take fun _ rest next less there => ?_
  have third := reach_le second (Nat.le_of_lt (Nat.lt_trans less fewer))
  exact (enclosed_follows follow third there).take fun no _ _ _ last => .took last rfl

/-- A contract is followed. -/
theorem contract_follows :
    Follows tokens env (· = depth) ((contract tokens calls env).run state)
      ((Grammar.contract env (belowOf env (env.limit - depth))).run source) := by
  refine here.keyword.andThen fun _ rest next fewer there => ?_
  refine (there.ofKind (by decide)).take fun number rest next less there => ?_
  have later := reach_le enough (Nat.le_of_lt (Nat.lt_trans less fewer))
  exact (arguments_follows follow later there).take fun given _ _ _ last => .took last rfl

/-- A call in the system namespace is followed. -/
theorem systemCall_follows {word : String} {function : List Char} :
    Follows tokens env (· = depth) ((systemCall tokens calls env word function).run state)
      ((Grammar.systemCall env (belowOf env (env.limit - depth)) word function).run source) := by
  unfold systemCall Grammar.systemCall
  cases Primitive.ofSystemName? (String.ofList function) with
  | none => exact here.fail
  | some primitive =>
    refine here.keyword.andThen fun _ rest next fewer there => ?_
    have later := reach_le enough (Nat.le_of_lt fewer)
    exact (arguments_follows follow later there).take fun given _ _ _ last => .took last rfl

/-- An atom that starts with a keyword is followed. -/
theorem keywordAtom_follows {next : Token} :
    Follows tokens env (· = depth) ((keywordAtom tokens calls env next).run state)
      ((Grammar.keywordAtom env (belowOf env (env.limit - depth)) next).run source) := by
  -- The match of the descent is opened alone, so that each case can tell the parser what was found.
  unfold keywordAtom
  split
  next word =>
    simp only [Grammar.keywordAtom, word]
    exact here.keyword.andThen fun _ _ _ _ last => .took last rfl
  next word =>
    simp only [Grammar.keywordAtom, word]
    exact here.keyword.andThen fun _ _ _ _ last => .took last rfl
  next word =>
    simp only [Grammar.keywordAtom, word]
    exact here.keyword.andThen fun _ _ _ _ last => .took last rfl
  next word =>
    simp only [Grammar.keywordAtom, word]
    exact contract_follows follow enough here
  next word =>
    simp only [Grammar.keywordAtom, word]
    exact choice_follows follow enough here
  next noTrue noFalse noNull noContract noChoice =>
    simp only [Grammar.keywordAtom]
    cases storeWord? next with
    | some operator => exact storeCall_follows follow enough here
    | none =>
      dsimp only
      split
      next function letters =>
        simp only [letters]
        exact systemCall_follows follow enough here
      next =>
        simp only
        exact here.fail

end

/-- The name of a field is followed. -/
theorem fieldName_follows (here : state.At tokens env source depth) :
    Follows tokens env (· = depth) ((fieldName tokens).run state)
      ((Grammar.fieldName env).run source) := by
  rw [fieldName, run_bind_of_ok here.run_peek, Grammar.fieldName, Consumer.run_ahead]
  cases known : (env.peek source).kind with
  | identifier | keyword | integer => exact here.advance_kind Token.text known (by decide)
  | string => exact here.advance_kind (fun next => stringContent next.text) known (by decide)
  | float | blob | operator | symbol | finish => exact here.fail

section

variable (follow : calls.Follow tokens length)
include follow

/-- A field of an object is followed once a token was taken. -/
theorem objectField_follows {rest : List Token} (enough : reach env depth source ≤ length)
    (fewer : rest.length < source.length) (there : state.At tokens env rest depth) :
    Follows tokens env (· = depth) ((objectField tokens calls env).run state)
      ((Grammar.objectField env (belowOf env (env.limit - depth))).run rest) := by
  refine (fieldName_follows there).andThen fun key _ _ less there => ?_
  refine there.symbol.take fun _ _ _ lesser there => ?_
  have inside := follow.inside enough (by omega) there
  exact inside.take fun value _ _ _ last => .took last rfl

/-- An atom other than a name is followed. -/
theorem atom_follows (enough : reach env depth source ≤ length)
    (here : state.At tokens env source depth) (other : (env.peek source).kind ≠ .identifier) :
    Follows tokens env (· = depth) ((atom tokens calls env).run state)
      ((Grammar.atom env (belowOf env (env.limit - depth))).run source) := by
  have inside (rest : List Token) (next : State) (fewer : rest.length < source.length)
      (there : next.At tokens env rest depth) := follow.inside enough fewer there
  have field (rest : List Token) (next : State) (fewer : rest.length < source.length)
      (there : next.At tokens env rest depth) := objectField_follows follow enough fewer there
  rw [atom, run_bind_of_ok here.run_peek, Grammar.atom, Consumer.run_ahead]
  dsimp only
  cases known : (env.peek source).kind with
  | integer =>
    refine here.advance (by simp [known]) (here.kind_finish (by decide)) fun _ _ _ there => ?_
    exact there.check.parse fun _ _ _ _ last => .took last rfl
  | float =>
    refine here.advance (by simp [known]) (here.kind_finish (by decide)) fun _ _ _ there => ?_
    exact there.check.parse fun _ _ _ _ last => .took last rfl
  | string =>
    exact here.advance_kind (fun next => Node.string (stringContent next.text)) known (by decide)
  | blob => exact here.advance_kind (fun next => Node.literal (.blob next.text)) known (by decide)
  | identifier => exact absurd known other
  | keyword => exact keywordAtom_follows follow enough here
  | operator | finish => exact here.fail
  | symbol =>
    dsimp only
    rw [symbolAtom]
    split
    next text =>
      simp only [text]
      exact enclosed_follows follow enough here
    next text =>
      simp only [text]
      exact (delimited_follows inside here).andThen fun _ _ _ _ last => .took last rfl
    next text =>
      simp only [text]
      exact (delimited_follows field here).andThen fun _ _ _ _ last => .took last rfl
    next noParenthesis noBracket noBrace =>
      split
      case h_9 => exact here.fail
      all_goals contradiction

end

/-! ## Chains -/

/-- A further round of a chain has reach for one more level of depth if a token was taken. -/
theorem reach_deeper {rest : List Token} (enough : reach env depth source ≤ length)
    (fewer : rest.length ≤ source.length) : reach env (depth + 1) rest ≤ length := by
  unfold reach at enough ⊢
  omega

section

variable (follow : calls.Follow tokens length) {rounds : Nat}

/-- The parts of a name are followed with the selections after it, if these are. -/
theorem parts_follows {further : Node → Descent Node}
    (selecting : ∀ {source : List Token} {depth : Nat} {state : State} (node : Node),
      state.At tokens env source depth → source.length < rounds → reach env depth source ≤ length →
        Follows tokens env (fun _ => True) ((further node).run state)
          ((Grammar.furtherSelections env (belowOf env (env.limit - depth)) node).run source))
    {path : Token} (others : List String) (node : Node) (here : state.At tokens env source depth)
    (few : source.length < rounds) (enough : reach env depth source ≤ length) :
    Follows tokens env (fun _ => True)
      ((parts tokens env.limit path others node >>= further).run state)
      ((Grammar.furtherParts env (belowOf env (env.limit - depth)) path others node).run
        source) := by
  induction others generalizing depth state node with
  | nil => exact selecting node here few enough
  | cons part others ih =>
    rw [parts, bind_assoc, Grammar.furtherParts]
    refine here.deepen fun next room there => ?_
    have deeper := reach_deeper enough (Nat.le_refl _)
    split
    · have later := ih (fieldOf node part) there deeper
      rw [level_eq]
      exact later
    split
    · rw [bind_assoc]
      refine (position_follows there).take fun number rest next fewer there => ?_
      have selected := selecting (fieldOf node number) there (by omega)
        (reach_le deeper (Nat.le_of_lt fewer))
      rw [level_eq]
      exact selected
    · exact .failed there.highest

include follow

/-- Indices, fields and arguments are followed. -/
theorem selections_follows (node : Node) (here : state.At tokens env source depth)
    (few : source.length < rounds) (enough : reach env depth source ≤ length) :
    Follows tokens env (fun _ => True) ((selections tokens calls env rounds node).run state)
      ((Grammar.furtherSelections env (belowOf env (env.limit - depth)) node).run source) := by
  induction rounds generalizing source depth state node with
  | zero => omega
  | succ rounds ih =>
    -- After a round there are fewer tokens, so the others go on with fewer rounds one level deeper.
    have again {rest : List Token} {next : State} (node : Node)
        (fewer : rest.length < source.length) (there : next.At tokens env rest (depth + 1)) :
        Follows tokens env (fun _ => True) ((selections tokens calls env rounds node).run next)
          (((level env (env.limit - (depth + 1))).furtherSelections node).run rest) := by
      rw [level_eq]
      exact ih node there (by omega) (reach_deeper enough (Nat.le_of_lt fewer))
    have inside {rest : List Token} {next : State} (fewer : rest.length < source.length)
        (there : next.At tokens env rest (depth + 1)) :
        Follows tokens env (· = depth + 1) ((calls.expression env).run next)
          ((level env (env.limit - (depth + 1))).expression.run rest) :=
      follow.expression there (by rw [reach] at enough; omega)
    rw [selections, Grammar.furtherSelections]
    refine here.next ?_
    split
    next bracket =>
      refine here.deepen fun next room there => ?_
      refine there.advance_take bracket (there.isSymbol_finish "[") fun rest next fewer there => ?_
      refine (inside fewer there).take fun index rest next less there => ?_
      refine there.symbol.take fun _ rest next lesser there => ?_
      exact again _ (by omega) there
    split
    next parenthesis =>
      refine here.deepen fun next room there => ?_
      refine (delimited_follows (fun _ _ => inside) there).take fun given rest next fewer there => ?_
      exact again _ fewer there
    split
    next dot =>
      refine here.deepen fun next room there => ?_
      refine there.advance_take dot (there.isSymbol_finish ".") fun rest next fewer there => ?_
      refine there.next ?_
      split
      · refine (position_follows there).take fun number rest next less there => ?_
        exact again _ (Nat.lt_trans less fewer) there
      split
      next named =>
        have kind : ((env.peek rest).kind == (env.peek rest).kind) = true := beq_self_eq_true _
        have more : (env.peek rest).kind ≠ .finish := by
          rcases named with kind | kind <;> simp [kind]
        refine there.advance_take kind (there.kind_finish more) fun _ _ less there => ?_
        rw [level_eq]
        exact parts_follows ih _ node there (by omega) (reach_deeper enough (by omega))
      · exact there.fail
    · exact .took here trivial

/-- An atom is followed with its selections. -/
theorem selection_follows (enough : reach env depth source ≤ length)
    (here : state.At tokens env source depth) :
    Follows tokens env (· = depth) ((selection tokens calls env).run state)
      ((Grammar.selection env (belowOf env (env.limit - depth))).run source) := by
  refine .chained here ?_
  -- The selections after an atom have a round for each token that is left.
  have selecting {source : List Token} {depth : Nat} {state : State} (node : Node)
      (here : state.At tokens env source depth) (enough : reach env depth source ≤ length) :
      Follows tokens env (fun _ => True)
        ((rounds tokens >>= fun rounds => selections tokens calls env rounds node).run state)
        ((Grammar.furtherSelections env (belowOf env (env.limit - depth)) node).run source) := by
    rw [run_bind_of_ok here.run_rounds]
    exact selections_follows follow node here (Nat.lt_succ_self _) enough
  rw [Grammar.selection, Consumer.run_ahead]
  split
  next name =>
    have passes : ((env.peek source).kind == .identifier) = true := by simp [name]
    rw [atom, bind_assoc, run_bind_of_ok here.run_peek, name]
    dsimp only
    rw [bind_assoc]
    refine here.advance passes (here.kind_finish (by decide)) fun rest next fewer there => ?_
    have less := reach_le enough (Nat.le_of_lt fewer)
    cases nameParts (env.peek source).text with
    | nil => exact selecting _ there less
    | cons head others =>
      exact parts_follows (fun node there _ => selecting node there) others _ there fewer less
  next other =>
    refine (atom_follows follow enough here other).andThen fun node rest next fewer there => ?_
    exact selecting node there (reach_le enough (Nat.le_of_lt fewer))

/-- An operand one level deeper is followed. -/
theorem deeperOperand_follows (enough : 3 * min (env.limit - depth) source.length + 1 ≤ length)
    (here : state.At tokens env source depth) :
    Follows tokens env (· = depth) ((nested tokens env.limit (calls.operand env)).run state)
      ((Grammar.deepen env (belowOf env (env.limit - depth)) >>= fun lower =>
        liftM lower.operand : Parser Node).run source) := by
  refine .chained here (here.deepen fun next room there => ?_)
  rw [Parser.run_consumer]
  exact (follow.operand there (by unfold reach; omega)).mono fun _ _ => trivial

omit follow in
/-- The operand of a minus sign is read, and then its tokens are counted. -/
theorem run_negative {below : Below} :
    ((do
      let lower ← Grammar.deepen env below
      let first ← Parser.next env
      let (node, count) ← lower.operand.counted
      return if isLeastMagnitude first && count == 1 then .int Int64.minValue else negated node :
        Parser Node).run source) =
      (Grammar.deepen env below >>= fun lower => liftM lower.operand : Parser Node).run source >>=
        fun taken => .ok (if isLeastMagnitude (env.peek source) &&
          source.length - taken.2.length == 1 then .int Int64.minValue else negated taken.1,
          taken.2) := by
  cases below with
  | none => rfl
  | some level =>
    have deepened : (Grammar.deepen env (some level)).run source = .ok (level.get, source) := rfl
    simp only [Parser.run_bind, deepened, ok_bind, Parser.run_next, Parser.run_consumer,
      Consumer.run_counted, Parser.run_pure]
    cases level.get.operand.run source <;> rfl

/-- An operand is followed. -/
theorem operand_follows (enough : reach env depth source ≤ length)
    (here : state.At tokens env source depth) :
    Follows tokens env (· = depth) ((operand tokens calls env).run state)
      ((Grammar.operand env (belowOf env (env.limit - depth))).run source) := by
  have less {rest : List Token} (fewer : rest.length < source.length) :
      3 * min (env.limit - depth) rest.length + 1 ≤ length := by
    rw [reach] at enough
    omega
  rw [operand, Grammar.operand, Consumer.run_ahead]
  refine here.eat_andThen (here.isOperator_finish "!") (fun _ rest next fewer there => ?_) ?_
  · have deeper := deeperOperand_follows follow (less fewer) there
    simp only [Parser.run_bind, ← bind_assoc] at deeper ⊢
    exact deeper.bind fun node _ _ _ last => .took last rfl
  refine here.eat_andThen (here.isOperator_finish "-") (fun _ rest next fewer there => ?_) ?_
  · have deeper := deeperOperand_follows follow (less fewer) there
    rw [run_negative]
    show Follows tokens env (· = depth)
      ((peek tokens >>= fun first => nested tokens env.limit (calls.operand env) >>= fun node =>
        (do
          let count := (← get).position - next.position
          return if isLeastMagnitude first && count == 1 then .int Int64.minValue
            else negated node : Descent Node)).run next) _
    rw [run_bind_of_ok there.run_peek]
    refine deeper.bind fun node last beyond took after => ?_
    have count : beyond.position - next.position = rest.length - last.length := by
      have before := there.position_add
      have behind := after.position_add
      omega
    dsimp only
    rw [← count]
    exact .took after rfl
  exact selection_follows follow enough here

/-- Operators with their right sides are followed. -/
theorem operators_follows {least : Nat} (left : Node) (here : state.At tokens env source depth)
    (few : source.length < rounds) (enough : reach env depth source ≤ length) :
    Follows tokens env (fun _ => True) ((operators tokens calls env least rounds left).run state)
      ((Grammar.furtherOperands env (belowOf env (env.limit - depth)) least left).run source) := by
  induction rounds generalizing source depth state left with
  | zero => omega
  | succ rounds ih =>
    rw [operators, Grammar.furtherOperands]
    refine here.next ?_
    cases found : binary? least (env.peek source) with
    | none => exact .took here trivial
    | some strong =>
      obtain ⟨strength, primitive⟩ := strong
      have kind : (env.peek source).kind = .operator := by
        unfold binary? at found
        split at found
        · assumption
        · cases found
      have passes : (env.peek source).isOperator (env.peek source).text = true := by
        simp [Token.isOperator, Token.is, kind]
      dsimp only
      refine here.advance_take passes (here.isOperator_finish _) fun rest next fewer there => ?_
      refine there.deepen fun next room there => ?_
      have right := follow.combination (strength + 1) there (by unfold reach at enough ⊢; omega)
      refine right.take fun right rest next less there => ?_
      rw [level_eq]
      exact ih _ there (by omega) (reach_deeper enough (by omega))

/-- Operands combined by operators are followed. -/
theorem combination_follows {least : Nat} (enough : reach env depth source + 1 ≤ length)
    (here : state.At tokens env source depth) :
    Follows tokens env (· = depth) ((combination tokens calls env least).run state)
      ((Grammar.combination env (belowOf env (env.limit - depth)) least).run source) := by
  refine .chained here ?_
  have first := follow.operand here enough
  rw [level_eq] at first
  refine first.andThen fun left rest next fewer there => ?_
  rw [run_bind_of_ok there.run_rounds]
  exact operators_follows follow left there (Nat.lt_succ_self _)
    (reach_le (by omega) (Nat.le_of_lt fewer))

/-- The stages of a pipeline are followed. -/
theorem stages_follows (value : Node) (here : state.At tokens env source depth)
    (few : source.length < rounds) (enough : reach env depth source ≤ length) :
    Follows tokens env (fun _ => True) ((stages tokens calls env rounds value).run state)
      ((Grammar.furtherStages env (belowOf env (env.limit - depth)) value).run source) := by
  induction rounds generalizing source depth state value with
  | zero => omega
  | succ rounds ih =>
    refine here.eat_take (here.isOperator_finish "|>") (fun _ rest next less there => ?_) ?_
    · refine there.deepen fun next room there => ?_
      refine there.next ?_
      have deeper : reach env (depth + 1) rest ≤ length :=
        reach_deeper enough (Nat.le_of_lt less)
      have again {last : List Token} {next : State} (value : Node)
          (fewer : last.length < rest.length) (there : next.At tokens env last (depth + 1)) :
          Follows tokens env (fun _ => True) ((stages tokens calls env rounds value).run next)
            (((level env (env.limit - (depth + 1))).furtherStages value).run last) := by
        rw [level_eq]
        exact ih value there (by omega) (reach_le deeper (Nat.le_of_lt fewer))
      cases storeWord? (env.peek rest) with
      | some operator =>
        have same : (level env (env.limit - (depth + 1))).stage operator =
            Grammar.storeCall env (belowOf env (env.limit - (depth + 1))) true operator := by
          rw [level_eq]
          rfl
        dsimp only
        rw [same]
        refine (storeCall_follows follow deeper there).take fun stage last next fewer there => ?_
        exact again _ fewer there
      | none =>
        have further : reach env (depth + 1) rest + 2 ≤ length := by
          rw [reach] at enough ⊢
          omega
        have stage := follow.combination 1 there further
        exact stage.take fun stage last next fewer there => again _ fewer there
    · exact .took here trivial

/-- A pipeline is followed. -/
theorem pipeline_follows (enough : reach env depth source + 2 ≤ length)
    (here : state.At tokens env source depth) :
    Follows tokens env (· = depth) ((pipeline tokens calls env).run state)
      ((Grammar.pipeline env (belowOf env (env.limit - depth))).run source) := by
  refine .chained here ?_
  have first := follow.combination 1 here enough
  rw [level_eq] at first
  refine first.andThen fun value rest next fewer there => ?_
  rw [run_bind_of_ok there.run_rounds]
  exact stages_follows follow value there (Nat.lt_succ_self _)
    (reach_le (by omega) (Nat.le_of_lt fewer))

/-- An expression is followed. -/
theorem expression_follows (enough : 3 * min (env.limit - depth) source.length + 2 ≤ length)
    (here : state.At tokens env source depth) :
    Follows tokens env (· = depth) ((expression tokens calls env).run state)
      ((Grammar.expression env (belowOf env (env.limit - depth))).run source) := by
  have opened : (Grammar.expression env (belowOf env (env.limit - depth))).run source =
      (Grammar.deepen env (belowOf env (env.limit - depth)) >>= fun lower =>
        liftM lower.pipeline : Parser Node).run source := by
    simp only [Grammar.expression, Consumer.run_before, Parser.run_bind, Parser.run_consumer]
  rw [opened]
  refine .chained here (here.deepen fun next room there => ?_)
  rw [Parser.run_consumer, level_eq]
  exact (pipeline_follows follow (by unfold reach; omega) there).mono fun _ _ => trivial

end

end ContentSpace.Grammar.Descent

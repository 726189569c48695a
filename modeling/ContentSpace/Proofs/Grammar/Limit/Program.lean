import ContentSpace.Grammar.Program
import ContentSpace.Proofs.Grammar.Limit.Expression

/-!
# The nesting limit of programs

Statements and blocks are read with less room as they are with more, or they fail for the limit,
when the expressions and statements in them do. Names, parameters, tables and declarations take up
no room. So the limit decides only whether source text is read: what is read, and every other
failure, is the same for all limits.
-/

namespace ContentSpace

namespace Grammar

section

variable {env : Environment} {more : Nat} {small large : Consumer Node}
  {statement statementToo : Environment → Consumer Node}
  (value : small.Approximates env.limit Eq large)
  (inner : ∀ env : Environment,
    (statement env).Approximates env.limit Eq (statementToo (env.withLimit more)))

section
include inner

/-- The statements of a body approximate. -/
theorem body_approximates :
    (body env statement).Approximates env.limit Eq (body (env.withLimit more) statementToo) := by
  refine .after fun _ => ?_
  refine .bind (itemsUntil_approximates (inner env)) fun statements _ same => ?_
  subst same
  exact .refl _

/-- What follows `else` approximates. -/
theorem alternative_approximates :
    (alternative env statement).Approximates env.limit Eq
      (alternative (env.withLimit more) statementToo) := by
  refine .after fun next => ?_
  split
  · refine .after fun _ => .after fun next => ?_
    split
    · exact .take (inner env) fun node => .refl _
    · exact .consumer (body_approximates inner)
  · exact .refl _

/-- A body with an active table approximates. -/
theorem usingTable_approximates :
    (usingTable env statement).Approximates env.limit Eq
      (usingTable (env.withLimit more) statementToo) := by
  refine .after fun _ => .after fun word => .after fun table => ?_
  have within := @body_approximates (env.within table) more statement statementToo inner
  exact .take within fun statements => .refl _

/-- A body with a scope of its own approximates. -/
theorem latentScope_approximates {line : Nat} :
    (latentScope env statement line).Approximates env.limit Eq
      (latentScope (env.withLimit more) statementToo line) := by
  refine .after fun table => .after fun parent => .after fun word => .after fun scope => ?_
  have within := @body_approximates { env with scope } more statement statementToo inner
  exact .take within fun statements => .refl _

end

section
include value

/-- An expression up to a semicolon approximates. -/
theorem terminated_approximates :
    (terminated env small).Approximates env.limit Eq (terminated (env.withLimit more) large) :=
  .andThen value fun _ => .refl _

/-- What is assigned approximates. -/
theorem assigned_approximates :
    (assigned env small).Approximates env.limit Eq (assigned (env.withLimit more) large) :=
  .after fun _ => .consumer (terminated_approximates value)

/-- A condition approximates. -/
theorem condition_approximates :
    (condition env small).Approximates env.limit Eq (condition (env.withLimit more) large) :=
  .after fun _ => .take value fun _ => .refl _

/-- A binding approximates. -/
theorem binding_approximates {word : String} {bind : String → Node → Node} :
    (binding env small word bind).Approximates env.limit Eq
      (binding (env.withLimit more) large word bind) :=
  .after fun _ => .after fun _ => .take (assigned_approximates value) fun _ => .refl _

/-- The end of a block approximates. -/
theorem ending_approximates :
    (ending env small).Approximates env.limit Eq (ending (env.withLimit more) large) := by
  refine .after fun _ => .after fun next => ?_
  split
  · exact .refl _
  · exact .take (terminated_approximates value) fun _ => .refl _

/-- An assertion approximates. -/
theorem assertion_approximates :
    (assertion env small).Approximates env.limit Eq (assertion (env.withLimit more) large) :=
  .after fun _ => .take (terminated_approximates value) fun _ => .refl _

/-- A name bound again approximates. -/
theorem reassignment_approximates :
    (reassignment env small).Approximates env.limit Eq
      (reassignment (env.withLimit more) large) := by
  refine .after fun name => ?_
  split
  · exact .refl _
  · exact .take (assigned_approximates value) fun _ => .refl _

/-- A name and what is assigned to it in a table approximate. -/
theorem latentAssignment_approximates {what : String} {line : Nat}
    {make : String → String → Node → Sugar Node} :
    (latentAssignment env small what line make).Approximates env.limit Eq
      (latentAssignment (env.withLimit more) large what line make) :=
  .after fun _ => .after fun _ => .after fun _ => .take (assigned_approximates value) fun _ =>
    .refl _

/-- A condition with a table that may be named approximates. -/
theorem latentGuard_approximates :
    (latentGuard env small).Approximates env.limit Eq (latentGuard (env.withLimit more) large) := by
  refine .after fun table => ?_
  split
  · exact .after fun _ => .take (terminated_approximates value) fun _ => .refl _
  · exact .take (terminated_approximates value) fun _ => .refl _

include inner

/-- A choice between statements approximates. -/
theorem branching_approximates :
    (branching env small statement).Approximates env.limit Eq
      (branching (env.withLimit more) large statementToo) := by
  refine .after fun _ => .take (condition_approximates value) fun test => ?_
  refine .take (body_approximates inner) fun yes => ?_
  refine .bind (alternative_approximates inner) fun no _ same => ?_
  subst same
  exact .refl _

/-- A loop while a condition holds approximates. -/
theorem whileLoop_approximates :
    (whileLoop env small statement).Approximates env.limit Eq
      (whileLoop (env.withLimit more) large statementToo) :=
  .after fun _ => .take (condition_approximates value) fun _ =>
    .take (body_approximates inner) fun _ => .refl _

/-- A loop over a collection approximates. -/
theorem forLoop_approximates :
    (forLoop env small statement).Approximates env.limit Eq
      (forLoop (env.withLimit more) large statementToo) :=
  .after fun _ => .after fun _ => .after fun _ => .after fun _ => .take value fun _ =>
    .after fun _ => .take (body_approximates inner) fun _ => .refl _

/-- A name for a content inside a body approximates. -/
theorem latentMatch_approximates {line : Nat} :
    (latentMatch env small statement line).Approximates env.limit Eq
      (latentMatch (env.withLimit more) large statementToo line) :=
  .after fun _ => .after fun _ => .after fun _ => .after fun _ => .take value fun _ =>
    .take (body_approximates inner) fun _ => .refl _

/-- A statement on a table approximates. -/
theorem latent_approximates :
    (latent env small statement).Approximates env.limit Eq
      (latent (env.withLimit more) large statementToo) := by
  refine .after fun latent => .after fun next => ?_
  dsimp only
  split
  · exact .refl _
  split
  · exact .after fun _ => latentAssignment_approximates value
  split
  · exact .refl _
  split
  · exact .after fun _ => latentMatch_approximates value inner
  split
  · exact .after fun _ => latentGuard_approximates value
  split
  · exact .after fun _ => latentAssignment_approximates value
  split
  · exact .after fun _ => .after fun _ => latentAssignment_approximates value
  split
  · exact .after fun _ => latentScope_approximates inner
  · exact latentAssignment_approximates value

/-- A statement approximates when the expressions and statements inside it do. -/
theorem statementOf_approximates :
    (statementOf env small statement).Approximates env.limit Eq
      (statementOf (env.withLimit more) large statementToo) := by
  intro source
  show RunApproximates _ _ ((statementOf env small statement).run source)
    ((statementOf (env.withLimit more) large statementToo).run source)
  unfold Consumer.run statementOf
  rw [Environment.peek_withLimit]
  dsimp only
  split
  · exact binding_approximates value source
  split
  · exact binding_approximates value source
  split
  · exact branching_approximates value inner source
  split
  · exact whileLoop_approximates value inner source
  split
  · exact forLoop_approximates value inner source
  split
  · exact ending_approximates value source
  split
  · exact assertion_approximates value source
  split
  · exact usingTable_approximates inner source
  split
  · exact latent_approximates value inner source
  split
  · exact reassignment_approximates value source
  · exact terminated_approximates value source

end

end

/-- A statement with less room fails for the limit or is what it is with more room. -/
theorem statement_approximates {room roomToo : Nat} (le : room ≤ roomToo) (more : Nat)
    (env : Environment) :
    (statement room env).Approximates env.limit Eq (statement roomToo (env.withLimit more)) := by
  induction room generalizing roomToo env with
  | zero => exact .tooDeep
  | succ room ih =>
    obtain ⟨beyond, rfl⟩ : ∃ beyond, roomToo = beyond + 1 := ⟨roomToo - 1, by omega⟩
    have less : room ≤ beyond := by omega
    exact statementOf_approximates (level_approximates more less).expression (ih less)

section

variable {env : Environment} {more : Nat}

/-- Declarations are the same for every limit, and so is the environment after them, but for its
limit. -/
theorem declarations_approximates :
    (declarations env).Approximates env.limit
      (fun left right => right = left.withLimit more ∧ left.limit = env.limit)
      (declarations (env.withLimit more)) := by
  intro source
  induction size : source.length using Nat.strongRecOn generalizing env source with
  | ind size ih =>
    rw [run_declarations, run_declarations]
    split
    · refine (Consumer.Approximates.refl _ source).bind fun scope _ rest declared same => ?_
      subst same
      have shorter := Consumer.length_of_run declared
      exact @ih rest.length (by omega) { env with scope } rest rfl
    · exact .taken ⟨rfl, rfl⟩

/-- Parameters are the same for every limit. -/
theorem furtherParameters_approximates {block : String} {before : List String} {limit : Nat} :
    (furtherParameters env block before).Approximates limit Eq
      (furtherParameters (env.withLimit more) block before) := by
  intro source
  induction size : source.length using Nat.strongRecOn generalizing before source with
  | ind size ih =>
    rw [run_furtherParameters, run_furtherParameters, Environment.peek_withLimit]
    split
    · refine (Consumer.Approximates.refl _ source).bind fun parameter _ rest taken same => ?_
      subst same
      have shorter := Consumer.length_of_run taken
      exact ih rest.length (by omega) rest rfl
    · exact .taken rfl

/-- A block with less room fails for the limit or is what it is with more room. -/
theorem block_approximates (le : env.limit ≤ more) :
    (block env).Approximates env.limit Eq (block (env.withLimit more)) := by
  have statements (inner : Environment) (same : inner.limit = env.limit) :
      (body inner (statement env.limit)).Approximates env.limit Eq
        (body (inner.withLimit more) (statement more)) := by
    rw [← same]
    exact body_approximates (statement_approximates (same ▸ le) more)
  refine .after fun _ => .after fun name => ?_
  have parameters : (parameters env name.text).Approximates env.limit Eq
      (parameters (env.withLimit more) name.text) := by
    refine .after fun _ => .after fun next => ?_
    split
    · exact .refl _
    · refine .after fun first => .bind furtherParameters_approximates fun all _ same => ?_
      subst same
      exact .refl _
  refine .take parameters fun parameters => .after fun table => ?_
  refine .take ?_ fun statements => .refl _
  cases table with
  | none => exact statements env rfl
  | some table => exact statements (env.within table) rfl

/-- A block of a program with less room fails for the limit or is what it is with more room. -/
theorem blockOf_approximates (le : env.limit ≤ more) {program : String} :
    (blockOf env program).Approximates env.limit Eq (blockOf (env.withLimit more) program) := by
  intro source
  unfold Consumer.run blockOf
  split
  · exact Consumer.Approximates.refl (lateDeclaration env) source
  · have located : ((block env).mapFailure fun failure =>
        { failure with origin := some { source := some program } }).Approximates env.limit Eq
          ((block (env.withLimit more)).mapFailure fun failure =>
            { failure with origin := some { source := some program } }) :=
      (block_approximates le).mapFailure fun _ => rfl
    exact located source

/-- A program with less room fails for the limit or is what it is with more room. -/
theorem program_approximates (le : env.limit ≤ more) :
    (program env).Approximates env.limit Eq (program (env.withLimit more)) := by
  refine .bind declarations_approximates fun first _ ⟨same, limit⟩ => ?_
  subst same
  rw [← limit]
  refine .after fun _ => .after fun name => .after fun _ => ?_
  refine .bind declarations_approximates fun second _ ⟨same, limitToo⟩ => ?_
  subst same
  rw [← limitToo]
  have each : (blockOf second name.text).Approximates second.limit Eq
      (blockOf (second.withLimit more) name.text) :=
    blockOf_approximates (by omega)
  refine .bind (itemsUntil_approximates each) fun blocks _ same => ?_
  subst same
  refine .after fun _ => .after fun late => ?_
  exact .refl _

end

end Grammar

namespace Source

variable {settings : Settings}

/-- The limit does not matter for the pieces of source text. -/
theorem pieces_withLimit (limit : Nat) (source : List Char) :
    pieces { settings with maxDepth := limit } source = pieces settings source := by
  induction source using pieces.induct settings with
  | case1 => simp only [pieces]
  | case2 c rest found ih =>
    rw [pieces, pieces]
    exact congrArg (List.cons _) ih

/-- The limit does not matter for the tokens of source text. -/
theorem tokens_withLimit (limit : Nat) (source : String) :
    tokens { settings with maxDepth := limit } source = tokens settings source :=
  congrArg (tokensOf {}) (pieces_withLimit limit source.toList)

end Source

open Grammar

/-- What is read with less room is what is read with more room, or a failure for the limit. -/
theorem read_approximates {α : Type} {settings : Settings} {scope : Scope} {source : String}
    {less more : Nat} {parser : Environment → Parser α}
    (approximates : ∀ env : Environment, env.limit = less →
      (parser env).Approximates less Eq (parser (env.withLimit more))) :
    (∃ found line origin, Grammar.read { settings with maxDepth := less } scope source parser =
      .error { fault := .syntaxError (.tooDeep less) found line, origin }) ∨
    Grammar.read { settings with maxDepth := less } scope source parser =
      Grammar.read { settings with maxDepth := more } scope source parser := by
  have runs := approximates (start { settings with maxDepth := less } scope source) rfl
    (Source.tokens settings source)
  unfold Grammar.read
  rw [Source.tokens_withLimit less, Source.tokens_withLimit more, Parser.map_value_eq_map_run,
    Parser.map_value_eq_map_run]
  rcases runs.tooDeep_or_eq with ⟨⟨fault, origin⟩, failed, found, line, tooDeep⟩ | same
  · refine .inl ⟨found, line, origin, ?_⟩
    rw [failed]
    exact congrArg (fun fault => Except.error (Failure.mk fault origin)) tooDeep
  · exact .inr (congrArg (Except.map Prod.fst) same)

/-- An expression that is read with less room is read with more. -/
theorem parseExpression_eq_ok_of_le {settings : Settings} {scope : Scope} {source : String}
    {less more : Nat} (le : less ≤ more) {node : Node}
    (parsed : parseExpression { settings with maxDepth := less } scope source = .ok node) :
    parseExpression { settings with maxDepth := more } scope source = .ok node := by
  let whole (env : Environment) : Parser Node := do
    let node ← (level env env.limit).expression
    atEnd env
    return node
  have approximates (env : Environment) (limit : env.limit = less) :
      (whole env).Approximates less Eq (whole (env.withLimit more)) := by
    subst limit
    exact .take (level_approximates more le).expression fun node => .refl _
  rcases @read_approximates Node settings scope source less more whole approximates with
    ⟨found, line, origin, failed⟩ | same
  · cases failed.symm.trans parsed
  · exact same.symm.trans parsed

/-- The limit of nesting is transparent: an expression or a program that is read with less room is
read alike with more room, failures included, unless it is refused for being nested deeper than the
smaller limit. -/
theorem parse_eq_of_le_maxDepth {less more : Nat} (le : less ≤ more) (settings : Settings)
    (source : String) :
    (∀ scope,
      (∃ found line origin,
        parseExpression { settings with maxDepth := less } scope source =
          .error { fault := .syntaxError (.tooDeep less) found line, origin }) ∨
      parseExpression { settings with maxDepth := less } scope source =
        parseExpression { settings with maxDepth := more } scope source) ∧
    ((∃ found line origin,
        parseProgram { settings with maxDepth := less } source =
          .error { fault := .syntaxError (.tooDeep less) found line, origin }) ∨
      parseProgram { settings with maxDepth := less } source =
        parseProgram { settings with maxDepth := more } source) := by
  refine ⟨fun scope => ?_, ?_⟩
  · refine read_approximates fun env limit => ?_
    subst limit
    exact .take (level_approximates more le).expression fun node => .refl _
  · refine read_approximates fun env limit => ?_
    subst limit
    exact program_approximates le

/-- An expression that two levels have room for is the same tree with the default limit. -/
theorem parse_eq_of_le_maxDepth_two_levels :
    ∃ node, parseExpression { maxDepth := 2 } {} "(a)() + b |> f" = .ok node ∧
      parseExpression { maxDepth := 128 } {} "(a)() + b |> f" = .ok node := by
  have seen : (parseExpression { maxDepth := 2 } {} "(a)() + b |> f").toOption.isSome = true := by
    decide +kernel
  obtain ⟨node, parsed⟩ := Option.isSome_iff_exists.mp seen
  have parsed := ok_of_toOption_eq_some parsed
  refine ⟨node, parsed, ?_⟩
  have le : 2 ≤ 128 := by decide
  have alike := parse_eq_of_le_maxDepth le {} "(a)() + b |> f"
  rcases alike.1 {} with ⟨found, line, origin, failed⟩ | same
  · rw [parsed] at failed
    cases failed
  · exact same.symm.trans parsed

end ContentSpace

import ContentSpace.Proofs.Grammar.Height.Expression
import ContentSpace.Proofs.Grammar.Program

/-!
# How high programs become

A statement has one more level than the expressions and statements in it, or it is an expression up
to a semicolon. The statements in it have as many levels as an expression in their place could have,
so the nesting of statements costs no more levels than that of expressions, and the limit of nesting
bounds the height of all trees of a program by its square.
-/

namespace ContentSpace

namespace Grammar

section

variable {env : Environment} {levels : Nat} {expression : Consumer Node}
  {statement : Environment → Consumer Node}
  (value : expression.Ensures anyToken (Node.Fits levels))
  (inner : ∀ env : Environment, (statement env).Ensures anyToken (Node.Fits levels))

section
include inner

/-- The statements of a body fit. -/
theorem body_fits : (body env statement).Ensures anyToken
    fun statements => ∀ node ∈ statements, node.Fits levels := by
  refine .andThen symbol_ensures fun _ _ => ?_
  refine .bind (itemsUntil_ensures (inner env)) fun statements fit => ?_
  exact .skip symbol_ensures fun _ => .pure fit

/-- What follows `else` fits. -/
theorem alternative_fits : (alternative env statement).Ensures anyToken
    fun statements => ∀ node ∈ statements, node.Fits levels := by
  refine .peek fun next => ?_
  split
  · refine .skip keyword_ensures fun _ => .peek fun next => ?_
    split
    · exact .bind (.consumer (inner env)) fun node fits =>
        .pure (List.forall_mem_singleton.mpr fits)
    · exact .consumer (body_fits inner)
  · exact .pure (by simp)

/-- A body with an active table fits. -/
theorem usingTable_fits :
    (usingTable env statement).Ensures anyToken (Node.Fits (levels + 1)) := by
  refine .andThen keyword_ensures fun _ _ => .bind (.consumer name_ensures) fun word _ => ?_
  refine .bind (.check fun _ _ => trivial) fun table _ => ?_
  refine .bind (.consumer (body_fits inner)) fun statements fit => ?_
  exact .pure (Node.fits_succ_iff.mpr fit)

/-- A body with a scope of its own fits. -/
theorem latentScope_fits {line : Nat} :
    (latentScope env statement line).Ensures anyToken (Node.Fits (levels + 1)) := by
  refine .bind ascription_ensures fun table _ => .bind (.check fun _ _ => trivial) fun parent _ => ?_
  refine .bind (.consumer name_ensures) fun word _ => ?_
  refine .bind (.check fun _ _ => trivial) fun scope _ => ?_
  refine .bind (.consumer (body_fits inner)) fun statements fit => ?_
  exact .pure (Node.fits_succ_iff.mpr fit)

end

include value

/-- An expression up to a semicolon fits. -/
theorem terminated_fits : (terminated env expression).Ensures anyToken (Node.Fits levels) :=
  .andThen value fun _ fits => .skip symbol_ensures fun _ => .pure fits

/-- What is assigned fits. -/
theorem assigned_fits : (assigned env expression).Ensures anyToken (Node.Fits levels) :=
  .andThen operator_ensures fun _ _ => .consumer (terminated_fits value)

/-- A condition fits. -/
theorem condition_fits : (condition env expression).Ensures anyToken (Node.Fits levels) := by
  refine .andThen symbol_ensures fun _ _ => .bind (.consumer value) fun node fits => ?_
  exact .skip symbol_ensures fun _ => .pure fits

/-- A binding fits when its only child is what is assigned. -/
theorem binding_fits {word : String} {bind : String → Node → Node}
    (binds : ∀ name node, (bind name node).children = [node]) :
    (binding env expression word bind).Ensures anyToken (Node.Fits (levels + 1)) := by
  refine .andThen keyword_ensures fun _ _ => .bind (.consumer name_ensures) fun name _ => ?_
  refine .bind (.consumer (assigned_fits value)) fun node fits => .pure ?_
  rw [Node.fits_succ_iff, binds]
  exact List.forall_mem_singleton.mpr fits

/-- The end of a block fits. -/
theorem ending_fits : (ending env expression).Ensures anyToken (Node.Fits (levels + 1)) := by
  refine .andThen keyword_ensures fun _ _ => .peek fun next => ?_
  split
  · exact .skip symbol_ensures fun _ => .pure (Node.fits_succ_iff.mpr (by simp [Node.children]))
  · refine .bind (.consumer (terminated_fits value)) fun result fits => ?_
    exact .pure (Node.fits_succ_iff.mpr (by simpa [Node.children] using fits))

/-- An assertion fits. -/
theorem assertion_fits : (assertion env expression).Ensures anyToken (Node.Fits (levels + 1)) := by
  refine .andThen keyword_ensures fun _ _ => ?_
  refine .bind (.consumer (terminated_fits value)) fun node fits => ?_
  exact .pure (Node.fits_succ_iff.mpr (List.forall_mem_singleton.mpr fits))

/-- A name bound again fits. -/
theorem reassignment_fits :
    (reassignment env expression).Ensures anyToken (Node.Fits (levels + 1)) := by
  refine .andThen name_ensures fun name _ => ?_
  split
  · exact .refuse
  · refine .bind (.consumer (assigned_fits value)) fun node fits => ?_
    exact .pure (Node.fits_succ_iff.mpr (List.forall_mem_singleton.mpr fits))

/-- A name and what is assigned to it in a table fit when that is their only child. -/
theorem latentAssignment_fits {what : String} {line : Nat}
    {make : String → String → Node → Sugar Node}
    (makes : ∀ name table node, (make name table node).children = [node]) :
    (latentAssignment env expression what line make).Ensures anyToken
      (Node.Fits (levels + 1)) := by
  refine .bind ascription_ensures fun table _ => .bind (.check fun _ _ => trivial) fun table _ => ?_
  refine .bind (.consumer name_ensures) fun name _ => ?_
  refine .bind (.consumer (assigned_fits value)) fun node fits => .pure ?_
  rw [Node.fits_succ_iff, Node.children, makes]
  exact List.forall_mem_singleton.mpr fits

/-- A condition with a table that may be named fits. -/
theorem latentGuard_fits :
    (latentGuard env expression).Ensures anyToken (Node.Fits (levels + 1)) := by
  have guarded : Parser.Ensures anyToken (do
      let node ← terminated env expression
      return Node.sugar (.guard node)) (Node.Fits (levels + 1)) :=
    .bind (.consumer (terminated_fits value)) fun node fits =>
      .pure (Node.fits_succ_iff.mpr (List.forall_mem_singleton.mpr fits))
  refine .bind ascription_ensures fun table _ => ?_
  split
  · exact .bind (.check fun _ _ => trivial) fun _ _ => guarded
  · exact guarded

omit value in
/-- A snapshot of a table fits. -/
theorem latentSnapshot_fits {line : Nat} :
    (latentSnapshot env line).Ensures anyToken (Node.Fits (levels + 1)) := by
  refine .bind ascription_ensures fun table _ => .bind (.check fun _ _ => trivial) fun table _ => ?_
  refine .bind (.consumer name_ensures) fun name _ => .skip symbol_ensures fun _ => .pure ?_
  exact Node.fits_succ_iff.mpr (by simp [Node.children, Sugar.children])

include inner

/-- A choice between statements fits. -/
theorem branching_fits :
    (branching env expression statement).Ensures anyToken (Node.Fits (levels + 1)) := by
  refine .andThen keyword_ensures fun _ _ => ?_
  refine .bind (.consumer (condition_fits value)) fun condition test => ?_
  refine .bind (.consumer (body_fits inner)) fun yes first => ?_
  refine .bind (alternative_fits inner) fun no second => .pure ?_
  exact Node.fits_succ_iff.mpr
    (List.forall_mem_append.mpr ⟨List.forall_mem_cons.mpr ⟨test, first⟩, second⟩)

/-- A loop while a condition holds fits. -/
theorem whileLoop_fits :
    (whileLoop env expression statement).Ensures anyToken (Node.Fits (levels + 1)) := by
  refine .andThen keyword_ensures fun _ _ => ?_
  refine .bind (.consumer (condition_fits value)) fun condition test => ?_
  refine .bind (.consumer (body_fits inner)) fun statements fit => ?_
  exact .pure (Node.fits_succ_iff.mpr (List.forall_mem_cons.mpr ⟨test, fit⟩))

/-- A loop over a collection fits. -/
theorem forLoop_fits :
    (forLoop env expression statement).Ensures anyToken (Node.Fits (levels + 1)) := by
  refine .andThen keyword_ensures fun _ _ => .skip symbol_ensures fun _ => ?_
  refine .bind (.consumer name_ensures) fun name _ => .skip keyword_ensures fun _ => ?_
  refine .bind (.consumer value) fun iterable source => .skip symbol_ensures fun _ => ?_
  refine .bind (.consumer (body_fits inner)) fun statements fit => ?_
  exact .pure (Node.fits_succ_iff.mpr (List.forall_mem_cons.mpr ⟨source, fit⟩))

/-- A name for a content inside a body fits. -/
theorem latentMatch_fits {line : Nat} :
    (latentMatch env expression statement line).Ensures anyToken (Node.Fits (levels + 1)) := by
  refine .bind ascription_ensures fun table _ => .bind (.check fun _ _ => trivial) fun table _ => ?_
  refine .bind (.consumer name_ensures) fun name _ => .skip operator_ensures fun _ => ?_
  refine .bind (.consumer value) fun handle head => ?_
  refine .bind (.consumer (body_fits inner)) fun statements fit => ?_
  exact .pure (Node.fits_succ_iff.mpr (List.forall_mem_cons.mpr ⟨head, fit⟩))

/-- A statement on a table fits. -/
theorem latent_fits :
    (latent env expression statement).Ensures anyToken (Node.Fits (levels + 1)) := by
  refine .andThen keyword_ensures fun latent _ => .peek fun next => ?_
  dsimp only
  split
  · exact .skip keyword_ensures fun _ => .bind (.consumer name_ensures) fun _ _ => .refuse
  split
  · exact .skip keyword_ensures fun _ => latentAssignment_fits value fun _ _ _ => rfl
  split
  · exact .skip keyword_ensures fun _ => latentSnapshot_fits
  split
  · exact .skip keyword_ensures fun _ => latentMatch_fits value inner
  split
  · exact .skip keyword_ensures fun _ => latentGuard_fits value
  split
  · exact .skip keyword_ensures fun _ => latentAssignment_fits value fun _ _ _ => rfl
  split
  · exact .skip keyword_ensures fun _ => .skip keyword_ensures fun _ =>
      latentAssignment_fits value fun _ _ _ => rfl
  split
  · exact .skip keyword_ensures fun _ => latentScope_fits inner
  · exact latentAssignment_fits value fun _ _ _ => rfl

/-- A statement has at most one more level than the expressions and statements in it. -/
theorem statementOf_fits :
    (statementOf env expression statement).Ensures anyToken (Node.Fits (levels + 1)) := by
  intro source consumed passed run
  unfold statementOf at run
  dsimp only at run
  split at run
  · exact binding_fits value (fun _ _ => rfl) passed run
  split at run
  · exact binding_fits value (fun _ _ => rfl) passed run
  split at run
  · exact branching_fits value inner passed run
  split at run
  · exact whileLoop_fits value inner passed run
  split at run
  · exact forLoop_fits value inner passed run
  split at run
  · exact ending_fits value passed run
  split at run
  · exact assertion_fits value passed run
  split at run
  · exact usingTable_fits inner passed run
  split at run
  · exact latent_fits value inner passed run
  split at run
  · exact reassignment_fits value passed run
  · exact (terminated_fits value).weaken (fun _ fits => fits.mono (Nat.le_succ _)) passed run

end

/-- A statement fits the levels of an expression with the same room. -/
theorem statement_fits (room : Nat) (env : Environment) :
    (statement room env).Ensures anyToken (Node.Fits (expressionLevels room)) := by
  induction room generalizing env with
  | zero => exact .fail
  | succ room ih =>
    have value := (level_bounds env room).expression.weaken fun _ tree => tree.fits
    refine (statementOf_fits value ih).weaken fun node fits => fits.mono ?_
    rw [expressionLevels]
    omega

variable {env : Environment}

/-- The statements of a block fit. -/
theorem block_fits : (block env).Ensures anyToken
    fun block : Block => ∀ node ∈ block.body, node.Fits (expressionLevels env.limit) := by
  refine .andThen keyword_ensures fun _ _ => .bind (.consumer name_ensures) fun name _ => ?_
  refine .bind (.consumer parameters_ensures) fun parameters _ => ?_
  refine .bind activeTable_ensures fun active _ => ?_
  exact .bind (.consumer (body_fits (statement_fits env.limit))) fun body fit => .pure fit

/-- The statements of a block of a program fit. -/
theorem blockOf_fits {program : String} : (blockOf env program).Ensures anyToken
    fun block : Block => ∀ node ∈ block.body, node.Fits (expressionLevels env.limit) := by
  intro source consumed passed run
  unfold blockOf at run
  split at run
  · have late : (lateDeclaration env).Ensures anyToken
        fun block : Block => ∀ node ∈ block.body, node.Fits (expressionLevels env.limit) :=
      .andThen declaration_ensures fun _ _ => .refuse
    exact late passed run
  · exact block_fits.mapFailure passed run

/-- Declarations do not change the limit. -/
theorem declarations_limit {limit : Nat} (same : env.limit = limit) :
    (declarations env).Ensures anyToken fun env => env.limit = limit :=
  declarations_keep (fun _ same => .andThen declaration_ensures fun _ _ => .check fun _ _ => same)
    same

/-- The statements of a program fit. -/
theorem program_fits : (program env).Ensures anyToken
    fun program : Program => ∀ node ∈ program.statements, node.Fits (expressionLevels env.limit) := by
  refine .bind (declarations_limit rfl) fun first limit => .skip keyword_ensures fun _ => ?_
  refine .bind (.consumer name_ensures) fun name _ => .skip symbol_ensures fun _ => ?_
  refine .bind (declarations_limit limit) fun second limit => ?_
  refine .bind (itemsUntil_ensures blockOf_fits) fun blocks fit => .skip symbol_ensures fun _ => ?_
  have looked : Parser.Ensures anyToken (atDeclaration <$> Parser.ahead) fun _ => True :=
    .bind .ahead fun _ _ => .pure trivial
  refine .bind looked fun late _ => ?_
  split
  · exact .consumer (.andThen declaration_ensures fun _ _ => .refuse)
  · refine .bind atEnd_ensures fun _ _ => .pure fun node member => ?_
    obtain ⟨block, inside, here⟩ := List.mem_flatMap.mp member
    exact limit ▸ fit block inside node here

end Grammar

open Grammar

/-- The limit of nesting bounds the height of trees by its square: no way from the root of a parsed
expression or statement down meets more than `d * (3 * d + 1) / 2` nodes. -/
theorem height_le_of_parse (settings : Settings) (source : String) :
    (∀ scope node, parseExpression settings scope source = .ok node →
      ∀ place inner, node.at? place = some inner →
        2 * (place.length + 1) ≤ settings.maxDepth * (3 * settings.maxDepth + 1)) ∧
    (∀ program, parseProgram settings source = .ok program → ∀ node ∈ program.statements,
      ∀ place inner, node.at? place = some inner →
        2 * (place.length + 1) ≤ settings.maxDepth * (3 * settings.maxDepth + 1)) := by
  have bound {node : Node} (fits : node.Fits (expressionLevels settings.maxDepth))
      (place : List Nat) (inner : Node) (found : node.at? place = some inner) :
      2 * (place.length + 1) ≤ settings.maxDepth * (3 * settings.maxDepth + 1) := by
    rw [← two_mul_expressionLevels]
    exact Nat.mul_le_mul_left 2 (fits place inner found)
  have passed (token : Token) (_ : token ∈ Source.tokens settings source) : anyToken token :=
    fun _ => trivial
  constructor
  · intro scope node parsed
    have fits (env : Environment) :=
      (level_bounds env env.limit).expression.weaken fun _ tree => tree.fits
    exact bound (of_read (.bind (.consumer (fits _)) fun node fits =>
      .bind atEnd_ensures fun _ _ => .pure fits) passed parsed)
  · intro program parsed node member
    exact bound (of_read program_fits passed parsed node member)

/-- With two levels of nesting, a tree may be seven nodes high and no higher. -/
theorem height_le_of_parse_two_levels :
    let source := "new 1(new 1())() + a |> f"
    ∃ node inner, parseExpression { maxDepth := 2 } {} source = .ok node ∧
      node.at? [0, 0, 0, 1, 1, 0] = some inner ∧
      ∀ place inner, node.at? place = some inner → 2 * (place.length + 1) ≤ 2 * (3 * 2 + 1) := by
  intro source
  have seen : ((parseExpression { maxDepth := 2 } {} source).toOption.bind
      (·.at? [0, 0, 0, 1, 1, 0])).isSome = true := by
    decide +kernel
  obtain ⟨inner, found⟩ := Option.isSome_iff_exists.mp seen
  obtain ⟨node, parsed, found⟩ := Option.bind_eq_some_iff.mp found
  have parsed := ok_of_toOption_eq_some parsed
  exact ⟨node, inner, parsed, found,
    (height_le_of_parse { maxDepth := 2 } source).1 {} node parsed⟩

/-- The height of a tree is not bounded by four nodes for each level of nesting: with four levels,
the square is reached. -/
theorem exists_parseExpression_height_eq :
    let source := "new 1(new 1(new 1(new 1())() + a |> f)()() + a + a |> f |> f)()()() + a + a + a" ++
      " |> f |> f |> f"
    let place := [0, 0, 0, 0, 0, 0, 0, 0, 0, 1, 1, 0, 0, 0, 0, 0, 0, 1, 1, 0, 0, 0, 1, 1, 0]
    ∃ node inner, parseExpression { maxDepth := 4 } {} source = .ok node ∧
      node.at? place = some inner ∧ 2 * (place.length + 1) = 4 * (3 * 4 + 1) ∧
      4 * (4 + 1) < place.length + 1 := by
  intro source place
  have seen : ((parseExpression { maxDepth := 4 } {} source).toOption.bind
      (·.at? place)).isSome = true := by
    decide +kernel
  obtain ⟨inner, found⟩ := Option.isSome_iff_exists.mp seen
  obtain ⟨node, parsed, found⟩ := Option.bind_eq_some_iff.mp found
  exact ⟨node, inner, ok_of_toOption_eq_some parsed, found, by decide, by decide⟩

end ContentSpace

import ContentSpace.Grammar.Statement
import ContentSpace.Proofs.Grammar.Expression

/-!
# What statements build

Every statement builds a tree whose names are identifiers of the source and whose tables are known
in the scope it is read in. A body that has a table or a scope of its own is read in a scope where
the active tables are known as well, so the same holds of its statements there.
-/

namespace ContentSpace

namespace Scope

variable {scope inner : Scope} {name table : String} {line : Nat}

/-- A known table can be made active. -/
theorem Grounded.activate (grounded : scope.Grounded) (known : table ∈ scope.known) :
    (scope.activate table).Grounded :=
  List.forall_mem_cons.mpr ⟨known, grounded⟩

/-- An opened scope has a new name, which is known in it, and its active tables are known. -/
theorem Grounded.openScope (grounded : scope.Grounded)
    (opened : scope.openScope name line = .ok inner) :
    name ∉ scope.known ∧ inner.known = name :: scope.known ∧ inner.Grounded := by
  unfold Scope.openScope at opened
  split at opened
  case isTrue => cases opened
  case isFalse unknown =>
    cases opened
    refine ⟨fun member => unknown (isKnown_iff.mpr member), rfl, ?_⟩
    refine List.forall_mem_cons.mpr ⟨List.mem_cons_self .., fun table active => ?_⟩
    exact List.mem_cons_of_mem _ (grounded table active)

end Scope

namespace Grammar

section

variable {isName : String → Prop} {env : Environment} {expression : Consumer Node}
  {statement : Environment → Consumer Node}
  (grounded : env.scope.Grounded)
  (value : expression.Ensures (Spells isName) (Built isName env.scope.known))
  (inner : ∀ env : Environment, env.scope.Grounded →
    (statement env).Ensures (Spells isName) (Built isName env.scope.known))

section
include grounded inner

/-- The statements of a body build trees. -/
theorem body_builds : (body env statement).Ensures (Spells isName)
    fun statements => ∀ node ∈ statements, Built isName env.scope.known node := by
  refine .andThen symbol_ensures fun _ _ => ?_
  refine .bind (itemsUntil_ensures (inner env grounded)) fun statements built => ?_
  exact .skip symbol_ensures fun _ => .pure built

/-- What follows `else` builds trees. -/
theorem alternative_builds : (alternative env statement).Ensures (Spells isName)
    fun statements => ∀ node ∈ statements, Built isName env.scope.known node := by
  refine .peek fun next => ?_
  split
  · refine .skip keyword_ensures fun _ => .peek fun next => ?_
    split
    · exact .bind (.consumer (inner env grounded)) fun node built =>
        .pure (List.forall_mem_singleton.mpr built)
    · exact .consumer (body_builds grounded inner)
  · exact .pure (by simp)

/-- A body with an active table builds a tree. -/
theorem usingTable_builds :
    (usingTable env statement).Ensures (Spells isName) (Built isName env.scope.known) := by
  refine .andThen keyword_ensures fun _ _ => ?_
  refine .bind (.consumer name_ensures) fun word _ => ?_
  refine .bind (.check fun table => Scope.of_require) fun table ⟨_, known⟩ => ?_
  have within : (env.within table).scope.Grounded := grounded.activate known
  refine .bind (.consumer (body_builds within inner)) fun statements built => ?_
  exact .pure (.within known built)

/-- A body with a scope of its own builds a tree. -/
theorem latentScope_builds {line : Nat} :
    (latentScope env statement line).Ensures (Spells isName) (Built isName env.scope.known) := by
  refine .bind ascription_ensures fun table _ => ?_
  refine .bind (.check fun parent => of_ascribed grounded) fun parent outer => ?_
  refine .bind (.consumer name_ensures) fun word ⟨spells, kind⟩ => ?_
  refine .bind (.check fun scope => grounded.openScope) fun scope ⟨fresh, known, within⟩ => ?_
  refine .bind (.consumer (body_builds within inner)) fun statements built => ?_
  exact .pure (.scope (spells kind) fresh outer (known ▸ built))

end

include value

/-- An expression up to a semicolon builds a tree. -/
theorem terminated_builds :
    (terminated env expression).Ensures (Spells isName) (Built isName env.scope.known) :=
  .andThen value fun _ built => .skip symbol_ensures fun _ => .pure built

/-- What is assigned builds a tree. -/
theorem assigned_builds :
    (assigned env expression).Ensures (Spells isName) (Built isName env.scope.known) :=
  .andThen operator_ensures fun _ _ => .consumer (terminated_builds value)

/-- A condition builds a tree. -/
theorem condition_builds :
    (condition env expression).Ensures (Spells isName) (Built isName env.scope.known) := by
  refine .andThen symbol_ensures fun _ _ => .bind (.consumer value) fun node built => ?_
  exact .skip symbol_ensures fun _ => .pure built

/-- A binding builds a tree. -/
theorem binding_builds {word : String} {bind : String → Node → Node}
    (binds : ∀ {name node}, isName name → Built isName env.scope.known node →
      Built isName env.scope.known (bind name node)) :
    (binding env expression word bind).Ensures (Spells isName) (Built isName env.scope.known) := by
  refine .andThen keyword_ensures fun _ _ => ?_
  refine .bind (.consumer name_ensures) fun name ⟨spells, kind⟩ => ?_
  refine .bind (.consumer (assigned_builds value)) fun node built => ?_
  exact .pure (binds (spells kind) built)

/-- The end of a block builds a tree. -/
theorem ending_builds :
    (ending env expression).Ensures (Spells isName) (Built isName env.scope.known) := by
  refine .andThen keyword_ensures fun _ _ => .peek fun next => ?_
  split
  · exact .skip symbol_ensures fun _ => .pure (.finish (by simp))
  · refine .bind (.consumer (terminated_builds value)) fun result built => ?_
    exact .pure (.finish (by simpa using built))

/-- An assertion builds a tree. -/
theorem assertion_builds :
    (assertion env expression).Ensures (Spells isName) (Built isName env.scope.known) := by
  refine .andThen keyword_ensures fun _ _ => ?_
  refine .bind (.consumer (terminated_builds value)) fun node built => ?_
  exact .pure (.apply (List.forall_mem_singleton.mpr built))

/-- A name bound again builds a tree. -/
theorem reassignment_builds :
    (reassignment env expression).Ensures (Spells isName) (Built isName env.scope.known) := by
  refine .andThen name_ensures fun name ⟨spells, kind⟩ => ?_
  split
  · exact .refuse
  next single =>
    refine .bind (.consumer (assigned_builds value)) fun node built => ?_
    exact .pure (.assign (spells kind) (fun _ => by simpa using single) built)

/-- A condition with a table that may be named builds a tree. -/
theorem latentGuard_builds :
    (latentGuard env expression).Ensures (Spells isName) (Built isName env.scope.known) := by
  refine .bind ascription_ensures fun table _ => ?_
  split
  · refine .bind (.check fun _ _ => trivial) fun _ _ => ?_
    exact .bind (.consumer (terminated_builds value)) fun node built => .pure (.guard built)
  · exact .bind (.consumer (terminated_builds value)) fun node built => .pure (.guard built)

section
include grounded

/-- A name and what is assigned to it in a table build a tree. -/
theorem latentAssignment_builds {what : String} {line : Nat}
    {make : String → String → Node → Sugar Node}
    (makes : ∀ {name table node}, isName name → table ∈ env.scope.known →
      Built isName env.scope.known node →
      Built isName env.scope.known (.sugar (make name table node))) :
    (latentAssignment env expression what line make).Ensures (Spells isName)
      (Built isName env.scope.known) := by
  refine .bind ascription_ensures fun table _ => ?_
  refine .bind (.check fun table => of_ascribed grounded) fun table known => ?_
  refine .bind (.consumer name_ensures) fun name ⟨spells, kind⟩ => ?_
  refine .bind (.consumer (assigned_builds value)) fun node built => ?_
  exact .pure (makes (spells kind) known built)

omit value in
/-- A snapshot of a table builds a tree. -/
theorem latentSnapshot_builds {line : Nat} :
    (latentSnapshot env line).Ensures (Spells isName) (Built isName env.scope.known) := by
  refine .bind ascription_ensures fun table _ => ?_
  refine .bind (.check fun table => of_ascribed grounded) fun table known => ?_
  refine .bind (.consumer name_ensures) fun name ⟨spells, kind⟩ => ?_
  exact .skip symbol_ensures fun _ => .pure (.bindSnapshot (spells kind) known)

include inner

/-- A choice between statements builds a tree. -/
theorem branching_builds :
    (branching env expression statement).Ensures (Spells isName)
      (Built isName env.scope.known) := by
  refine .andThen keyword_ensures fun _ _ => ?_
  refine .bind (.consumer (condition_builds value)) fun condition test => ?_
  refine .bind (.consumer (body_builds grounded inner)) fun yes first => ?_
  refine .bind (alternative_builds grounded inner) fun no second => ?_
  exact .pure (.branch test first second)

/-- A loop while a condition holds builds a tree. -/
theorem whileLoop_builds :
    (whileLoop env expression statement).Ensures (Spells isName)
      (Built isName env.scope.known) := by
  refine .andThen keyword_ensures fun _ _ => ?_
  refine .bind (.consumer (condition_builds value)) fun condition test => ?_
  refine .bind (.consumer (body_builds grounded inner)) fun statements built => ?_
  exact .pure (.whileLoop test built)

/-- A loop over a collection builds a tree. -/
theorem forLoop_builds :
    (forLoop env expression statement).Ensures (Spells isName) (Built isName env.scope.known) := by
  refine .andThen keyword_ensures fun _ _ => .skip symbol_ensures fun _ => ?_
  refine .bind (.consumer name_ensures) fun name ⟨spells, kind⟩ => .skip keyword_ensures fun _ => ?_
  refine .bind (.consumer value) fun iterable source => .skip symbol_ensures fun _ => ?_
  refine .bind (.consumer (body_builds grounded inner)) fun statements built => ?_
  exact .pure (.forLoop (spells kind) source built)

/-- A name for a content inside a body builds a tree. -/
theorem latentMatch_builds {line : Nat} :
    (latentMatch env expression statement line).Ensures (Spells isName)
      (Built isName env.scope.known) := by
  refine .bind ascription_ensures fun table _ => ?_
  refine .bind (.check fun table => of_ascribed grounded) fun table known => ?_
  refine .bind (.consumer name_ensures) fun name ⟨spells, kind⟩ => ?_
  refine .skip operator_ensures fun _ => ?_
  refine .bind (.consumer value) fun handle head => ?_
  refine .bind (.consumer (body_builds grounded inner)) fun statements built => ?_
  exact .pure (.bindInside (spells kind) known head built)

/-- A statement on a table builds a tree. -/
theorem latent_builds :
    (latent env expression statement).Ensures (Spells isName) (Built isName env.scope.known) := by
  refine .andThen keyword_ensures fun latent _ => .peek fun next => ?_
  dsimp only
  split
  · exact .skip keyword_ensures fun _ => .bind (.consumer name_ensures) fun _ _ => .refuse
  split
  · exact .skip keyword_ensures fun _ => latentAssignment_builds grounded value .bindContent
  split
  · exact .skip keyword_ensures fun _ => latentSnapshot_builds grounded
  split
  · exact .skip keyword_ensures fun _ => latentMatch_builds grounded value inner
  split
  · exact .skip keyword_ensures fun _ => latentGuard_builds value
  split
  · exact .skip keyword_ensures fun _ => latentAssignment_builds grounded value .batch
  split
  · exact .skip keyword_ensures fun _ => .skip keyword_ensures fun _ =>
      latentAssignment_builds grounded value .batch
  split
  · exact .skip keyword_ensures fun _ => latentScope_builds grounded inner
  · exact latentAssignment_builds grounded value .bind

/-- A statement builds a tree when the expressions and statements inside it do. -/
theorem statementOf_builds :
    (statementOf env expression statement).Ensures (Spells isName)
      (Built isName env.scope.known) := by
  intro source consumed passed run
  unfold statementOf at run
  dsimp only at run
  split at run
  · exact binding_builds value (fun named built => .assign named (by simp) built) passed run
  split at run
  · exact binding_builds value .assignLocal passed run
  split at run
  · exact branching_builds grounded value inner passed run
  split at run
  · exact whileLoop_builds grounded value inner passed run
  split at run
  · exact forLoop_builds grounded value inner passed run
  split at run
  · exact ending_builds value passed run
  split at run
  · exact assertion_builds value passed run
  split at run
  · exact usingTable_builds grounded inner passed run
  split at run
  · exact latent_builds grounded value inner passed run
  split at run
  · exact reassignment_builds value passed run
  · exact terminated_builds value passed run

end

end

/-- Statements build trees, whatever room is left for them. -/
theorem statement_builds {isName : String → Prop} (room : Nat) (env : Environment)
    (grounded : env.scope.Grounded) :
    (statement room env).Ensures (Spells isName) (Built isName env.scope.known) := by
  induction room generalizing env with
  | zero => exact .fail
  | succ room ih => exact statementOf_builds grounded (level_builds grounded room).expression ih

end Grammar

end ContentSpace

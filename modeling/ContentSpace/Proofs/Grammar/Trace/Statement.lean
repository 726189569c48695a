import ContentSpace.Grammar.Statement
import ContentSpace.Proofs.Grammar.Trace.Expression

/-!
# What statements take and what they blame

No declaration starts in a statement: the statement that starts with both keywords of a declaration
is refused once its name is read. A fault of an operation that lacks a table is on the line of the
keyword the statement starts with.
-/

namespace ContentSpace.Grammar

/-- The fault of a scope that is open or declared already points at its name. -/
theorem pointsAt_of_openScope {scope : Scope} {known : Token → Prop} {fault : Fault} {token : Token}
    (here : known token) (kind : token.kind = .identifier)
    (failed : scope.openScope token.text token.line = .error fault) : fault.PointsAt known := by
  unfold Scope.openScope at failed
  split at failed
  · cases failed
    exact .duplicateTable here kind
  · cases failed

section

variable {known prior : Token → Prop} {env : Environment} {expression : Consumer Node}
  {statement : Environment → Consumer Node} (finish : known env.finish)
  (value : expression.Traces known afterAny fun _ => True)
  (inner : ∀ env : Environment, known env.finish →
    (statement env).Traces known afterAny fun _ => True)

section
include finish

include inner

/-- The statements of a body are traced. -/
theorem body_traces : (body env statement).Traces known prior fun _ => True := by
  refine .andThen (symbol_traces finish) fun _ _ => ?_
  refine .bind (itemsUntil_traces (inner env finish)) fun statements _ => ?_
  exact .skip (symbol_traces finish) fun _ => .pure trivial

/-- What follows `else` is traced. -/
theorem alternative_traces : (alternative env statement).Traces known fun _ => True := by
  refine .peek finish fun next _ => ?_
  split
  · refine .skip (keyword_traces finish (by decide)) fun _ => .peek finish fun next _ => ?_
    split
    · exact .skip (inner env finish) fun node => .pure trivial
    · exact .consumer (body_traces finish inner)
  · exact .pure trivial

/-- A body with an active table is traced. -/
theorem usingTable_traces : (usingTable env statement).Traces known prior fun _ => True := by
  refine .andThen (keyword_traces finish (by decide)) fun _ _ => ?_
  refine .bind (.consumer (name_traces finish)) fun word ⟨here, kind⟩ => ?_
  refine .bind (.check (fun _ _ => trivial) fun _ => Scope.pointsAt_of_require here kind) ?_
  intro table _
  have within : known (env.within table).finish := finish
  exact .skip (body_traces within inner) fun statements => .pure trivial

/-- A body with a scope of its own is traced. -/
theorem latentScope_traces {latent : Token} (start : known latent) :
    (latentScope env statement latent.line).Traces known fun _ => True := by
  refine .bind (ascription_traces finish) fun table known_table => ?_
  refine .bind (.check (fun _ _ => trivial) fun _ => pointsAt_of_ascribed known_table start) ?_
  intro parent _
  refine .bind (.consumer (name_traces finish)) fun word ⟨here, kind⟩ => ?_
  refine .bind (.check (fun _ _ => trivial) fun _ => pointsAt_of_openScope here kind) ?_
  intro scope _
  have within : known { env with scope }.finish := finish
  exact .skip (body_traces within inner) fun statements => .pure trivial

end

include finish value

/-- An expression up to a semicolon is traced. -/
theorem terminated_traces : (terminated env expression).Traces known afterAny fun _ => True :=
  .andThen value fun _ _ => .skip (symbol_traces finish) fun _ => .pure trivial

/-- What is assigned is traced. -/
theorem assigned_traces : (assigned env expression).Traces known prior fun _ => True :=
  .andThen (operator_traces finish) fun _ _ => .consumer (terminated_traces finish value)

/-- A condition is traced. -/
theorem condition_traces : (condition env expression).Traces known prior fun _ => True := by
  refine .andThen (symbol_traces finish) fun _ _ => .skip value fun node => ?_
  exact .skip (symbol_traces finish) fun _ => .pure trivial

/-- A binding is traced. -/
theorem binding_traces {word : String} {bind : String → Node → Node} (other : word ≠ "table") :
    (binding env expression word bind).Traces known prior fun _ => True := by
  refine .andThen (keyword_traces finish other) fun _ _ => ?_
  refine .skip (name_traces finish) fun name => ?_
  exact .skip (assigned_traces finish value) fun node => .pure trivial

/-- The end of a block is traced. -/
theorem ending_traces : (ending env expression).Traces known prior fun _ => True := by
  refine .andThen (keyword_traces finish (by decide)) fun _ _ => .peek finish fun next _ => ?_
  split
  · exact .skip (symbol_traces finish) fun _ => .pure trivial
  · exact .skip (terminated_traces finish value) fun result => .pure trivial

/-- An assertion is traced. -/
theorem assertion_traces : (assertion env expression).Traces known prior fun _ => True := by
  refine .andThen (keyword_traces finish (by decide)) fun _ _ => ?_
  exact .skip (terminated_traces finish value) fun node => .pure trivial

/-- A name bound again is traced. -/
theorem reassignment_traces : (reassignment env expression).Traces known prior fun _ => True := by
  refine .andThen (name_traces finish) fun name ⟨here, _⟩ => ?_
  split
  · exact .refuse (.described here)
  · exact .skip (assigned_traces finish value) fun node => .pure trivial

/-- A condition with a table that may be named is traced. -/
theorem latentGuard_traces : (latentGuard env expression).Traces known fun _ => True := by
  refine .bind (ascription_traces finish) fun table known_table => ?_
  split
  case h_1 table =>
    obtain ⟨here, kind⟩ := known_table table rfl
    refine .bind (.check (fun _ _ => trivial) fun _ => Scope.pointsAt_of_require here kind) ?_
    exact fun _ _ => .skip (terminated_traces finish value) fun node => .pure trivial
  case h_2 => exact .skip (terminated_traces finish value) fun node => .pure trivial

section

variable {latent : Token} (start : known latent)
include start

/-- A name and what is assigned to it in a table are traced. -/
theorem latentAssignment_traces {what : String} {make : String → String → Node → Sugar Node} :
    (latentAssignment env expression what latent.line make).Traces known fun _ => True := by
  refine .bind (ascription_traces finish) fun table known_table => ?_
  refine .bind (.check (fun _ _ => trivial) fun _ => pointsAt_of_ascribed known_table start) ?_
  intro table _
  refine .skip (name_traces finish) fun name => ?_
  exact .skip (assigned_traces finish value) fun node => .pure trivial

omit value in
/-- A snapshot of a table is traced. -/
theorem latentSnapshot_traces : (latentSnapshot env latent.line).Traces known fun _ => True := by
  refine .bind (ascription_traces finish) fun table known_table => ?_
  refine .bind (.check (fun _ _ => trivial) fun _ => pointsAt_of_ascribed known_table start) ?_
  intro table _
  refine .skip (name_traces finish) fun name => ?_
  exact .skip (symbol_traces finish) fun _ => .pure trivial

include inner

/-- A name for a content inside a body is traced. -/
theorem latentMatch_traces :
    (latentMatch env expression statement latent.line).Traces known fun _ => True := by
  refine .bind (ascription_traces finish) fun table known_table => ?_
  refine .bind (.check (fun _ _ => trivial) fun _ => pointsAt_of_ascribed known_table start) ?_
  intro table _
  refine .skip (name_traces finish) fun name => .skip (operator_traces finish) fun _ => ?_
  refine .skip value fun handle => ?_
  exact .skip (body_traces finish inner) fun statements => .pure trivial

end

include inner

/-- A choice between statements is traced. -/
theorem branching_traces :
    (branching env expression statement).Traces known prior fun _ => True := by
  refine .andThen (keyword_traces finish (by decide)) fun _ _ => ?_
  refine .skip (condition_traces finish value) fun condition => ?_
  refine .skip (body_traces finish inner) fun yes => ?_
  exact .bind (alternative_traces finish inner) fun no _ => .pure trivial

/-- A loop while a condition holds is traced. -/
theorem whileLoop_traces :
    (whileLoop env expression statement).Traces known prior fun _ => True := by
  refine .andThen (keyword_traces finish (by decide)) fun _ _ => ?_
  refine .skip (condition_traces finish value) fun condition => ?_
  exact .skip (body_traces finish inner) fun statements => .pure trivial

/-- A loop over a collection is traced. -/
theorem forLoop_traces : (forLoop env expression statement).Traces known prior fun _ => True := by
  refine .andThen (keyword_traces finish (by decide)) fun _ _ => ?_
  refine .skip (symbol_traces finish) fun _ => .skip (name_traces finish) fun name => ?_
  refine .skip (keyword_traces finish (by decide)) fun _ => .skip value fun iterable => ?_
  refine .skip (symbol_traces finish) fun _ => ?_
  exact .skip (body_traces finish inner) fun statements => .pure trivial

/-- A statement on a table is traced. A declaration in its place is refused, whatever follows. -/
theorem latent_traces : (latent env expression statement).Traces known prior fun _ => True := by
  refine .andThen (keyword_traces finish (by decide)) fun latent start => ?_
  refine .peek finish fun next _ => ?_
  dsimp only
  have assignment {what : String} {make : String → String → Node → Sugar Node} :
      (latentAssignment env expression what latent.line make).Traces known fun _ => True :=
    latentAssignment_traces finish value start
  have skip {word : String} {next : Parser Node} (other : word ≠ "table")
      (traces : next.Traces known fun _ => True) :
      Parser.Traces known (do let _ ← keyword env word; next) fun _ => True :=
    .skip (keyword_traces finish other) fun _ => traces
  refine .ite (fun source passed => .of_never ?_) ?_
  · rw [Parser.run_bind, Parser.run_consumer]
    refine .bind passed (token_traces finish (fun _ _ never _ => never.elim) passed) ?_
    intro table rest _ passed _
    exact Parser.Traces.bind (.consumer (name_traces finish))
      (fun word ⟨here, kind⟩ => .refuse (.lateTable here kind)) passed
  refine .ite (skip (by decide) assignment) ?_
  refine .ite (skip (by decide) (latentSnapshot_traces finish start)) ?_
  refine .ite (skip (by decide) (latentMatch_traces finish value inner start)) ?_
  refine .ite (skip (by decide) (latentGuard_traces finish value)) ?_
  refine .ite (skip (by decide) assignment) ?_
  refine .ite (skip (by decide) (skip (by decide) assignment)) ?_
  exact .ite (skip (by decide) (latentScope_traces finish inner start)) assignment

/-- A statement is traced when the expressions and statements inside it are. -/
theorem statementOf_traces :
    (statementOf env expression statement).Traces known afterAny fun _ => True := by
  intro source passed
  refine Consumer.Traces.ite (binding_traces finish value (by decide)) ?_ passed
  refine .ite (binding_traces finish value (by decide)) ?_
  refine .ite (branching_traces finish value inner) ?_
  refine .ite (whileLoop_traces finish value inner) ?_
  refine .ite (forLoop_traces finish value inner) ?_
  refine .ite (ending_traces finish value) ?_
  refine .ite (assertion_traces finish value) ?_
  refine .ite (usingTable_traces finish inner) ?_
  refine .ite (latent_traces finish value inner) ?_
  exact .ite (reassignment_traces finish value) (terminated_traces finish value)

end

/-- Statements are traced, whatever room is left for them. -/
theorem statement_traces {known : Token → Prop} (room : Nat) (env : Environment)
    (finish : known env.finish) : (statement room env).Traces known afterAny fun _ => True := by
  induction room generalizing env with
  | zero => exact .fail finish
  | succ room ih => exact statementOf_traces finish (level_traces finish room).expression ih

end ContentSpace.Grammar

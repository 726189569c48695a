import ContentSpace.Desugar.Basic
import ContentSpace.Proofs.Tree.Height
import ContentSpace.Proofs.Tree.StoreCall

/-!
# Pipelines are applications

A value that is piped into a name, a call or a store operation desugars to what its application
desugars to: the name called with the value, the call with the value as its first argument, the
operation with the value as its main operand. No expression gives a name out when it is desugared,
so it makes no difference that the callee of a call comes after the arguments in one case and before
them in the other.
-/

namespace ContentSpace

namespace Node

/-- Nodes that desugar without effect do so in a row. -/
theorem exists_desugarAll_eq_pure {nodes : List Node}
    (each : ∀ node ∈ nodes, ∃ result, desugarWith none node = pure result) :
    ∃ results, desugarAll nodes = pure results := by
  induction nodes with
  | nil => exact ⟨[], rfl⟩
  | cons node rest ih =>
    obtain ⟨⟨result, here⟩, later⟩ := List.forall_mem_cons.mp each
    obtain ⟨results, there⟩ := ih later
    exact ⟨result :: results, by rw [desugarAll, here, there, pure_bind, pure_bind]⟩

/-- An operand that desugars without effect does so where it stands. -/
theorem exists_desugarOption_eq_pure {operand : Option Node}
    (each : ∀ node ∈ operand, ∃ result, desugarWith none node = pure result) :
    ∃ result, desugarOption operand = pure result := by
  cases operand with
  | none => exact ⟨none, rfl⟩
  | some node =>
    obtain ⟨result, here⟩ := each node rfl
    exact ⟨some result, by rw [desugarOption, here, pure_bind]⟩

/-- A store operation whose operands desugar without effect does so too. -/
theorem exists_desugarStore_eq_pure {call : StoreCall Node}
    (each : ∀ node ∈ call.operands, ∃ result, desugarWith none node = pure result) :
    ∃ result, desugarStore call = pure result := by
  obtain ⟨operator, table, handle, value, tag, arguments⟩ := call
  obtain ⟨_, ofHandle⟩ := exists_desugarOption_eq_pure fun node inside =>
    each node (StoreCall.mem_operands.mpr (.inl inside))
  obtain ⟨_, ofValue⟩ := exists_desugarOption_eq_pure fun node inside =>
    each node (StoreCall.mem_operands.mpr (.inr (.inl inside)))
  obtain ⟨_, ofArguments⟩ := exists_desugarAll_eq_pure fun node inside =>
    each node (StoreCall.mem_operands.mpr (.inr (.inr inside)))
  exact ⟨_, by rw [desugarStore, ofHandle, pure_bind, ofValue, pure_bind, ofArguments, pure_bind]⟩

end Node

open Node

/-- Expressions are desugared without effect, whatever is piped into them. -/
theorem ExpressionTree.exists_desugarWith_eq_pure {levels : Nat} {node : Node}
    (tree : ExpressionTree levels node) :
    ∀ piped, ∃ result, desugarWith piped node = pure result := by
  induction tree with
  | literal content => exact fun piped => ⟨_, rfl⟩
  | var name => exact fun piped => ⟨_, rfl⟩
  | branch _ _ _ ihCondition ihYes ihNo =>
    intro piped
    obtain ⟨_, condition⟩ := ihCondition none
    obtain ⟨_, yes⟩ := exists_desugarAll_eq_pure (List.forall_mem_singleton.mpr (ihYes none))
    obtain ⟨_, no⟩ := exists_desugarAll_eq_pure (List.forall_mem_singleton.mpr (ihNo none))
    exact ⟨_, by rw [desugarWith, condition, pure_bind, yes, pure_bind, no, pure_bind]⟩
  | apply _ ih =>
    intro piped
    obtain ⟨_, operands⟩ := exists_desugarAll_eq_pure fun node member => ih node member none
    exact ⟨_, by rw [desugarWith, operands, pure_bind]⟩
  | call _ _ ihTarget ihArguments =>
    intro piped
    obtain ⟨_, target⟩ := ihTarget none
    obtain ⟨_, arguments⟩ :=
      exists_desugarAll_eq_pure fun node member => ihArguments node member none
    cases piped with
    | none => exact ⟨_, by rw [desugarWith, target, pure_bind, arguments, pure_bind]⟩
    | some value => exact ⟨_, by rw [desugarWith, arguments, pure_bind, target, pure_bind]⟩
  | store _ ih =>
    intro piped
    obtain ⟨_, operands⟩ := exists_desugarStore_eq_pure fun node member => ih node member none
    exact ⟨_, by rw [desugarWith, operands, pure_bind]⟩
  | pipeline _ _ ihValue ihStage =>
    intro piped
    obtain ⟨value, first⟩ := ihValue none
    obtain ⟨_, second⟩ := ihStage (some value)
    exact ⟨_, by rw [desugarWith, desugarForm, first, pure_bind, second, pure_bind]⟩

namespace Node

/-- The value of a pipeline is desugared first and then passed to the stage. -/
theorem desugar_pipeline (value stage : Node) :
    (sugar (.pipeline value stage)).desugar =
      value.desugar >>= fun value => stage.desugarWith (some value) := by
  rw [desugar, desugarWith, desugarForm]
  exact bind_pure _

section

variable {value like : Node} (same : value.desugar = like.desugar)
include same

/-- A value piped into a name is the argument of a call. -/
theorem desugar_pipeline_var (name : String) :
    (sugar (.pipeline value (var name))).desugar = (call (var name) [like]).desugar := by
  rw [desugar_pipeline, same, desugar, desugar, desugarWith]
  simp only [desugarWith, desugarAll, pure_bind, bind_assoc]

/-- A value piped into a call is its first argument, if the callee is desugared without effect. -/
theorem desugar_pipeline_call {target result : Node}
    (settled : desugarWith none target = pure result) (arguments : List Node) :
    (sugar (.pipeline value (call target arguments))).desugar =
      (call target (like :: arguments)).desugar := by
  rw [desugar_pipeline, same, desugar, desugar]
  simp only [desugarWith, desugarAll, settled, pure_bind, bind_assoc]

/-- A value piped into a store operation is its main operand, if it has none. -/
theorem desugar_pipeline_store {operation filled : StoreCall Node}
    (accepts : operation.acceptsPiped = true) (supplied : operation.supply? like = some filled)
    (handle : operation.handle = none) (operand : operation.value = none) :
    (sugar (.pipeline value (store operation))).desugar = (store filled).desugar := by
  obtain ⟨operator, table, _, _, tag, arguments⟩ := operation
  subst handle operand
  rw [desugar_pipeline, same, desugar, desugar]
  unfold StoreCall.supply? at supplied
  unfold StoreCall.acceptsPiped at accepts
  cases place : operator.slot with
  | none => simp [place] at accepts
  | value | handle | arguments =>
    simp only [place, Option.some.injEq] at supplied
    subst supplied
    simp [desugarWith, desugarStore, desugarOption, desugarAll, Expansion.supplied,
      StoreCall.acceptsPiped, StoreCall.supply?, place]

end

end Node

end ContentSpace

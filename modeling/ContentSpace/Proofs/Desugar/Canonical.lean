import ContentSpace.Proofs.Desugar.Run
import ContentSpace.Proofs.Tree.StoreCall
import ContentSpace.Proofs.Tree.Walk

/-!
# Desugared trees are canonical

A tree is free of sugar when no form that stands for others occurs anywhere in it, which is what the
test for canonical trees decides. Desugaring leaves a tree that is free of sugar, and so does the
desugaring of a stage to which such a tree is passed.
-/

namespace ContentSpace

open Desugaring

namespace Node

/-- No form that stands for others occurs in a tree, at any depth. -/
inductive SugarFree : Node → Prop where
  /-- A literal holds no tree. -/
  | literal (content : Literal) : SugarFree (.literal content)
  /-- A variable holds no tree. -/
  | var (name : String) : SugarFree (.var name)
  /-- A binding, when its value is free of sugar. -/
  | assign {name : String} {value : Node} {isNew : Bool} :
      SugarFree value → SugarFree (.assign name value isNew)
  /-- A binding up to the end of a block, when its value is free of sugar. -/
  | assignLocal {name : String} {value : Node} :
      SugarFree value → SugarFree (.assignLocal name value)
  /-- A choice, when its condition and both sequences are free of sugar. -/
  | branch {condition : Node} {yes no : List Node} :
      SugarFree condition → (∀ node ∈ yes, SugarFree node) → (∀ node ∈ no, SugarFree node) →
      SugarFree (.branch condition yes no)
  /-- A sequence, when its items are free of sugar. -/
  | sequence {body : List Node} : (∀ node ∈ body, SugarFree node) → SugarFree (.sequence body)
  /-- A primitive operation, when its operands are free of sugar. -/
  | apply {primitive : Primitive} {operands : List Node} :
      (∀ node ∈ operands, SugarFree node) → SugarFree (.apply primitive operands)
  /-- A call, when its target and its arguments are free of sugar. -/
  | call {target : Node} {arguments : List Node} :
      SugarFree target → (∀ node ∈ arguments, SugarFree node) →
      SugarFree (.call target arguments)
  /-- The end of a block, when its result is free of sugar. -/
  | finish {result : Option Node} :
      (∀ node ∈ result, SugarFree node) → SugarFree (.finish result)
  /-- A store operation, when its operands are free of sugar. -/
  | store {call : StoreCall Node} :
      (∀ node ∈ call.handle, SugarFree node) → (∀ node ∈ call.value, SugarFree node) →
      (∀ node ∈ call.arguments, SugarFree node) → SugarFree (.store call)
  /-- A labeled node, when its body is free of sugar. -/
  | labeled {label : String} {body : Node} : SugarFree body → SugarFree (.labeled label body)
  /-- A jump holds no tree. -/
  | jump (label : String) : SugarFree (.jump label)

section

variable {name label : String} {value condition target body : Node} {isNew : Bool}
  {yes no nodes : List Node} {primitive : Primitive} {result : Option Node} {call : StoreCall Node}

/-- A literal is free of sugar. -/
@[simp] theorem sugarFree_literal (content : Literal) : (literal content).SugarFree :=
  .literal content

/-- A variable is free of sugar. -/
@[simp] theorem sugarFree_var : (var name).SugarFree := .var name

/-- A jump is free of sugar. -/
@[simp] theorem sugarFree_jump : (jump label).SugarFree := .jump label

/-- Sugar is not free of sugar. -/
@[simp] theorem not_sugarFree_sugar (form : Sugar Node) : ¬ (sugar form).SugarFree := nofun

/-- A binding is free of sugar when its value is. -/
@[simp] theorem sugarFree_assign : (assign name value isNew).SugarFree ↔ value.SugarFree :=
  ⟨fun | .assign free => free, .assign⟩

/-- A binding up to the end of a block is free of sugar when its value is. -/
@[simp] theorem sugarFree_assignLocal : (assignLocal name value).SugarFree ↔ value.SugarFree :=
  ⟨fun | .assignLocal free => free, .assignLocal⟩

/-- A labeled node is free of sugar when its body is. -/
@[simp] theorem sugarFree_labeled : (labeled label body).SugarFree ↔ body.SugarFree :=
  ⟨fun | .labeled free => free, .labeled⟩

/-- A choice is free of sugar when its condition and both sequences are. -/
@[simp] theorem sugarFree_branch : (branch condition yes no).SugarFree ↔
    condition.SugarFree ∧ (∀ node ∈ yes, node.SugarFree) ∧ ∀ node ∈ no, node.SugarFree :=
  ⟨fun | .branch test first second => ⟨test, first, second⟩,
    fun ⟨test, first, second⟩ => .branch test first second⟩

/-- A sequence is free of sugar when its items are. -/
@[simp] theorem sugarFree_sequence :
    (sequence nodes).SugarFree ↔ ∀ node ∈ nodes, node.SugarFree :=
  ⟨fun | .sequence free => free, .sequence⟩

/-- A primitive operation is free of sugar when its operands are. -/
@[simp] theorem sugarFree_apply :
    (apply primitive nodes).SugarFree ↔ ∀ node ∈ nodes, node.SugarFree :=
  ⟨fun | .apply free => free, .apply⟩

/-- A call is free of sugar when its target and its arguments are. -/
@[simp] theorem sugarFree_call :
    (Node.call target nodes).SugarFree ↔ target.SugarFree ∧ ∀ node ∈ nodes, node.SugarFree :=
  ⟨fun | .call first others => ⟨first, others⟩, fun ⟨first, others⟩ => .call first others⟩

/-- The end of a block is free of sugar when its result is. -/
@[simp] theorem sugarFree_finish :
    (finish result).SugarFree ↔ ∀ node ∈ result, node.SugarFree :=
  ⟨fun | .finish free => free, .finish⟩

/-- A store operation is free of sugar when its operands are. -/
@[simp] theorem sugarFree_store :
    (store call).SugarFree ↔ ∀ node ∈ call.operands, node.SugarFree := by
  simp only [StoreCall.operands, List.forall_mem_append, Option.mem_toList]
  constructor
  · intro free
    cases free with
    | store handle value arguments => exact ⟨⟨handle, value⟩, arguments⟩
  · rintro ⟨⟨handle, value⟩, arguments⟩
    exact .store handle value arguments

end

/-- A tree is free of sugar when its root is none and its children are free of it. -/
theorem sugarFree_iff {node : Node} :
    node.SugarFree ↔ node.isSugar = false ∧ ∀ child ∈ node.children, child.SugarFree := by
  cases node <;> simp [isSugar, children, or_imp, forall_and]

/-- A tree is free of sugar when none of its nodes is a form that stands for others. -/
theorem sugarFree_iff_forall_descendants {node : Node} :
    node.SugarFree ↔ ∀ inner ∈ node.descendants, inner.isSugar = false := by
  induction node using childInduction with
  | step node ih =>
    rw [sugarFree_iff, forall_descendants_iff]
    exact and_congr_right fun _ => forall_congr' fun child => forall_congr' fun inside =>
      ih child inside

/-- Canonical trees are those free of sugar. -/
theorem isCanonical_iff_sugarFree {node : Node} : node.isCanonical = true ↔ node.SugarFree := by
  rw [isCanonical, beq_iff_eq, sugarCount, List.countP_eq_zero, sugarFree_iff_forall_descendants]
  simp only [Bool.not_eq_true]

end Node

section Expansions

variable {label collection results index binding temporary name table parent : String}
  {condition iterable value handle stage : Node} {body : List Node} {mode : BatchMode}

/-- A loop is free of sugar when its condition and its body are. -/
@[simp] theorem sugarFree_loop : (Expansion.loop label condition body).SugarFree ↔
    condition.SugarFree ∧ ∀ node ∈ body, node.SugarFree := by
  simp [Expansion.loop, or_imp, forall_and]

/-- An element of a collection is free of sugar. -/
@[simp] theorem sugarFree_element : (Expansion.element collection index).SugarFree := by
  simp [Expansion.element]

/-- A loop over indices is free of sugar when its body is. -/
@[simp] theorem sugarFree_indexLoop :
    (Expansion.indexLoop label collection index body).SugarFree ↔
      ∀ node ∈ body, node.SugarFree := by
  simp [Expansion.indexLoop, Node.int, or_imp, forall_and]

/-- A loop over a collection is free of sugar when the collection and the body are. -/
@[simp] theorem sugarFree_forLoop :
    (Expansion.forLoop collection index label binding iterable body).SugarFree ↔
      iterable.SugarFree ∧ ∀ node ∈ body, node.SugarFree := by
  simp [Expansion.forLoop, Node.int]

/-- A name for a handle is free of sugar when the stored value is. -/
@[simp] theorem sugarFree_bind :
    (Expansion.bind temporary name table value).SugarFree ↔ value.SugarFree := by
  simp [Expansion.bind, StoreCall.operands]

/-- The content of a handle is free of sugar when the handle is. -/
@[simp] theorem sugarFree_content :
    (Expansion.content table handle).SugarFree ↔ handle.SugarFree := by
  simp [Expansion.content, StoreCall.operands]

/-- A snapshot is free of sugar. -/
@[simp] theorem sugarFree_snapshot : (Expansion.snapshot table).SugarFree := by
  simp [Expansion.snapshot, StoreCall.operands]

/-- What a batch does with an element is free of sugar when the element is. -/
@[simp] theorem sugarFree_batchStep :
    (Expansion.batchStep mode name table value).SugarFree ↔ value.SugarFree := by
  cases mode <;> simp [Expansion.batchStep, StoreCall.operands]

/-- A batch is free of sugar when its collection is. -/
@[simp] theorem sugarFree_batch :
    (Expansion.batch collection results index label name table value mode).SugarFree ↔
      value.SugarFree := by
  simp [Expansion.batch, Node.int]

/-- A scope is free of sugar when its body is. -/
@[simp] theorem sugarFree_scope :
    (Expansion.scope name parent body).SugarFree ↔ ∀ node ∈ body, node.SugarFree := by
  simp [Expansion.scope, StoreCall.operands, or_imp, forall_and]

/-- An operation to which a value is passed is free of sugar when its operands and the value are. -/
theorem sugarFree_supplied {call : StoreCall Node} (free : ∀ node ∈ call.operands, node.SugarFree)
    (given : value.SugarFree) : (Expansion.supplied call (some value)).SugarFree := by
  rcases Expansion.supplied_some call value with
    ⟨filled, accepts, supplied, same⟩ | ⟨-, same⟩
  · have operands := StoreCall.operands_perm accepts supplied
    have inside : ∀ node ∈ filled.operands, node.SugarFree := by
      intro node member
      rcases List.mem_cons.mp (operands.mem_iff.mp member) with rfl | old
      · exact given
      · exact free node old
    rw [same]
    exact Node.sugarFree_store.mpr inside
  · rw [same]
    simpa [given] using free

end Expansions

namespace Node

/-- The expansion of a form is free of sugar when the desugared children are. -/
theorem sugarFree_of_formRun {form : Sugar Node} {first last : Nat} {result : Node}
    (alone : ∀ child ∈ form.children, ∀ {first result last},
      Gives (desugarWith none child) first result last → result.SugarFree)
    (passed : ∀ child ∈ form.children, ∀ {value first result last}, value.SugarFree →
      Gives (desugarWith (some value) child) first result last → result.SugarFree)
    (run : FormRun form first result last) : result.SugarFree := by
  have several {nodes results : List Node} {first last : Nat}
      (inside : ∀ child ∈ nodes, child ∈ form.children)
      (run : Gives (desugarAll nodes) first results last) : ∀ result ∈ results, result.SugarFree :=
    forall_of_gives_desugarAll (fun child member => alone child (inside child member)) run
  cases run with
  | pipeline runValue runStage =>
    have given := alone _ (by simp [Sugar.children]) runValue
    exact passed _ (by simp [Sugar.children]) given runStage
  | whileLoop runTest runBody =>
    have test := alone _ (by simp [Sugar.children]) runTest
    have inner := several (by simp +contextual [Sugar.children]) runBody
    exact sugarFree_loop.mpr ⟨test, inner⟩
  | forLoop runSource runBody =>
    have source := alone _ (by simp [Sugar.children]) runSource
    have inner := several (by simp +contextual [Sugar.children]) runBody
    exact sugarFree_forLoop.mpr ⟨source, inner⟩
  | bind runValue =>
    exact sugarFree_bind.mpr (alone _ (by simp [Sugar.children]) runValue)
  | bindContent runHandle =>
    have inner := alone _ (by simp [Sugar.children]) runHandle
    exact sugarFree_assign.mpr (sugarFree_content.mpr inner)
  | bindSnapshot => exact sugarFree_assign.mpr sugarFree_snapshot
  | bindInside runHandle runBody =>
    have head := alone _ (by simp [Sugar.children]) runHandle
    have inner := several (by simp +contextual [Sugar.children]) runBody
    simpa [head] using inner
  | guard runTest =>
    have inner := alone _ (by simp [Sugar.children]) runTest
    simpa using inner
  | batch runElements =>
    exact sugarFree_batch.mpr (alone _ (by simp [Sugar.children]) runElements)
  | scope runBody => exact sugarFree_scope.mpr (several (by simp [Sugar.children]) runBody)
  | within runBody => exact sugarFree_sequence.mpr (several (by simp [Sugar.children]) runBody)

/-- Desugaring leaves no sugar, whether or not a value without sugar is passed to the node. -/
theorem sugarFree_of_gives (node : Node) :
    (∀ {first result last}, Gives (desugarWith none node) first result last →
      result.SugarFree) ∧
    (∀ {value first result last}, value.SugarFree →
      Gives (desugarWith (some value) node) first result last → result.SugarFree) := by
  induction node using childInduction with
  | step node ih =>
    have several {nodes results : List Node} {first last : Nat}
        (inside : ∀ child ∈ nodes, child ∈ node.children)
        (run : Gives (desugarAll nodes) first results last) :
        ∀ result ∈ results, result.SugarFree :=
      forall_of_gives_desugarAll (fun child member => (ih child (inside child member)).1) run
    have alone {first last : Nat} {result : Node}
        (run : Gives (desugarWith none node) first result last) : result.SugarFree := by
      cases aloneRun_of_gives run with
      | literal => exact .literal _
      | var => exact .var _
      | jump => exact .jump _
      | assign runValue => exact .assign ((ih _ (by simp [children])).1 runValue)
      | assignLocal runValue => exact .assignLocal ((ih _ (by simp [children])).1 runValue)
      | branch runTest runYes runNo =>
        have test := (ih _ (by simp [children])).1 runTest
        have first := several (by simp +contextual [children]) runYes
        have second := several (by simp +contextual [children]) runNo
        exact .branch test first second
      | sequence runBody => exact .sequence (several (by simp [children]) runBody)
      | apply runOperands => exact .apply (several (by simp [children]) runOperands)
      | call runTarget runArguments =>
        have called := (ih _ (by simp [children])).1 runTarget
        exact .call called (several (by simp +contextual [children]) runArguments)
      | finish runOperand =>
        refine .finish (forall_of_gives_desugarOption (fun child member => ?_) runOperand)
        exact (ih child (Option.mem_toList.mpr member)).1
      | store runCall =>
        exact sugarFree_store.mpr
          (forall_operands_of_gives_desugarStore (fun child member => (ih child member).1) runCall)
      | labeled runBody => exact .labeled ((ih _ (by simp [children])).1 runBody)
      | sugar runForm =>
        exact sugarFree_of_formRun (fun child member => (ih child member).1)
          (fun child member => (ih child member).2) runForm
    refine ⟨alone, fun {value first result last} given run => ?_⟩
    cases apart : node.takesValue with
    | false =>
      obtain ⟨stage, runStage, rfl⟩ := (gives_desugarWith_some apart).mp run
      simpa [given] using alone runStage
    | true =>
      cases node with
      | var name =>
        obtain ⟨rfl, -⟩ := gives_desugarWith_some_var.mp run
        simpa using given
      | call target arguments =>
        obtain ⟨arguments', _, target', runArguments, runTarget, rfl⟩ :=
          gives_desugarWith_some_call.mp run
        have called := (ih target (by simp [children])).1 runTarget
        have others := several (by simp +contextual [children]) runArguments
        exact .call called (List.forall_mem_cons.mpr ⟨given, others⟩)
      | store call =>
        obtain ⟨call', runCall, rfl⟩ := gives_desugarWith_some_store.mp run
        have operands := forall_operands_of_gives_desugarStore
          (fun child member => (ih child member).1) runCall
        exact sugarFree_supplied operands given
      | _ => simp [takesValue] at apart

end Node

end ContentSpace

import ContentSpace.Proofs.Desugar.Canonical
import ContentSpace.Proofs.Desugar.Temporary
import Mathlib.Algebra.BigOperators.Group.List.Basic
import Mathlib.Algebra.Order.Group.Multiset
import Mathlib.Tactic.Abel

/-!
# Desugaring keeps the material of a tree

A tree is made of material: variables, texts, doubles and embedded values that it mentions, ends of
blocks, names that it binds, and store operations on tables. Desugaring moves this material around
and wraps it, but keeps every piece as often as it was there. A form that binds a name or stands for
store operations is such material itself: its expansion binds the name once and calls each of the
operations once. Temporary names are scaffolding and count as no material.
-/

namespace ContentSpace

open Desugaring

/-- The names among some that are not temporary. -/
def userNames (names : List String) : List String :=
  names.filter fun name => !Temporaries.isTemporary name

/-- The names that the expansion of a form binds. -/
def Sugar.boundNames {α : Type} : Sugar α → List String
  | forLoop name _ _ | bind name _ _ | bindContent name _ _ | bindSnapshot name _
  | bindInside name _ _ _ | batch name _ _ _ => [name]
  | pipeline .. | whileLoop .. | guard _ | scope .. | within .. => []

/-- The store operations that the expansion of a form calls, with their tables. -/
def Sugar.storeCalls {α : Type} : Sugar α → List (StoreOperator × String)
  | bind _ table _ => [(.collapse, table)]
  | bindContent _ table _ => [(.resolve, table)]
  | bindSnapshot _ table => [(.snapshot, table)]
  | bindInside _ table _ _ => [(.resolve, table)]
  | batch _ table _ mode => [(mode.operator, table)]
  | scope name parent _ => [(.scopeOpen, parent), (.scopeClose, name)]
  | pipeline .. | whileLoop .. | forLoop .. | guard _ | within .. => []

namespace Node

/-- What the nodes of a tree hold, all together and with repetitions. -/
def collect {α : Type} (held : Node → List α) (node : Node) : Multiset α :=
  node.descendants.flatMap held

/-! ## What a single node holds -/

/-- The variable of the source that a node reads. -/
def references : Node → List String
  | var name => userNames [name]
  | _ => []

/-- The text of a literal. -/
def strings : Node → List String
  | literal (.string text) => [text]
  | _ => []

/-- The double of a literal. -/
def floats : Node → List Double
  | literal (.float x) => [x]
  | _ => []

/-- The embedded value of a literal, as it was written. -/
def blobs : Node → List String
  | literal (.blob text) => [text]
  | _ => []

/-- The end of a block, told by whether it has a result. -/
def finishes : Node → List Bool
  | finish result => [result.isSome]
  | _ => []

/-- The name of the source that a node binds. -/
def boundNames : Node → List String
  | assign name _ _ => userNames [name]
  | assignLocal name _ => userNames [name]
  | _ => []

/-- The names of the source that the expansion of a node binds. -/
def formNames : Node → List String
  | sugar form => userNames form.boundNames
  | _ => []

/-- The store operation that a node calls, with its table. -/
def storeCalls : Node → List (StoreOperator × String)
  | store operation => [(operation.operator, operation.table)]
  | _ => []

/-- The store operations that the expansion of a node calls, with their tables. -/
def formCalls : Node → List (StoreOperator × String)
  | sugar form => form.storeCalls
  | _ => []

/-- Only forms bind names by their expansion. -/
theorem formNames_eq_nil {node : Node} (plain : node.isSugar = false) : node.formNames = [] := by
  cases node with
  | sugar form => cases plain
  | _ => rfl

/-- Only forms call store operations by their expansion. -/
theorem formCalls_eq_nil {node : Node} (plain : node.isSugar = false) : node.formCalls = [] := by
  cases node with
  | sugar form => cases plain
  | _ => rfl

end Node

/-- A piece of source material. -/
inductive Material where
  /-- A variable is read. -/
  | reference (name : String)
  /-- A text. -/
  | string (text : String)
  /-- A double. -/
  | float (x : Double)
  /-- An embedded value. -/
  | blob (text : String)
  /-- A block ends, with a result or without one. -/
  | finish (withResult : Bool)
  /-- A name is bound. -/
  | binding (name : String)
  /-- A store operation is called on a table. -/
  | store (call : StoreOperator × String)

namespace Material

/-- The variable that is read. -/
def reference? : Material → Option String
  | reference name => some name
  | _ => none

/-- The text of a literal. -/
def string? : Material → Option String
  | string text => some text
  | _ => none

/-- The double of a literal. -/
def float? : Material → Option Double
  | float x => some x
  | _ => none

/-- The embedded value of a literal. -/
def blob? : Material → Option String
  | blob text => some text
  | _ => none

/-- Whether the end of a block has a result. -/
def finish? : Material → Option Bool
  | finish withResult => some withResult
  | _ => none

/-- The name that is bound. -/
def binding? : Material → Option String
  | binding name => some name
  | _ => none

/-- The store operation that is called, with its table. -/
def store? : Material → Option (StoreOperator × String)
  | store call => some call
  | _ => none

end Material

namespace Node

variable {α β : Type} {node : Node} {nodes : List Node}

/-- All the material that a node holds. -/
def material : Node → List Material
  | literal (.string text) => [.string text]
  | literal (.float x) => [.float x]
  | literal (.blob text) => [.blob text]
  | var name => (userNames [name]).map .reference
  | assign name _ _ => (userNames [name]).map .binding
  | assignLocal name _ => (userNames [name]).map .binding
  | finish result => [.finish result.isSome]
  | store operation => [.store (operation.operator, operation.table)]
  | sugar form => (userNames form.boundNames).map .binding ++ form.storeCalls.map .store
  | _ => []

/-- The material of a node by its kinds. -/
theorem material_eq (node : Node) : node.material =
    node.references.map .reference ++ node.strings.map .string ++ node.floats.map .float ++
      node.blobs.map .blob ++ node.finishes.map .finish ++
      (node.boundNames ++ node.formNames).map .binding ++
      (node.storeCalls ++ node.formCalls).map .store := by
  cases node with
  | literal content => cases content <;> rfl
  | sugar form => simp [material, references, strings, floats, blobs, finishes, boundNames,
      formNames, storeCalls, formCalls]
  | _ => simp [material, references, strings, floats, blobs, finishes, boundNames, formNames,
      storeCalls, formCalls]

/-! ## Collecting -/

/-- A tree holds what its root and its children hold. -/
theorem collect_eq (held : Node → List α) (node : Node) :
    node.collect held = held node + (node.children.map (collect held)).sum := by
  rw [collect, descendants_eq, List.flatMap_cons, ← Multiset.coe_add]
  congr 1
  induction node.children with
  | nil => rfl
  | cons child rest ih =>
    rw [List.flatMap_cons, List.flatMap_append, ← Multiset.coe_add, ih, List.map_cons,
      List.sum_cons]
    rfl

/-- Two things that nodes hold are collected together or apart. -/
theorem collect_append (first second : Node → List α) (node : Node) :
    node.collect (fun inner => first inner ++ second inner) =
      node.collect first + node.collect second := by
  rw [collect, collect, collect, Multiset.coe_add, Multiset.coe_eq_coe]
  exact (List.flatMap_append_perm _ first second).symm

/-- What is chosen from each thing that nodes hold is chosen from all of them. -/
theorem filterMap_collect (held : Node → List α) (choose : α → Option β) (node : Node) :
    (node.collect held).filterMap choose =
      node.collect fun inner => (held inner).filterMap choose := by
  rw [collect, collect, Multiset.filterMap_coe, List.filterMap_flatMap]

/-- Trees without sugar hold nothing that only forms hold. -/
theorem SugarFree.collect_eq_zero (free : node.SugarFree) {held : Node → List α}
    (ofForms : ∀ {inner}, inner.isSugar = false → held inner = []) : node.collect held = 0 := by
  rw [collect, Multiset.coe_eq_zero, List.flatMap_eq_nil_iff]
  intro inner inside
  exact ofForms (sugarFree_iff_forall_descendants.mp free inner inside)

/-! ## The material of a tree -/

/-- All the material of a tree. -/
def materials (node : Node) : Multiset Material := node.collect material

/-- All the material of some trees. -/
def materialsOf (nodes : List Node) : Multiset Material := (nodes.map materials).sum

/-- The material of a tree is that of its root and that of its children. -/
theorem materials_eq (node : Node) :
    node.materials = node.material + materialsOf node.children :=
  collect_eq material node

section

variable {name label : String} {value condition target body : Node} {isNew : Bool}
  {yes no rest more : List Node} {primitive : Primitive} {result : Option Node}
  {operation : StoreCall Node} {content : Literal}

/-- No trees have no material. -/
@[simp] theorem materialsOf_nil : materialsOf [] = 0 := rfl

/-- Trees have the material of the first and of the others. -/
@[simp] theorem materialsOf_cons :
    materialsOf (node :: rest) = node.materials + materialsOf rest := by
  rw [materialsOf, List.map_cons, List.sum_cons, materialsOf]

/-- A single tree has its own material. -/
theorem materialsOf_singleton (node : Node) : materialsOf [node] = node.materials := by
  rw [materialsOf_cons, materialsOf_nil, add_zero]

/-- Trees in two rows have the material of both rows. -/
@[simp] theorem materialsOf_append :
    materialsOf (nodes ++ more) = materialsOf nodes + materialsOf more := by
  rw [materialsOf, List.map_append, List.sum_append, materialsOf, materialsOf]

/-- An integer has no material. -/
@[simp] theorem materials_int (n : Int64) : (int n).materials = 0 :=
  (materials_eq _).trans (add_zero _)

/-- A variable is a reference, unless its name is temporary. -/
@[simp] theorem materials_var :
    (var name).materials = ↑((userNames [name]).map Material.reference) :=
  (materials_eq _).trans (add_zero _)

/-- A jump has no material. -/
@[simp] theorem materials_jump : (jump label).materials = 0 :=
  (materials_eq _).trans (add_zero _)

/-- A binding binds its name, unless it is temporary, and has the material of its value. -/
@[simp] theorem materials_assign : (assign name value isNew).materials =
    ↑((userNames [name]).map Material.binding) + value.materials :=
  (materials_eq _).trans (congrArg _ (materialsOf_singleton value))

/-- A binding up to the end of a block binds its name, unless it is temporary, and has the material
of its value. -/
@[simp] theorem materials_assignLocal : (assignLocal name value).materials =
    ↑((userNames [name]).map Material.binding) + value.materials :=
  (materials_eq _).trans (congrArg _ (materialsOf_singleton value))

/-- A labeled node has the material of its body. -/
@[simp] theorem materials_labeled : (labeled label body).materials = body.materials :=
  (materials_eq _).trans ((zero_add _).trans (materialsOf_singleton body))

/-- A choice has the material of its condition and of both sequences. -/
@[simp] theorem materials_branch : (branch condition yes no).materials =
    condition.materials + materialsOf yes + materialsOf no := by
  calc (branch condition yes no).materials
      = materialsOf (condition :: (yes ++ no)) := (materials_eq _).trans (zero_add _)
    _ = condition.materials + materialsOf yes + materialsOf no := by
      rw [materialsOf_cons, materialsOf_append, add_assoc]

/-- A sequence has the material of its items. -/
@[simp] theorem materials_sequence : (sequence nodes).materials = materialsOf nodes :=
  (materials_eq _).trans (zero_add _)

/-- A primitive operation has the material of its operands. -/
@[simp] theorem materials_apply : (apply primitive nodes).materials = materialsOf nodes :=
  (materials_eq _).trans (zero_add _)

/-- A call has the material of its target and of its arguments. -/
@[simp] theorem materials_call :
    (Node.call target nodes).materials = target.materials + materialsOf nodes := by
  calc (Node.call target nodes).materials
      = materialsOf (target :: nodes) := (materials_eq _).trans (zero_add _)
    _ = target.materials + materialsOf nodes := materialsOf_cons

/-- The end of a block is material itself, with or without a result, and has that of its result. -/
@[simp] theorem materials_finish : (finish result).materials =
    {.finish result.isSome} + materialsOf result.toList :=
  materials_eq _

/-- A store operation is material itself and has that of its operands. -/
@[simp] theorem materials_store : (store operation).materials =
    {.store (operation.operator, operation.table)} + materialsOf operation.operands :=
  materials_eq _

/-- Sugar binds its names, stands for its store operations, and has the material of its children. -/
@[simp] theorem materials_sugar (form : Sugar Node) : (sugar form).materials =
    ↑((userNames form.boundNames).map Material.binding) + ↑(form.storeCalls.map Material.store) +
      materialsOf form.children :=
  materials_eq _

end

end Node

open Node

/-! ## The material of expansions -/

/-- Temporary names are no names of the source. -/
theorem userNames_of_isTemporary {name : String} (temporary : Temporaries.isTemporary name = true) :
    userNames [name] = [] := by
  simp [userNames, temporary]

section

variable {label collection results index binding temporary name table parent : String}
  {condition iterable value handle : Node} {body : List Node} {mode : BatchMode}

/-- A loop has the material of its condition and its body. -/
@[simp] theorem materials_loop : (Expansion.loop label condition body).materials =
    condition.materials + materialsOf body := by
  simp [Expansion.loop]

/-- An element of a collection has no material when its variables are temporary. -/
theorem materials_element (first : Temporaries.isTemporary collection = true)
    (second : Temporaries.isTemporary index = true) :
    (Expansion.element collection index).materials = 0 := by
  simp [Expansion.element, userNames_of_isTemporary, first, second]

/-- A loop over indices has the material of its body when its variables are temporary. -/
theorem materials_indexLoop (first : Temporaries.isTemporary collection = true)
    (second : Temporaries.isTemporary index = true) :
    (Expansion.indexLoop label collection index body).materials = materialsOf body := by
  simp [Expansion.indexLoop, userNames_of_isTemporary, first, second]

/-- A loop over a collection binds its name, and has the material of its parts. -/
theorem materials_forLoop (first : Temporaries.isTemporary collection = true)
    (second : Temporaries.isTemporary index = true) :
    (Expansion.forLoop collection index label binding iterable body).materials =
      ↑((userNames [binding]).map Material.binding) + iterable.materials + materialsOf body := by
  simp [Expansion.forLoop, materials_indexLoop, materials_element, userNames_of_isTemporary, first,
    second]
  abel

/-- A name for a handle is bound, and its value is stored once. -/
theorem materials_bind (first : Temporaries.isTemporary temporary = true) :
    (Expansion.bind temporary name table value).materials =
      ↑((userNames [name]).map Material.binding) + {.store (.collapse, table)} +
        value.materials := by
  simp [Expansion.bind, StoreCall.operands, userNames_of_isTemporary, first]
  abel

/-- The content of a handle is looked up once. -/
@[simp] theorem materials_content : (Expansion.content table handle).materials =
    {.store (.resolve, table)} + handle.materials := by
  simp [Expansion.content, StoreCall.operands]

/-- A snapshot is taken once. -/
@[simp] theorem materials_snapshot :
    (Expansion.snapshot table).materials = {.store (.snapshot, table)} := by
  simp [Expansion.snapshot, StoreCall.operands, materials_eq, material, children]

/-- A batch calls its operation at one place. -/
@[simp] theorem materials_batchStep : (Expansion.batchStep mode name table value).materials =
    {.store (mode.operator, table)} + value.materials := by
  cases mode <;> simp [Expansion.batchStep, StoreCall.operands]

/-- A batch binds its name and calls its operation at one place. -/
theorem materials_batch (first : Temporaries.isTemporary collection = true)
    (second : Temporaries.isTemporary results = true)
    (third : Temporaries.isTemporary index = true) :
    (Expansion.batch collection results index label name table value mode).materials =
      ↑((userNames [name]).map Material.binding) + {.store (mode.operator, table)} +
        value.materials := by
  simp [Expansion.batch, materials_indexLoop, materials_element, userNames_of_isTemporary, first,
    second, third]
  rw [← Multiset.cons_coe, ← Multiset.singleton_add]
  abel

/-- A scope is opened and closed once. -/
@[simp] theorem materials_scope : (Expansion.scope name parent body).materials =
    {.store (.scopeOpen, parent)} + {.store (.scopeClose, name)} + materialsOf body := by
  simp only [Expansion.scope, StoreCall.operands, materials_sequence, materialsOf_cons,
    materialsOf_append, materials_store, materialsOf_nil, List.cons_append, Option.toList_none,
    List.append_nil, add_zero]
  abel

/-- An operation to which a value is passed keeps its material and that of the value, whether it
takes the value or not. -/
theorem materials_supplied (call : StoreCall Node) :
    (Expansion.supplied call (some value)).materials =
      value.materials + (Node.store call).materials := by
  rcases Expansion.supplied_some call value with
    ⟨filled, accepts, supplied, same⟩ | ⟨-, same⟩
  · obtain ⟨operator, table, -⟩ := StoreCall.of_supply? supplied
    have operands : materialsOf filled.operands = value.materials + materialsOf call.operands := by
      rw [materialsOf, ((StoreCall.operands_perm accepts supplied).map materials).sum_eq,
        List.map_cons, List.sum_cons, materialsOf]
    rw [same, materials_store, materials_store, operator, table, operands]
    abel
  · rw [same]
    simp
    abel

end

namespace Node

/-! ## Desugaring -/

/-- Desugaring keeps the material of a node, and adds that of the value passed to it if there is
one. -/
def Keeps (node : Node) : Prop :=
  (∀ ⦃first result last⦄, Gives (desugarWith none node) first result last →
    result.materials = node.materials) ∧
  ∀ ⦃value first result last⦄, Gives (desugarWith (some value) node) first result last →
    result.materials = value.materials + node.materials

/-- Nodes desugared one after the other keep their material. -/
theorem Keeps.all {nodes results : List Node} {first last : Nat}
    (each : ∀ node ∈ nodes, node.Keeps) (run : Gives (desugarAll nodes) first results last) :
    materialsOf results = materialsOf nodes := by
  induction nodes generalizing first results with
  | nil =>
    obtain ⟨rfl, -⟩ := gives_desugarAll_nil.mp run
    rfl
  | cons node rest ih =>
    obtain ⟨result, middle, others, head, tail, rfl⟩ := gives_desugarAll_cons.mp run
    obtain ⟨here, later⟩ := List.forall_mem_cons.mp each
    rw [materialsOf_cons, materialsOf_cons, here.1 head, ih later tail]

/-- An operand keeps its material, and stays absent if it is. -/
theorem Keeps.option {operand result : Option Node} {first last : Nat}
    (each : ∀ node ∈ operand, node.Keeps)
    (run : Gives (desugarOption operand) first result last) :
    materialsOf result.toList = materialsOf operand.toList := by
  cases operand with
  | none =>
    obtain ⟨rfl, -⟩ := gives_desugarOption_none.mp run
    rfl
  | some node =>
    obtain ⟨found, inner, rfl⟩ := gives_desugarOption_some.mp run
    simpa using (each node rfl).1 inner

/-- A store operation keeps its material. -/
theorem Keeps.operation {call result : StoreCall Node} {first last : Nat}
    (each : ∀ node ∈ call.operands, node.Keeps)
    (run : Gives (desugarStore call) first result last) :
    (store result).materials = (store call).materials := by
  obtain ⟨handle, middle, value, later, arguments, runHandle, runValue, runArguments, rfl⟩ :=
    gives_desugarStore.mp run
  have ofHandle := option
    (fun node inside => each node (StoreCall.mem_operands.mpr (.inl inside))) runHandle
  have ofValue := option
    (fun node inside => each node (StoreCall.mem_operands.mpr (.inr (.inl inside)))) runValue
  have ofArguments := all
    (fun node inside => each node (StoreCall.mem_operands.mpr (.inr (.inr inside)))) runArguments
  simp only [materials_store, StoreCall.operands, materialsOf_append, ofHandle, ofValue,
    ofArguments]

/-- The expansion of a form has the material of the form when its children keep theirs. -/
theorem materials_of_formRun {form : Sugar Node} {first last : Nat} {result : Node}
    (each : ∀ child ∈ form.children, child.Keeps) (run : FormRun form first result last) :
    result.materials = (sugar form).materials := by
  have several {nodes results : List Node} {first last : Nat}
      (inside : ∀ child ∈ nodes, child ∈ form.children)
      (run : Gives (desugarAll nodes) first results last) :
      materialsOf results = materialsOf nodes :=
    Keeps.all (fun child member => each child (inside child member)) run
  rw [materials_sugar]
  cases run with
  | pipeline runValue runStage =>
    have ofValue := (each _ (by simp [Sugar.children])).1 runValue
    have ofStage := (each _ (by simp [Sugar.children])).2 runStage
    simp [ofStage, ofValue, Sugar.children, Sugar.boundNames, Sugar.storeCalls, userNames]
  | whileLoop runTest runBody =>
    have ofTest := (each _ (by simp [Sugar.children])).1 runTest
    have ofBody := several (by simp +contextual [Sugar.children]) runBody
    simp [ofTest, ofBody, Sugar.children, Sugar.boundNames, Sugar.storeCalls, userNames]
  | forLoop runSource runBody =>
    have ofSource := (each _ (by simp [Sugar.children])).1 runSource
    have ofBody := several (by simp +contextual [Sugar.children]) runBody
    rw [materials_forLoop (by simp) (by simp), ofSource, ofBody]
    simp [Sugar.children, Sugar.boundNames, Sugar.storeCalls, add_assoc]
  | bind runValue =>
    have ofValue := (each _ (by simp [Sugar.children])).1 runValue
    rw [materials_bind (by simp), ofValue]
    simp [Sugar.children, Sugar.boundNames, Sugar.storeCalls]
  | bindContent runHandle =>
    have ofHandle := (each _ (by simp [Sugar.children])).1 runHandle
    simp [-Multiset.singleton_add, ofHandle, Sugar.children, Sugar.boundNames, Sugar.storeCalls]
    abel
  | bindSnapshot =>
    simp [Sugar.children, Sugar.boundNames, Sugar.storeCalls]
  | bindInside runHandle runBody =>
    have ofHandle := (each _ (by simp [Sugar.children])).1 runHandle
    have ofBody := several (by simp +contextual [Sugar.children]) runBody
    simp [ofHandle, ofBody, Sugar.children, Sugar.boundNames, Sugar.storeCalls, add_assoc]
  | guard runTest =>
    have ofTest := (each _ (by simp [Sugar.children])).1 runTest
    simp [ofTest, Sugar.children, Sugar.boundNames, Sugar.storeCalls, userNames]
  | batch runElements =>
    have ofElements := (each _ (by simp [Sugar.children])).1 runElements
    rw [materials_batch (by simp) (by simp) (by simp), ofElements]
    simp [Sugar.children, Sugar.boundNames, Sugar.storeCalls]
  | scope runBody =>
    have ofBody := several (by simp [Sugar.children]) runBody
    simp [-Multiset.coe_add, ← Multiset.cons_coe, ofBody, Sugar.children, Sugar.boundNames,
      Sugar.storeCalls, userNames]
  | within runBody =>
    have ofBody := several (by simp [Sugar.children]) runBody
    simp [ofBody, Sugar.children, Sugar.boundNames, Sugar.storeCalls, userNames]

/-- Desugaring keeps the material of every node, whether or not a value is passed to it. -/
theorem keeps (node : Node) : node.Keeps := by
  induction node using childInduction with
  | step node ih =>
    have several {nodes results : List Node} {first last : Nat}
        (inside : ∀ child ∈ nodes, child ∈ node.children)
        (run : Gives (desugarAll nodes) first results last) :
        materialsOf results = materialsOf nodes :=
      Keeps.all (fun child member => ih child (inside child member)) run
    have alone {first last : Nat} {result : Node}
        (run : Gives (desugarWith none node) first result last) :
        result.materials = node.materials := by
      cases aloneRun_of_gives run with
      | literal | var | jump => rfl
      | assign runValue => simp [(ih _ (by simp [children])).1 runValue]
      | assignLocal runValue => simp [(ih _ (by simp [children])).1 runValue]
      | branch runTest runYes runNo =>
        have ofTest := (ih _ (by simp [children])).1 runTest
        have ofYes := several (by simp +contextual [children]) runYes
        have ofNo := several (by simp +contextual [children]) runNo
        simp [ofTest, ofYes, ofNo]
      | sequence runBody => simp [several (by simp [children]) runBody]
      | apply runOperands => simp [several (by simp [children]) runOperands]
      | call runTarget runArguments =>
        have ofTarget := (ih _ (by simp [children])).1 runTarget
        have ofArguments := several (by simp +contextual [children]) runArguments
        simp [ofTarget, ofArguments]
      | finish runOperand =>
        have ofOperand := Keeps.option
          (fun child member => ih child (Option.mem_toList.mpr member)) runOperand
        simp [ofOperand, isSome_of_gives_desugarOption runOperand]
      | store runCall => exact Keeps.operation (fun child member => ih child member) runCall
      | labeled runBody => simp [(ih _ (by simp [children])).1 runBody]
      | sugar runForm => exact materials_of_formRun (fun child member => ih child member) runForm
    refine ⟨fun first result last run => alone run, fun value first result last run => ?_⟩
    cases apart : node.takesValue with
    | false =>
      obtain ⟨stage, runStage, rfl⟩ := (gives_desugarWith_some apart).mp run
      simp [alone runStage, add_comm]
    | true =>
      cases node with
      | var name =>
        obtain ⟨rfl, -⟩ := gives_desugarWith_some_var.mp run
        simp [add_comm]
      | call target arguments =>
        obtain ⟨arguments', _, target', runArguments, runTarget, rfl⟩ :=
          gives_desugarWith_some_call.mp run
        have ofTarget := (ih target (by simp [children])).1 runTarget
        have ofArguments := several (by simp +contextual [children]) runArguments
        simp only [materials_call, materialsOf_cons, ofTarget, ofArguments]
        abel
      | store operation =>
        obtain ⟨operation', runCall, rfl⟩ := gives_desugarWith_some_store.mp run
        rw [materials_supplied, Keeps.operation (fun child member => ih child member) runCall]
      | _ => simp [takesValue] at apart

/-- What is chosen from the material of nodes is collected alike before and after desugaring. -/
theorem collect_desugar {α : Type} {held : Node → List α} (choose : Material → Option α)
    (chosen : ∀ inner, (material inner).filterMap choose = held inner) (node : Node)
    (temporaries : Temporaries) :
    (node.desugar.run temporaries).1.collect held = node.collect held := by
  have kept := (keeps node).1 (exists_gives node.desugar temporaries)
  have same := congrArg (Multiset.filterMap choose) kept
  simp only [materials, filterMap_collect, chosen] at same
  exact same

/-- What nodes and forms hold of one kind is collected from a desugared tree, which has no forms,
as from the nodes and the forms of the tree before. -/
theorem collect_desugar_of_forms {α : Type} {held formed : Node → List α}
    (choose : Material → Option α)
    (chosen : ∀ inner, (material inner).filterMap choose = held inner ++ formed inner)
    (ofForms : ∀ {inner}, inner.isSugar = false → formed inner = []) (node : Node)
    (temporaries : Temporaries) :
    (node.desugar.run temporaries).1.collect held = node.collect held + node.collect formed := by
  have free : (node.desugar.run temporaries).1.SugarFree :=
    (sugarFree_of_gives node).1 (exists_gives node.desugar temporaries)
  have kept := collect_desugar choose chosen node temporaries
  rw [collect_append, collect_append, free.collect_eq_zero ofForms, add_zero] at kept
  exact kept

/-- Desugaring loses no source material and makes no more of it: in every tree, and whichever
temporary names were given out before, the variables that are read, the literal texts, doubles and
embedded values, and the ends of blocks occur as often as before. The names that are bound are those
of the bindings in the tree and, once for each form, the names that forms bind; the store operations
are the ones in the tree and, once for each form, the ones that forms stand for. -/
theorem desugar_keeps_material (node : Node) (temporaries : Temporaries) :
    let desugared := (node.desugar.run temporaries).1
    desugared.collect references = node.collect references ∧
    desugared.collect strings = node.collect strings ∧
    desugared.collect floats = node.collect floats ∧
    desugared.collect blobs = node.collect blobs ∧
    desugared.collect finishes = node.collect finishes ∧
    desugared.collect boundNames = node.collect boundNames + node.collect formNames ∧
    desugared.collect storeCalls = node.collect storeCalls + node.collect formCalls := by
  refine ⟨collect_desugar Material.reference? ?_ node temporaries,
    collect_desugar Material.string? ?_ node temporaries,
    collect_desugar Material.float? ?_ node temporaries,
    collect_desugar Material.blob? ?_ node temporaries,
    collect_desugar Material.finish? ?_ node temporaries,
    collect_desugar_of_forms Material.binding? ?_ formNames_eq_nil node temporaries,
    collect_desugar_of_forms Material.store? ?_ formCalls_eq_nil node temporaries⟩
  all_goals
    intro inner
    simp [material_eq, List.filterMap_map, Function.comp_def, Material.reference?,
      Material.string?, Material.float?, Material.blob?, Material.finish?, Material.binding?,
      Material.store?]

end Node

end ContentSpace

import ContentSpace.Desugar.Basic
import ContentSpace.Proofs.Tree.StoreCall

/-!
# Runs of desugaring

An action of desugaring gives a result and moves the number of temporary names that have been given
out. A run of a compound action falls into runs of its parts, in order; what a node and what a form
give is told once here, with the numbers of the names they take. Nodes that have no place for a
value from a pipeline are desugared alone and then applied to the value.
-/

namespace ContentSpace

variable {α β : Type}

namespace Desugaring

/-- An action gives a result while the number of names given out goes from one to another. -/
def Gives (action : Desugaring α) (first : Nat) (result : α) (last : Nat) : Prop :=
  action ⟨first⟩ = (result, ⟨last⟩)

/-- An action without effect gives its result and no name. -/
@[simp] theorem gives_pure {value result : α} {first last : Nat} :
    Gives (pure value) first result last ↔ value = result ∧ first = last := by
  show (value, Temporaries.mk first) = (result, ⟨last⟩) ↔ _
  rw [Prod.mk.injEq, Temporaries.mk.injEq]

/-- Two actions in a row run one after the other. -/
@[simp] theorem gives_bind {action : Desugaring α} {next : α → Desugaring β} {first last : Nat}
    {result : β} :
    Gives (action >>= next) first result last ↔
      ∃ value middle, Gives action first value middle ∧ Gives (next value) middle result last := by
  constructor
  · intro run
    exact ⟨(action ⟨first⟩).1, (action ⟨first⟩).2.issued, rfl, run⟩
  · intro ⟨value, middle, run, later⟩
    simp only [Gives, bind, StateT.bind] at run later ⊢
    rw [run]
    exact later

/-- A fresh name is the one with the next number. -/
@[simp] theorem gives_fresh {stem : String} {first last : Nat} {result : String} :
    Gives (Temporaries.fresh stem) first result last ↔
      Temporaries.name stem first = result ∧ first + 1 = last := by
  show (Temporaries.name stem first, Temporaries.mk (first + 1)) = (result, ⟨last⟩) ↔ _
  rw [Prod.mk.injEq, Temporaries.mk.injEq]

/-- Every action gives some result. -/
theorem exists_gives (action : Desugaring α) (temporaries : Temporaries) :
    Gives action temporaries.issued (action.run temporaries).1
      (action.run temporaries).2.issued :=
  rfl

end Desugaring

open Desugaring

namespace Node

/-- No node gives no node. -/
@[simp] theorem gives_desugarAll_nil {first last : Nat} {results : List Node} :
    Gives (desugarAll []) first results last ↔ [] = results ∧ first = last := by
  rw [desugarAll, gives_pure]

/-- Nodes are desugared one after the other. -/
@[simp] theorem gives_desugarAll_cons {node : Node} {rest : List Node} {first last : Nat}
    {results : List Node} :
    Gives (desugarAll (node :: rest)) first results last ↔
      ∃ result middle others, Gives (desugarWith none node) first result middle ∧
        Gives (desugarAll rest) middle others last ∧ result :: others = results := by
  rw [desugarAll]
  simp only [gives_bind, gives_pure]
  grind

/-- Two lists of nodes in a row are desugared one after the other. -/
theorem gives_desugarAll_append {before after results : List Node} {first last : Nat} :
    Gives (desugarAll (before ++ after)) first results last ↔
      ∃ left middle right, Gives (desugarAll before) first left middle ∧
        Gives (desugarAll after) middle right last ∧ left ++ right = results := by
  induction before generalizing first results with
  | nil => simp
  | cons node rest ih =>
    simp only [List.cons_append, gives_desugarAll_cons, ih]
    grind

/-- An absent operand stays absent. -/
@[simp] theorem gives_desugarOption_none {first last : Nat} {result : Option Node} :
    Gives (desugarOption none) first result last ↔ none = result ∧ first = last := by
  rw [desugarOption, gives_pure]

/-- An operand that is there is desugared. -/
@[simp] theorem gives_desugarOption_some {node : Node} {first last : Nat}
    {result : Option Node} :
    Gives (desugarOption (some node)) first result last ↔
      ∃ operand, Gives (desugarWith none node) first operand last ∧ some operand = result := by
  rw [desugarOption]
  simp only [gives_bind, gives_pure]
  grind

/-- What holds of every node desugared holds of the results. -/
theorem forall_of_gives_desugarAll {nodes results : List Node} {first last : Nat}
    {property : Node → Prop}
    (each : ∀ node ∈ nodes, ∀ {first result last},
      Gives (desugarWith none node) first result last → property result)
    (run : Gives (desugarAll nodes) first results last) : ∀ result ∈ results, property result := by
  induction nodes generalizing first results with
  | nil =>
    obtain ⟨rfl, -⟩ := gives_desugarAll_nil.mp run
    simp
  | cons node rest ih =>
    obtain ⟨result, middle, others, head, tail, rfl⟩ := gives_desugarAll_cons.mp run
    have here := each node (List.mem_cons_self ..) head
    have later := ih (fun node member => each node (List.mem_cons_of_mem _ member)) tail
    exact List.forall_mem_cons.mpr ⟨here, later⟩

/-- What holds of an operand desugared holds of the result. -/
theorem forall_of_gives_desugarOption {operand result : Option Node} {first last : Nat}
    {property : Node → Prop}
    (each : ∀ node ∈ operand, ∀ {first result last},
      Gives (desugarWith none node) first result last → property result)
    (run : Gives (desugarOption operand) first result last) : ∀ node ∈ result, property node := by
  cases operand with
  | none =>
    obtain ⟨rfl, -⟩ := gives_desugarOption_none.mp run
    simp
  | some node =>
    obtain ⟨found, inner, rfl⟩ := gives_desugarOption_some.mp run
    simpa using each node rfl inner

/-- As many nodes come out as went in. -/
theorem length_of_gives_desugarAll {nodes results : List Node} {first last : Nat}
    (run : Gives (desugarAll nodes) first results last) : results.length = nodes.length := by
  induction nodes generalizing first results with
  | nil =>
    obtain ⟨rfl, -⟩ := gives_desugarAll_nil.mp run
    rfl
  | cons node rest ih =>
    obtain ⟨result, middle, others, -, tail, rfl⟩ := gives_desugarAll_cons.mp run
    rw [List.length_cons, List.length_cons, ih tail]

/-- An operand is there afterwards exactly when it was there before. -/
theorem isSome_of_gives_desugarOption {operand result : Option Node} {first last : Nat}
    (run : Gives (desugarOption operand) first result last) : result.isSome = operand.isSome := by
  cases operand with
  | none =>
    obtain ⟨rfl, -⟩ := gives_desugarOption_none.mp run
    rfl
  | some node =>
    obtain ⟨found, -, rfl⟩ := gives_desugarOption_some.mp run
    rfl

/-- The operands of a store operation are desugared in order; nothing else of it changes. -/
theorem gives_desugarStore {call result : StoreCall Node} {first last : Nat} :
    Gives (desugarStore call) first result last ↔
      ∃ handle middle value later arguments,
        Gives (desugarOption call.handle) first handle middle ∧
        Gives (desugarOption call.value) middle value later ∧
        Gives (desugarAll call.arguments) later arguments last ∧
        { call with handle, value, arguments } = result := by
  obtain ⟨operator, table, handle, value, tag, arguments⟩ := call
  rw [desugarStore]
  simp only [gives_bind, gives_pure]
  grind

/-- A desugared store operation has the same operation, table and tag, and operands in the same
places. -/
theorem shape_of_gives_desugarStore {call result : StoreCall Node} {first last : Nat}
    (run : Gives (desugarStore call) first result last) :
    result.operator = call.operator ∧ result.table = call.table ∧ result.tag = call.tag ∧
      result.handle.isSome = call.handle.isSome ∧ result.value.isSome = call.value.isSome ∧
      result.arguments.length = call.arguments.length := by
  obtain ⟨handle, middle, value, later, arguments, runHandle, runValue, runArguments, rfl⟩ :=
    gives_desugarStore.mp run
  exact ⟨rfl, rfl, rfl, isSome_of_gives_desugarOption runHandle,
    isSome_of_gives_desugarOption runValue, length_of_gives_desugarAll runArguments⟩

/-- What holds of every operand desugared holds of the operands of the result. -/
theorem forall_operands_of_gives_desugarStore {call result : StoreCall Node} {first last : Nat}
    {property : Node → Prop}
    (each : ∀ node ∈ call.operands, ∀ {first result last},
      Gives (desugarWith none node) first result last → property result)
    (run : Gives (desugarStore call) first result last) :
    ∀ node ∈ result.operands, property node := by
  obtain ⟨handle, middle, value, later, arguments, runHandle, runValue, runArguments, rfl⟩ :=
    gives_desugarStore.mp run
  have ofHandle := forall_of_gives_desugarOption
    (fun node inside => each node (StoreCall.mem_operands.mpr (.inl inside))) runHandle
  have ofValue := forall_of_gives_desugarOption
    (fun node inside => each node (StoreCall.mem_operands.mpr (.inr (.inl inside)))) runValue
  have ofArguments := forall_of_gives_desugarAll
    (fun node inside => each node (StoreCall.mem_operands.mpr (.inr (.inr inside)))) runArguments
  intro node member
  rcases StoreCall.mem_operands.mp member with inside | inside | inside
  · exact ofHandle node inside
  · exact ofValue node inside
  · exact ofArguments node inside

/-- What desugaring a form gives, told by what desugaring its parts gives. -/
inductive FormRun : Sugar Node → (first : Nat) → Node → (last : Nat) → Prop where
  /-- The stage of a pipeline is desugared with the desugared value passed to it. -/
  | pipeline {value value' stage result : Node} {first middle last : Nat} :
      Gives (desugarWith none value) first value' middle →
      Gives (desugarWith (some value') stage) middle result last →
      FormRun (.pipeline value stage) first result last
  /-- A loop takes the number after its parts. -/
  | whileLoop {condition condition' : Node} {body body' : List Node} {first middle last : Nat} :
      Gives (desugarWith none condition) first condition' middle →
      Gives (desugarAll body) middle body' last →
      FormRun (.whileLoop condition body) first
        (Expansion.loop (Temporaries.name "loop" last) condition' body') (last + 1)
  /-- A loop over a collection takes two numbers before its parts and one after them. -/
  | forLoop {binding : String} {iterable iterable' : Node} {body body' : List Node}
      {first middle last : Nat} :
      Gives (desugarWith none iterable) (first + 2) iterable' middle →
      Gives (desugarAll body) middle body' last →
      FormRun (.forLoop binding iterable body) first
        (Expansion.forLoop (Temporaries.name "coll" first) (Temporaries.name "idx" (first + 1))
          (Temporaries.name "loop" last) binding iterable' body') (last + 1)
  /-- A name for a handle takes the number before its value. -/
  | bind {name table : String} {value value' : Node} {first last : Nat} :
      Gives (desugarWith none value) (first + 1) value' last →
      FormRun (.bind name table value) first
        (Expansion.bind (Temporaries.name "bind" first) name table value') last
  /-- A name for a content takes no number. -/
  | bindContent {name table : String} {handle handle' : Node} {first last : Nat} :
      Gives (desugarWith none handle) first handle' last →
      FormRun (.bindContent name table handle) first
        (.assign name (Expansion.content table handle') true) last
  /-- A name for a snapshot takes no number. -/
  | bindSnapshot {name table : String} {first : Nat} :
      FormRun (.bindSnapshot name table) first
        (.assign name (Expansion.snapshot table) true) first
  /-- A name for a content inside a body takes no number. -/
  | bindInside {name table : String} {handle handle' : Node} {body body' : List Node}
      {first middle last : Nat} :
      Gives (desugarWith none handle) first handle' middle →
      Gives (desugarAll body) middle body' last →
      FormRun (.bindInside name table handle body) first
        (.sequence (.assignLocal name (Expansion.content table handle') :: body')) last
  /-- A guard takes no number. -/
  | guard {condition condition' : Node} {first last : Nat} :
      Gives (desugarWith none condition) first condition' last →
      FormRun (.guard condition) first (.apply .assert [condition']) last
  /-- A batch takes three numbers before its collection and one after it. -/
  | batch {name table : String} {elements elements' : Node} {mode : BatchMode}
      {first last : Nat} :
      Gives (desugarWith none elements) (first + 3) elements' last →
      FormRun (.batch name table elements mode) first
        (Expansion.batch (Temporaries.name "src" first) (Temporaries.name "acc" (first + 1))
          (Temporaries.name "i" (first + 2)) (Temporaries.name "loop" last) name table elements'
          mode) (last + 1)
  /-- A scope takes no number. -/
  | scope {name parent : String} {body body' : List Node} {first last : Nat} :
      Gives (desugarAll body) first body' last →
      FormRun (.scope name parent body) first (Expansion.scope name parent body') last
  /-- A body with an active table takes no number. -/
  | within {table : String} {body body' : List Node} {first last : Nat} :
      Gives (desugarAll body) first body' last →
      FormRun (.within table body) first (.sequence body') last

/-- Desugaring a form gives what desugaring its parts says. -/
theorem formRun_of_gives {form : Sugar Node} {result : Node} {first last : Nat}
    (run : Gives (desugarForm form) first result last) : FormRun form first result last := by
  cases form with
  | pipeline value stage =>
    simp only [desugarForm, gives_bind] at run
    obtain ⟨_, _, runValue, runStage⟩ := run
    exact .pipeline runValue runStage
  | whileLoop condition body =>
    simp only [desugarForm, gives_bind, gives_fresh, gives_pure] at run
    obtain ⟨_, _, runTest, _, _, runBody, _, _, ⟨rfl, rfl⟩, rfl, rfl⟩ := run
    exact .whileLoop runTest runBody
  | forLoop binding iterable body =>
    simp only [desugarForm, gives_bind, gives_fresh, gives_pure] at run
    obtain ⟨_, _, ⟨rfl, rfl⟩, _, _, ⟨rfl, rfl⟩, _, _, runSource, _, _, runBody, _, _, ⟨rfl, rfl⟩,
      rfl, rfl⟩ := run
    exact .forLoop runSource runBody
  | bind name table value =>
    simp only [desugarForm, gives_bind, gives_fresh, gives_pure] at run
    obtain ⟨_, _, ⟨rfl, rfl⟩, _, _, runValue, rfl, rfl⟩ := run
    exact .bind runValue
  | bindContent name table handle =>
    simp only [desugarForm, gives_bind, gives_pure] at run
    obtain ⟨_, _, runHandle, rfl, rfl⟩ := run
    exact .bindContent runHandle
  | bindSnapshot name table =>
    simp only [desugarForm, gives_pure] at run
    obtain ⟨rfl, rfl⟩ := run
    exact .bindSnapshot
  | bindInside name table handle body =>
    simp only [desugarForm, gives_bind, gives_pure] at run
    obtain ⟨_, _, runHandle, _, _, runBody, rfl, rfl⟩ := run
    exact .bindInside runHandle runBody
  | guard condition =>
    simp only [desugarForm, gives_bind, gives_pure] at run
    obtain ⟨_, _, runTest, rfl, rfl⟩ := run
    exact .guard runTest
  | batch name table elements mode =>
    simp only [desugarForm, gives_bind, gives_fresh, gives_pure] at run
    obtain ⟨_, _, ⟨rfl, rfl⟩, _, _, ⟨rfl, rfl⟩, _, _, ⟨rfl, rfl⟩, _, _, runElements, _, _,
      ⟨rfl, rfl⟩, rfl, rfl⟩ := run
    exact .batch runElements
  | scope name parent body =>
    simp only [desugarForm, gives_bind, gives_pure] at run
    obtain ⟨_, _, runBody, rfl, rfl⟩ := run
    exact .scope runBody
  | within table body =>
    simp only [desugarForm, gives_bind, gives_pure] at run
    obtain ⟨_, _, runBody, rfl, rfl⟩ := run
    exact .within runBody

/-- What desugaring a node alone gives, told by what desugaring its parts gives. -/
inductive AloneRun : Node → (first : Nat) → Node → (last : Nat) → Prop where
  /-- A literal stays as it is. -/
  | literal {content : Literal} {first : Nat} :
      AloneRun (.literal content) first (.literal content) first
  /-- A variable stays as it is. -/
  | var {name : String} {first : Nat} : AloneRun (.var name) first (.var name) first
  /-- A binding gets the desugared value. -/
  | assign {name : String} {value value' : Node} {isNew : Bool} {first last : Nat} :
      Gives (desugarWith none value) first value' last →
      AloneRun (.assign name value isNew) first (.assign name value' isNew) last
  /-- A binding up to the end of a block gets the desugared value. -/
  | assignLocal {name : String} {value value' : Node} {first last : Nat} :
      Gives (desugarWith none value) first value' last →
      AloneRun (.assignLocal name value) first (.assignLocal name value') last
  /-- The parts of a choice are desugared in order. -/
  | branch {condition condition' : Node} {yes yes' no no' : List Node}
      {first middle later last : Nat} :
      Gives (desugarWith none condition) first condition' middle →
      Gives (desugarAll yes) middle yes' later → Gives (desugarAll no) later no' last →
      AloneRun (.branch condition yes no) first (.branch condition' yes' no') last
  /-- The items of a sequence are desugared in order. -/
  | sequence {body body' : List Node} {first last : Nat} :
      Gives (desugarAll body) first body' last →
      AloneRun (.sequence body) first (.sequence body') last
  /-- The operands of a primitive operation are desugared in order. -/
  | apply {primitive : Primitive} {operands operands' : List Node} {first last : Nat} :
      Gives (desugarAll operands) first operands' last →
      AloneRun (.apply primitive operands) first (.apply primitive operands') last
  /-- The target of a call is desugared before its arguments. -/
  | call {target target' : Node} {arguments arguments' : List Node} {first middle last : Nat} :
      Gives (desugarWith none target) first target' middle →
      Gives (desugarAll arguments) middle arguments' last →
      AloneRun (.call target arguments) first (.call target' arguments') last
  /-- The end of a block gets the desugared result. -/
  | finish {operand operand' : Option Node} {first last : Nat} :
      Gives (desugarOption operand) first operand' last →
      AloneRun (.finish operand) first (.finish operand') last
  /-- A store operation gets the desugared operands. -/
  | store {call call' : StoreCall Node} {first last : Nat} :
      Gives (desugarStore call) first call' last →
      AloneRun (.store call) first (.store call') last
  /-- A labeled node is desugared under its label. -/
  | labeled {label : String} {body body' : Node} {first last : Nat} :
      Gives (desugarWith none body) first body' last →
      AloneRun (.labeled label body) first (.labeled label body') last
  /-- A jump stays as it is. -/
  | jump {label : String} {first : Nat} : AloneRun (.jump label) first (.jump label) first
  /-- A form is expanded. -/
  | sugar {form : Sugar Node} {result : Node} {first last : Nat} :
      FormRun form first result last → AloneRun (.sugar form) first result last

/-- Desugaring a node alone gives what desugaring its parts says. -/
theorem aloneRun_of_gives {node result : Node} {first last : Nat}
    (run : Gives (desugarWith none node) first result last) : AloneRun node first result last := by
  cases node with
  | literal content =>
    obtain ⟨rfl, rfl⟩ := gives_pure.mp run
    exact .literal
  | var name =>
    obtain ⟨rfl, rfl⟩ := gives_pure.mp run
    exact .var
  | jump label =>
    obtain ⟨rfl, rfl⟩ := gives_pure.mp run
    exact .jump
  | assign name value isNew =>
    simp only [desugarWith, gives_bind, gives_pure] at run
    obtain ⟨_, _, runValue, rfl, rfl⟩ := run
    exact .assign runValue
  | assignLocal name value =>
    simp only [desugarWith, gives_bind, gives_pure] at run
    obtain ⟨_, _, runValue, rfl, rfl⟩ := run
    exact .assignLocal runValue
  | branch condition yes no =>
    simp only [desugarWith, gives_bind, gives_pure] at run
    obtain ⟨_, _, runTest, _, _, runYes, _, _, runNo, rfl, rfl⟩ := run
    exact .branch runTest runYes runNo
  | sequence body =>
    simp only [desugarWith, gives_bind, gives_pure] at run
    obtain ⟨_, _, runBody, rfl, rfl⟩ := run
    exact .sequence runBody
  | apply primitive operands =>
    simp only [desugarWith, gives_bind, gives_pure] at run
    obtain ⟨_, _, runOperands, rfl, rfl⟩ := run
    exact .apply runOperands
  | call target arguments =>
    simp only [desugarWith, gives_bind, gives_pure] at run
    obtain ⟨_, _, runTarget, _, _, runArguments, rfl, rfl⟩ := run
    exact .call runTarget runArguments
  | finish operand =>
    cases operand with
    | none =>
      obtain ⟨rfl, rfl⟩ := gives_pure.mp run
      exact .finish (gives_desugarOption_none.mpr ⟨rfl, rfl⟩)
    | some operand =>
      simp only [desugarWith, gives_bind, gives_pure] at run
      obtain ⟨_, _, runOperand, rfl, rfl⟩ := run
      exact .finish (gives_desugarOption_some.mpr ⟨_, runOperand, rfl⟩)
  | store call =>
    simp only [desugarWith, gives_bind, gives_pure] at run
    obtain ⟨_, _, runCall, rfl, rfl⟩ := run
    exact .store runCall
  | labeled label body =>
    simp only [desugarWith, gives_bind, gives_pure] at run
    obtain ⟨_, _, runBody, rfl, rfl⟩ := run
    exact .labeled runBody
  | sugar form =>
    simp only [desugarWith, gives_bind, gives_pure] at run
    obtain ⟨_, _, runForm, rfl, rfl⟩ := run
    exact .sugar (formRun_of_gives runForm)

/-- A name to which a value is passed is called with it. -/
theorem gives_desugarWith_some_var {value result : Node} {name : String} {first last : Nat} :
    Gives (desugarWith (some value) (.var name)) first result last ↔
      .call (.var name) [value] = result ∧ first = last := by
  rw [desugarWith, gives_pure]

/-- A call takes a value that is passed to it as its first argument. The other arguments are
desugared before the target. -/
theorem gives_desugarWith_some_call {value target result : Node} {arguments : List Node}
    {first last : Nat} :
    Gives (desugarWith (some value) (.call target arguments)) first result last ↔
      ∃ arguments' middle target', Gives (desugarAll arguments) first arguments' middle ∧
        Gives (desugarWith none target) middle target' last ∧
        .call target' (value :: arguments') = result := by
  simp only [desugarWith, gives_bind, gives_pure]
  grind

/-- A store operation takes a value that is passed to it as its main operand, if it accepts one. -/
theorem gives_desugarWith_some_store {value result : Node} {call : StoreCall Node}
    {first last : Nat} :
    Gives (desugarWith (some value) (.store call)) first result last ↔
      ∃ call', Gives (desugarStore call) first call' last ∧
        Expansion.supplied call' (some value) = result := by
  simp only [desugarWith, gives_bind, gives_pure]
  grind

/-- Whether a node has a place of its own for a value from a pipeline. -/
def takesValue : Node → Bool
  | var _ | call _ _ | store _ => true
  | _ => false

/-- A node without a place for the value is desugared alone and applied to it. -/
theorem gives_desugarWith_some {node value result : Node} {first last : Nat}
    (apart : node.takesValue = false) :
    Gives (desugarWith (some value) node) first result last ↔
      ∃ stage, Gives (desugarWith none node) first stage last ∧
        .apply .apply [stage, value] = result := by
  cases node with
  | var | call | store => simp [takesValue] at apart
  | finish operand =>
    cases operand <;> simp only [desugarWith, gives_bind, gives_pure, Expansion.applied] <;> grind
  | _ => simp only [desugarWith, gives_bind, gives_pure, Expansion.applied]; grind

end Node

/-- The blocks of a desugared program hold the desugared statements, in order; nothing else of them
changes. -/
theorem Block.of_gives_desugarAll {blocks results : List Block} {first last : Nat}
    (run : Gives (Block.desugarAll blocks) first results last) :
    Gives (Node.desugarAll (blocks.flatMap Block.body)) first (results.flatMap Block.body) last ∧
      results.map (fun block => { block with body := [] }) =
        blocks.map fun block => { block with body := [] } := by
  induction blocks generalizing first results with
  | nil =>
    simp only [desugarAll, gives_pure] at run
    obtain ⟨rfl, rfl⟩ := run
    simp
  | cons block rest ih =>
    simp only [desugarAll, Block.desugar, gives_bind, gives_pure] at run
    obtain ⟨_, _, ⟨body, middle, runBody, rfl, rfl⟩, others, _, runRest, rfl, rfl⟩ := run
    obtain ⟨statements, rest⟩ := ih runRest
    refine ⟨?_, ?_⟩
    · rw [List.flatMap_cons, Node.gives_desugarAll_append]
      exact ⟨body, middle, others.flatMap Block.body, runBody, statements, rfl⟩
    · rw [List.map_cons, List.map_cons, rest]

/-- Desugaring a program desugars its statements in order and changes nothing else. -/
theorem Program.of_gives_desugar {program result : Program} {first last : Nat}
    (run : Gives program.desugar first result last) :
    Gives (Node.desugarAll program.statements) first result.statements last ∧
      result.name = program.name ∧ result.tables = program.tables ∧
      result.blocks.map (fun block => { block with body := [] }) =
        program.blocks.map fun block => { block with body := [] } := by
  simp only [desugar, gives_bind, gives_pure] at run
  obtain ⟨blocks, _, runBlocks, rfl, rfl⟩ := run
  obtain ⟨statements, rest⟩ := Block.of_gives_desugarAll runBlocks
  exact ⟨statements, rfl, rfl, rest⟩

end ContentSpace

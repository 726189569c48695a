import ContentSpace.Compile
import ContentSpace.Proofs.Desugar.Run
import ContentSpace.Proofs.Grammar.Program
import ContentSpace.Proofs.Tree.Place

/-!
# Store operations of compiled programs

Every store operation of a compiled program is complete, and its table is declared or is the table
of a scope around it. In a tree without sugar a scope is a sequence that opens its table first and
closes it last.
-/

namespace ContentSpace

open Desugaring Grammar

namespace Node

/-- Every store operation in a tree is complete, and its table is known or is the table of a scope
around it. -/
inductive Resolved : (known : List String) → Node → Prop where
  /-- A complete store operation on a known table. -/
  | store {known : List String} {call : StoreCall Node} :
      call.Complete → call.table ∈ known → (∀ node ∈ call.operands, Resolved known node) →
      Resolved known (.store call)
  /-- A scope, whose table is known in its body. -/
  | scope {known : List String} {name parent : String} {body : List Node} :
      parent ∈ known → (∀ node ∈ body, Resolved (name :: known) node) →
      Resolved known (Expansion.scope name parent body)
  /-- Any other node, when its children are resolved. -/
  | other {known : List String} {node : Node} :
      node.table? = none → (∀ child ∈ node.children, Resolved known child) → Resolved known node

section

variable {known : List String}
  {name label table collection results index binding temporary : String}
  {value condition target : Node} {yes no nodes body : List Node} {primitive : Primitive}
  {content : Literal} {isNew : Bool} {result : Option Node} {mode : BatchMode}

/-- A literal is resolved. -/
@[simp] theorem resolved_literal : Resolved known (literal content) :=
  .other rfl (by simp [children])

/-- A variable is resolved. -/
@[simp] theorem resolved_var : Resolved known (var name) := .other rfl (by simp [children])

/-- A jump is resolved. -/
@[simp] theorem resolved_jump : Resolved known (jump label) := .other rfl (by simp [children])

/-- A binding is resolved when its value is. -/
@[simp] theorem resolved_assign :
    Resolved known (assign name value isNew) ↔ Resolved known value :=
  ⟨fun | .other _ inner => inner value (by simp [children]),
    fun inner => .other rfl (by simpa [children] using inner)⟩

/-- A binding up to the end of a block is resolved when its value is. -/
@[simp] theorem resolved_assignLocal :
    Resolved known (assignLocal name value) ↔ Resolved known value :=
  ⟨fun | .other _ inner => inner value (by simp [children]),
    fun inner => .other rfl (by simpa [children] using inner)⟩

/-- A labeled node is resolved when its body is. -/
@[simp] theorem resolved_labeled : Resolved known (labeled label value) ↔ Resolved known value :=
  ⟨fun | .other _ inner => inner value (by simp [children]),
    fun inner => .other rfl (by simpa [children] using inner)⟩

/-- A choice is resolved when its condition and both sequences are. -/
@[simp] theorem resolved_branch : Resolved known (branch condition yes no) ↔
    Resolved known condition ∧ (∀ node ∈ yes, Resolved known node) ∧
      ∀ node ∈ no, Resolved known node := by
  rw [← List.forall_mem_append, ← List.forall_mem_cons]
  exact ⟨fun | .other _ inner => inner, fun inner => .other rfl inner⟩

/-- A sequence of resolved nodes is resolved. -/
@[simp] theorem resolved_sequence (items : ∀ node ∈ nodes, Resolved known node) :
    Resolved known (sequence nodes) :=
  .other rfl items

/-- A primitive operation is resolved when its operands are. -/
@[simp] theorem resolved_apply :
    Resolved known (apply primitive nodes) ↔ ∀ node ∈ nodes, Resolved known node :=
  ⟨fun | .other _ inner => inner, fun inner => .other rfl inner⟩

/-- A call is resolved when its target and its arguments are. -/
@[simp] theorem resolved_call : Resolved known (Node.call target nodes) ↔
    Resolved known target ∧ ∀ node ∈ nodes, Resolved known node := by
  rw [← List.forall_mem_cons]
  exact ⟨fun | .other _ inner => inner, fun inner => .other rfl inner⟩

/-- The end of a block is resolved when its result is. -/
@[simp] theorem resolved_finish :
    Resolved known (finish result) ↔ ∀ node ∈ result, Resolved known node :=
  ⟨fun | .other _ inner => by simpa [children] using inner,
    fun inner => .other rfl (by simpa [children] using inner)⟩

/-- A loop is resolved when its condition and its body are. -/
@[simp] theorem resolved_loop : Resolved known (Expansion.loop label condition body) ↔
    Resolved known condition ∧ ∀ node ∈ body, Resolved known node := by
  simp [Expansion.loop, or_imp, forall_and]

/-- An element of a collection is resolved. -/
@[simp] theorem resolved_element : Resolved known (Expansion.element collection index) := by
  simp [Expansion.element]

/-- A loop over indices is resolved when its body is. -/
@[simp] theorem resolved_indexLoop :
    Resolved known (Expansion.indexLoop label collection index body) ↔
      ∀ node ∈ body, Resolved known node := by
  simp [Expansion.indexLoop, int, or_imp, forall_and]

/-- A loop over a collection is resolved when the collection and the body are. -/
theorem resolved_forLoop (source : Resolved known value)
    (inner : ∀ node ∈ body, Resolved known node) :
    Resolved known (Expansion.forLoop collection index label binding value body) :=
  resolved_sequence (by simpa [int, source] using inner)

/-- A name for a handle in a known table is resolved when the value is. -/
theorem resolved_bind (inside : table ∈ known) (inner : Resolved known value) :
    Resolved known (Expansion.bind temporary name table value) := by
  have stored : Resolved known (store
      { operator := .collapse, table, tag := some name, value := some (var temporary) }) :=
    .store ⟨rfl, rfl, fun _ => rfl⟩ inside (by simp [StoreCall.operands])
  exact resolved_sequence (by simpa [inner] using stored)

/-- The content of a handle in a known table is resolved when the handle is. -/
theorem resolved_content (inside : table ∈ known) (inner : Resolved known value) :
    Resolved known (Expansion.content table value) :=
  .store ⟨rfl, rfl, nofun⟩ inside (by simpa [StoreCall.operands] using inner)

/-- A snapshot of a known table is resolved. -/
theorem resolved_snapshot (inside : table ∈ known) : Resolved known (Expansion.snapshot table) :=
  .store ⟨rfl, rfl, nofun⟩ inside (by simp [StoreCall.operands])

/-- What a batch does with an element in a known table is resolved. -/
theorem resolved_batchStep (inside : table ∈ known) (inner : Resolved known value) :
    Resolved known (Expansion.batchStep mode name table value) := by
  cases mode with
  | collapse =>
    exact .store ⟨rfl, rfl, fun _ => rfl⟩ inside (by simpa [StoreCall.operands] using inner)
  | resolve => exact resolved_content inside inner

/-- A batch in a known table is resolved when its collection is. -/
theorem resolved_batch (inside : table ∈ known) (inner : Resolved known value) :
    Resolved known (Expansion.batch collection results index label name table value mode) := by
  have step : Resolved known
      (Expansion.batchStep mode name table (Expansion.element collection index)) :=
    resolved_batchStep inside resolved_element
  exact resolved_sequence (by simp [int, inner, step])

/-- An operation to which a value is passed is complete, whether it takes the value or not. -/
theorem resolved_supplied {call : StoreCall Node}
    (awaits : call.acceptsPiped = true → call.Awaiting)
    (complete : call.acceptsPiped = false → call.Complete) (inside : call.table ∈ known)
    (operands : ∀ node ∈ call.operands, Resolved known node) (given : Resolved known value) :
    Resolved known (Expansion.supplied call (some value)) := by
  rcases Expansion.supplied_some call value with
    ⟨filled, accepts, supplied, same⟩ | ⟨refuses, same⟩
  · have settled := (awaits accepts).complete supplied
    have table := (StoreCall.of_supply? supplied).2.1
    have perm := StoreCall.operands_perm accepts supplied
    have all : ∀ node ∈ filled.operands, Resolved known node := by
      intro node member
      rcases List.mem_cons.mp (perm.mem_iff.mp member) with rfl | old
      · exact given
      · exact operands node old
    rw [same]
    exact .store settled (table ▸ inside) all
  · have stage : Resolved known (store call) := .store (complete refuses) inside operands
    rw [same]
    simp [stage, given]

end

/-- What desugaring gives for a node is resolved, also when a resolved value is passed to it. -/
def Resolves (known : List String) (node : Node) : Prop :=
  (∀ ⦃first result last⦄, Gives (desugarWith none node) first result last →
    Resolved known result) ∧
  ∀ ⦃value first result last⦄, Resolved known value →
    Gives (desugarWith (some value) node) first result last → Resolved known result

/-- A node without a place for a value resolves when it does so alone. -/
theorem Resolves.of_alone {known : List String} {node : Node} (apart : node.takesValue = false)
    (alone : ∀ ⦃first result last⦄, Gives (desugarWith none node) first result last →
      Resolved known result) : Resolves known node := by
  refine ⟨alone, fun value first result last given run => ?_⟩
  obtain ⟨stage, runStage, rfl⟩ := (gives_desugarWith_some apart).mp run
  simpa [given] using alone runStage

/-- A form resolves when its expansion is resolved. -/
theorem Resolves.of_form {known : List String} {form : Sugar Node}
    (alone : ∀ ⦃first result last⦄, FormRun form first result last → Resolved known result) :
    Resolves known (.sugar form) := by
  refine .of_alone rfl fun first result last run => ?_
  cases aloneRun_of_gives run with
  | sugar runForm => exact alone runForm

/-- Nodes that resolve one by one give resolved nodes. -/
theorem Resolves.all {known : List String} {nodes results : List Node} {first last : Nat}
    (each : ∀ node ∈ nodes, Resolves known node)
    (run : Gives (desugarAll nodes) first results last) :
    ∀ result ∈ results, Resolved known result :=
  forall_of_gives_desugarAll (fun node member _ _ _ run => (each node member).1 run) run

/-- The operands of a store operation that resolve one by one give resolved operands. -/
theorem Resolves.operands {known : List String} {call result : StoreCall Node} {first last : Nat}
    (each : ∀ node ∈ call.operands, Resolves known node)
    (run : Gives (desugarStore call) first result last) :
    ∀ operand ∈ result.operands, Resolved known operand :=
  forall_operands_of_gives_desugarStore (fun node member _ _ _ run => (each node member).1 run) run

end Node

/-- A complete store operation is complete when desugared, and keeps its table. -/
theorem StoreCall.Complete.desugared {call result : StoreCall Node} {first last : Nat}
    (complete : call.Complete) (run : Gives (Node.desugarStore call) first result last) :
    result.Complete ∧ result.table = call.table := by
  obtain ⟨operators, tables, tags, handles, values, counts⟩ :=
    Node.shape_of_gives_desugarStore run
  exact ⟨complete.congr operators tags handles values counts, tables⟩

/-- A store operation that awaits its main operand does so when desugared, and keeps its table. -/
theorem StoreCall.Awaiting.desugared {call result : StoreCall Node} {first last : Nat}
    (awaiting : call.Awaiting) (run : Gives (Node.desugarStore call) first result last) :
    result.Awaiting ∧ result.table = call.table := by
  obtain ⟨operators, tables, tags, handles, values, counts⟩ :=
    Node.shape_of_gives_desugarStore run
  exact ⟨awaiting.congr operators tags handles values counts, tables⟩

open Node

/-- Trees that source text stands for resolve. -/
theorem Grammar.Built.resolves {isName : String → Prop} {known : List String} {node : Node}
    (built : Built isName known node) : Resolves known node := by
  induction built with
  | literal content =>
    refine .of_alone rfl fun first result last run => ?_
    cases aloneRun_of_gives run with
    | literal => exact resolved_literal
  | var _ =>
    refine ⟨fun first result last run => ?_, fun value first result last given run => ?_⟩
    · cases aloneRun_of_gives run with
      | var => exact resolved_var
    · obtain ⟨rfl, -⟩ := gives_desugarWith_some_var.mp run
      simpa using given
  | assign _ _ _ ih =>
    refine .of_alone rfl fun first result last run => ?_
    cases aloneRun_of_gives run with
    | assign runValue => exact resolved_assign.mpr (ih.1 runValue)
  | assignLocal _ _ ih =>
    refine .of_alone rfl fun first result last run => ?_
    cases aloneRun_of_gives run with
    | assignLocal runValue => exact resolved_assignLocal.mpr (ih.1 runValue)
  | branch _ _ _ ihTest ihYes ihNo =>
    refine .of_alone rfl fun first result last run => ?_
    cases aloneRun_of_gives run with
    | branch runTest runYes runNo =>
      exact resolved_branch.mpr
        ⟨ihTest.1 runTest, Resolves.all ihYes runYes, Resolves.all ihNo runNo⟩
  | apply _ ih =>
    refine .of_alone rfl fun first result last run => ?_
    cases aloneRun_of_gives run with
    | apply runOperands => exact resolved_apply.mpr (Resolves.all ih runOperands)
  | call _ _ ihTarget ihArguments =>
    refine ⟨fun first result last run => ?_, fun value first result last given run => ?_⟩
    · cases aloneRun_of_gives run with
      | call runTarget runArguments =>
        exact resolved_call.mpr ⟨ihTarget.1 runTarget, Resolves.all ihArguments runArguments⟩
    · obtain ⟨arguments, _, target, runArguments, runTarget, rfl⟩ :=
        gives_desugarWith_some_call.mp run
      have others := Resolves.all ihArguments runArguments
      exact resolved_call.mpr ⟨ihTarget.1 runTarget, List.forall_mem_cons.mpr ⟨given, others⟩⟩
  | finish _ ih =>
    refine .of_alone rfl fun first result last run => ?_
    cases aloneRun_of_gives run with
    | finish runOperand =>
      exact resolved_finish.mpr (forall_of_gives_desugarOption
        (fun node inside _ _ _ run => (ih node inside).1 run) runOperand)
  | store complete inside _ ih =>
    refine ⟨fun first result last run => ?_, fun value first result last given run => ?_⟩
    · cases aloneRun_of_gives run with
      | store runCall =>
        obtain ⟨settled, table⟩ := complete.desugared runCall
        exact .store settled (table ▸ inside) (Resolves.operands ih runCall)
    · obtain ⟨call, runCall, rfl⟩ := gives_desugarWith_some_store.mp run
      obtain ⟨settled, table⟩ := complete.desugared runCall
      exact resolved_supplied settled.awaiting (fun _ => settled) (table ▸ inside)
        (Resolves.operands ih runCall) given
  | pipeline _ _ ihValue ihStage =>
    refine .of_form fun first result last run => ?_
    cases run with
    | pipeline runValue runStage => exact ihStage.2 (ihValue.1 runValue) runStage
  | feed _ awaiting inside _ ihValue ih =>
    refine .of_form fun first result last run => ?_
    cases run with
    | pipeline runValue runStage =>
      obtain ⟨call, runCall, rfl⟩ := gives_desugarWith_some_store.mp runStage
      obtain ⟨settled, table⟩ := awaiting.desugared runCall
      refine resolved_supplied (fun _ => settled) (fun refuses => ?_) (table ▸ inside)
        (Resolves.operands ih runCall) (ihValue.1 runValue)
      rw [settled.accepts] at refuses
      cases refuses
  | whileLoop _ _ ihTest ihBody =>
    refine .of_form fun first result last run => ?_
    cases run with
    | whileLoop runTest runBody =>
      exact resolved_loop.mpr ⟨ihTest.1 runTest, Resolves.all ihBody runBody⟩
  | forLoop _ _ _ ihSource ihBody =>
    refine .of_form fun first result last run => ?_
    cases run with
    | forLoop runSource runBody =>
      exact resolved_forLoop (ihSource.1 runSource) (Resolves.all ihBody runBody)
  | bind _ inside _ ih =>
    refine .of_form fun first result last run => ?_
    cases run with
    | bind runValue => exact resolved_bind inside (ih.1 runValue)
  | bindContent _ inside _ ih =>
    refine .of_form fun first result last run => ?_
    cases run with
    | bindContent runHandle =>
      exact resolved_assign.mpr (resolved_content inside (ih.1 runHandle))
  | bindSnapshot _ inside =>
    refine .of_form fun first result last run => ?_
    cases run with
    | bindSnapshot => exact resolved_assign.mpr (resolved_snapshot inside)
  | bindInside _ inside _ _ ihHandle ihBody =>
    refine .of_form fun first result last run => ?_
    cases run with
    | bindInside runHandle runBody =>
      have head := resolved_content inside (ihHandle.1 runHandle)
      exact resolved_sequence (List.forall_mem_cons.mpr
        ⟨resolved_assignLocal.mpr head, Resolves.all ihBody runBody⟩)
  | guard _ ih =>
    refine .of_form fun first result last run => ?_
    cases run with
    | guard runTest => exact resolved_apply.mpr (List.forall_mem_singleton.mpr (ih.1 runTest))
  | batch _ inside _ ih =>
    refine .of_form fun first result last run => ?_
    cases run with
    | batch runElements => exact resolved_batch inside (ih.1 runElements)
  | scope _ _ outer _ ih =>
    refine .of_form fun first result last run => ?_
    cases run with
    | scope runBody => exact .scope outer (Resolves.all ih runBody)
  | within _ _ ih =>
    refine .of_form fun first result last run => ?_
    cases run with
    | within runBody => exact resolved_sequence (Resolves.all ih runBody)

/-- A place is inside the scope of a table, after the node that opens it. -/
def Node.InScope (node : Node) (table : String) (place : List Nat) : Prop :=
  ∃ above i below parent body, place = above ++ (i + 1) :: below ∧
    node.at? above = some (Expansion.scope table parent body)

/-- A place inside a scope in a child is inside that scope. -/
theorem Node.InScope.child {node child : Node} {table : String} {k : Nat} {place : List Nat}
    (stands : node.children[k]? = some child) (inner : child.InScope table place) :
    node.InScope table (k :: place) := by
  obtain ⟨above, i, below, parent, body, rfl, found⟩ := inner
  exact ⟨k :: above, i, below, parent, body, rfl, atIn?_cons_eq_some.mpr ⟨child, stands, found⟩⟩

/-- A store operation at a place of a resolved tree is complete, and its table is known or the place
is inside its scope. -/
theorem Node.Resolved.at_place {known : List String} {node : Node} (resolved : Resolved known node)
    {place : List Nat} {call : StoreCall Node} (here : node.at? place = some (.store call)) :
    call.Complete ∧ (call.table ∈ known ∨ node.InScope call.table place) := by
  induction resolved generalizing place with
  | store complete inside _ ih =>
    cases place with
    | nil =>
      cases here
      exact ⟨complete, .inl inside⟩
    | cons k place =>
      obtain ⟨child, stands, found⟩ := atIn?_cons_eq_some.mp here
      obtain ⟨settled, table⟩ := ih child (List.mem_of_getElem? stands) found
      exact ⟨settled, table.imp_right (.child stands)⟩
  | other apart _ ih =>
    cases place with
    | nil =>
      cases here
      cases apart
    | cons k place =>
      obtain ⟨child, stands, found⟩ := atIn?_cons_eq_some.mp here
      obtain ⟨settled, table⟩ := ih child (List.mem_of_getElem? stands) found
      exact ⟨settled, table.imp_right (.child stands)⟩
  | @scope known name parent body outer _ ih =>
    -- The markers have no operands, so a store operation at a place in one is the marker itself.
    have marker {opening : StoreCall Node} {place : List Nat} (bare : opening.operands = [])
        (found : (Node.store opening).at? place = some (.store call)) : call = opening := by
      cases place with
      | nil =>
        cases found
        rfl
      | cons k place => simp [at?, children, bare] at found
    cases place with
    | nil => cases here
    | cons k place =>
      obtain ⟨child, stands, found⟩ := atIn?_cons_eq_some.mp here
      cases k with
      | zero =>
        cases stands
        obtain rfl := marker rfl found
        exact ⟨⟨rfl, rfl, by intro taken; cases taken⟩, .inl outer⟩
      | succ i =>
        have around : (Expansion.scope name parent body).InScope name ((i + 1) :: place) :=
          ⟨[], i, place, parent, body, rfl, rfl⟩
        have later : (body ++ [.store { operator := .scopeClose, table := name }])[i]? =
            some child := stands
        rcases List.mem_append.mp (List.mem_of_getElem? later) with inside | closing
        · obtain ⟨settled, table⟩ := ih child inside found
          rcases table with table | deeper
          · rcases List.mem_cons.mp table with same | table
            · exact ⟨settled, .inr (same ▸ around)⟩
            · exact ⟨settled, .inl table⟩
          · exact ⟨settled, .inr (deeper.child stands)⟩
        · obtain rfl := List.mem_singleton.mp closing
          obtain rfl := marker rfl found
          exact ⟨⟨rfl, rfl, by intro taken; cases taken⟩, .inr around⟩

/-- Compiled programs are desugared programs that source text stands for. -/
theorem exists_of_compile {settings : Settings} {source : String} {program : Program}
    (compiled : compile settings source = .ok program) :
    ∃ parsed, parseProgram settings source = .ok parsed ∧ (parsed.desugar.run {}).1 = program := by
  unfold compile at compiled
  cases run : parseProgram settings source with
  | error failure =>
    rw [run] at compiled
    cases compiled
  | ok parsed =>
    rw [run] at compiled
    cases compiled
    exact ⟨parsed, rfl, rfl⟩

/-- Every store operation of a compiled program has its main operand, a suitable number of operands,
and the tag of what it stores. Its table is a table of the program, or the table of a scope that is
open at its place: a sequence around it opens the table first and closes it last. -/
theorem compile_resolved {settings : Settings} {source : String} {program : Program}
    (compiled : compile settings source = .ok program) {place : List Nat} {call : StoreCall Node}
    (here : program.at? place = some (.store call)) :
    call.lacksMain = false ∧
    call.operator.admits call.operands.length = true ∧
    (call.operator.takesTag = true → call.tag.isSome = true) ∧
    (call.table ∈ program.tables ∨
      ∃ above i below parent body, place = above ++ (i + 1) :: below ∧
        program.at? above = some (.sequence (
          .store { operator := .scopeOpen, table := parent, tag := some call.table } ::
            body ++ [.store { operator := .scopeClose, table := call.table }]))) := by
  obtain ⟨parsed, run, rfl⟩ := exists_of_compile compiled
  have built : BuiltProgram (fun _ => True) parsed :=
    parseProgram_built (fun _ _ _ => trivial) run
  obtain ⟨statements, -, tables, -⟩ := Program.of_gives_desugar (exists_gives parsed.desugar {})
  have resolved : ∀ node ∈ (parsed.desugar.run {}).1.statements, Resolved parsed.tables node := by
    refine Resolves.all (fun node member => ?_) statements
    obtain ⟨block, inside, stands⟩ := List.mem_flatMap.mp member
    exact ((built.blocks block inside).body node stands).resolves
  cases place with
  | nil => cases here
  | cons k place =>
    obtain ⟨statement, stands, found⟩ := atIn?_cons_eq_some.mp here
    obtain ⟨complete, table⟩ := (resolved statement (List.mem_of_getElem? stands)).at_place found
    refine ⟨complete.main, complete.arity, complete.tagged, ?_⟩
    rcases table with table | ⟨above, i, below, parent, body, rfl, around⟩
    · exact .inl (tables ▸ table)
    · exact .inr ⟨k :: above, i, below, parent, body, rfl,
        atIn?_cons_eq_some.mpr ⟨statement, stands, around⟩⟩

/-- A node with a table is a store operation on it. -/
theorem Node.exists_of_table? {node : Node} {table : String} (found : node.table? = some table) :
    ∃ call, node = .store call ∧ call.table = table := by
  cases node with
  | store call => exact ⟨call, rfl, Option.some.inj found⟩
  | _ => cases found

/-- The stage of a pipeline in a scope works on the table of the scope, which is not declared. -/
theorem compile_resolved_inside_scope :
    let source :=
      "program p\x7blatent table t;block b()\x7blatent scope<t> s\x7b1|>collapse;\x7d\x7d\x7d"
    ∃ program call, compile {} source = .ok program ∧
      program.at? [0, 1] = some (.store call) ∧ call.table = "s" ∧ program.tables = ["t"] ∧
      call.operator.admits call.operands.length = true ∧
      ∃ above i below parent body, [0, 1] = above ++ (i + 1) :: below ∧
        program.at? above = some (.sequence (
          .store { operator := .scopeOpen, table := parent, tag := some call.table } ::
            body ++ [.store { operator := .scopeClose, table := call.table }])) := by
  intro source
  have seen : ((compile {} source).toOption.map fun program =>
      ((program.at? [0, 1]).bind Node.table?, program.tables)) = some (some "s", ["t"]) := by
    decide +kernel
  obtain ⟨program, compiled, facts⟩ := Option.map_eq_some_iff.mp seen
  have compiled := ok_of_toOption_eq_some compiled
  obtain ⟨named, tables⟩ := Prod.mk.inj facts
  obtain ⟨node, here, named⟩ := Option.bind_eq_some_iff.mp named
  obtain ⟨call, rfl, table⟩ := Node.exists_of_table? named
  obtain ⟨-, arity, -, place⟩ := compile_resolved compiled here
  have undeclared : call.table ∉ program.tables := by
    rw [table, tables]
    decide
  exact ⟨program, call, compiled, here, table, tables, arity, place.resolve_left undeclared⟩

end ContentSpace

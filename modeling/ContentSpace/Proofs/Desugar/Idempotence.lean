import ContentSpace.Proofs.Desugar.Canonical
import ContentSpace.Proofs.Tree.Sameness

/-!
# Desugaring twice

A tree without sugar comes back as it is, and no name is given out for it; any other tree changes.
Desugaring twice is therefore desugaring once, whichever supply of names the second time starts
with. The two results are the same tree; compared as trees they are equal unless a literal in them
is no number.

A value of a pipeline is desugared before its stage. Putting the desugared value into its place
first, and desugaring the filled stage, makes no difference.
-/

namespace ContentSpace

open Desugaring

namespace Node

/-- Nodes that desugar to themselves do so in a row. -/
theorem desugarAll_eq_pure {nodes : List Node}
    (each : ∀ node ∈ nodes, desugarWith none node = pure node) : desugarAll nodes = pure nodes := by
  induction nodes with
  | nil => rfl
  | cons node rest ih =>
    have here := each node (List.mem_cons_self ..)
    have later := ih fun node member => each node (List.mem_cons_of_mem _ member)
    rw [desugarAll, here, later, pure_bind, pure_bind]

/-- An operand that desugars to itself does so where it stands. -/
theorem desugarOption_eq_pure {operand : Option Node}
    (each : ∀ node ∈ operand, desugarWith none node = pure node) :
    desugarOption operand = pure operand := by
  cases operand with
  | none => rfl
  | some node => rw [desugarOption, each node rfl, pure_bind]

/-- A store operation whose operands desugar to themselves does so too. -/
theorem desugarStore_eq_pure {call : StoreCall Node}
    (each : ∀ node ∈ call.operands, desugarWith none node = pure node) :
    desugarStore call = pure call := by
  obtain ⟨operator, table, handle, value, tag, arguments⟩ := call
  have ofHandle := desugarOption_eq_pure fun node inside =>
    each node (StoreCall.mem_operands.mpr (.inl inside))
  have ofValue := desugarOption_eq_pure fun node inside =>
    each node (StoreCall.mem_operands.mpr (.inr (.inl inside)))
  have ofArguments := desugarAll_eq_pure fun node inside =>
    each node (StoreCall.mem_operands.mpr (.inr (.inr inside)))
  rw [desugarStore, ofHandle, pure_bind, ofValue, pure_bind, ofArguments, pure_bind]

/-- A tree without sugar stays as it is, and no name is given out. -/
theorem SugarFree.desugar_eq_pure {node : Node} (free : node.SugarFree) :
    desugarWith none node = pure node := by
  induction free with
  | literal content => rfl
  | var name => rfl
  | jump label => rfl
  | assign _ ih | assignLocal _ ih | labeled _ ih =>
    rw [desugarWith, ih, pure_bind]
    rfl
  | branch _ _ _ ihTest ihYes ihNo =>
    rw [desugarWith, ihTest, pure_bind, desugarAll_eq_pure ihYes, pure_bind,
      desugarAll_eq_pure ihNo, pure_bind]
    rfl
  | sequence _ ih | apply _ ih =>
    rw [desugarWith, desugarAll_eq_pure ih, pure_bind]
    rfl
  | call _ _ ihTarget ihArguments =>
    rw [desugarWith, ihTarget, pure_bind, desugarAll_eq_pure ihArguments, pure_bind]
  | @finish operand _ ih =>
    cases operand with
    | none => rfl
    | some operand =>
      rw [desugarWith, ih operand rfl, pure_bind]
      rfl
  | @store call _ _ _ ihHandle ihValue ihArguments =>
    have each : ∀ node ∈ call.operands, desugarWith none node = pure node := by
      intro node member
      rcases StoreCall.mem_operands.mp member with inside | inside | inside
      · exact ihHandle node inside
      · exact ihValue node inside
      · exact ihArguments node inside
    rw [desugarWith, desugarStore_eq_pure each, pure_bind]
    rfl

/-- Desugared trees are free of sugar. -/
theorem sugarFree_desugar (node : Node) (temporaries : Temporaries) :
    (node.desugar.run temporaries).1.SugarFree :=
  (sugarFree_of_gives node).1 (exists_gives node.desugar temporaries)

/-- Exactly the trees without sugar come back as they are without a name given out. -/
theorem desugar_run_eq_self_iff {node : Node} {temporaries : Temporaries} :
    node.desugar.run temporaries = (node, temporaries) ↔ node.SugarFree := by
  constructor
  · intro unchanged
    have free := sugarFree_desugar node temporaries
    rwa [unchanged] at free
  · intro free
    rw [desugar, free.desugar_eq_pure]
    rfl

/-- Desugaring a tree again, with any supply of names, gives it back and no name out. -/
theorem desugar_run_desugar (node : Node) (first later : Temporaries) :
    (node.desugar.run first).1.desugar.run later = ((node.desugar.run first).1, later) :=
  desugar_run_eq_self_iff.mpr (sugarFree_desugar node first)

/-- A desugared value may as well be put into its place before the operation is desugared. -/
theorem desugarWith_some_store {call filled : StoreCall Node} {value : Node}
    (accepts : call.acceptsPiped = true) (supplied : call.supply? value = some filled)
    (free : value.SugarFree) :
    desugarWith (some value) (.store call) = desugarWith none (.store filled) := by
  have settled := free.desugar_eq_pure
  obtain ⟨operator, table, handle, operand, tag, arguments⟩ := call
  unfold StoreCall.supply? at supplied
  unfold StoreCall.acceptsPiped at accepts
  cases place : operator.slot with
  | none => simp [place] at supplied
  | value =>
    simp only [place, Option.isNone_iff_eq_none, Option.some.injEq] at supplied accepts
    subst supplied accepts
    simp [desugarWith, desugarStore, desugarOption, settled, Expansion.supplied,
      StoreCall.acceptsPiped, StoreCall.supply?, place]
  | handle =>
    simp only [place, Option.isNone_iff_eq_none, Option.some.injEq] at supplied accepts
    subst supplied accepts
    simp [desugarWith, desugarStore, desugarOption, settled, Expansion.supplied,
      StoreCall.acceptsPiped, StoreCall.supply?, place]
  | arguments =>
    simp only [place, Option.some.injEq] at supplied
    subst supplied
    simp [desugarWith, desugarStore, desugarAll, settled, Expansion.supplied,
      StoreCall.acceptsPiped, StoreCall.supply?, place]

end Node

/-- Blocks without sugar stay as they are. -/
theorem Block.desugarAll_eq_pure {blocks : List Block}
    (free : ∀ node ∈ blocks.flatMap Block.body, node.SugarFree) :
    Block.desugarAll blocks = pure blocks := by
  induction blocks with
  | nil => rfl
  | cons block rest ih =>
    rw [List.flatMap_cons, List.forall_mem_append] at free
    have body := Node.desugarAll_eq_pure fun node member => (free.1 node member).desugar_eq_pure
    have head : block.desugar = pure block := by rw [Block.desugar, body, pure_bind]
    rw [desugarAll, head, pure_bind, ih free.2, pure_bind]

namespace Program

/-- No form that stands for others occurs in a program. -/
def SugarFree (program : Program) : Prop := ∀ statement ∈ program.statements, statement.SugarFree

/-- Canonical programs are those free of sugar. -/
theorem isCanonical_iff_sugarFree {program : Program} :
    program.isCanonical = true ↔ program.SugarFree := by
  simp only [isCanonical, List.all_eq_true, Node.isCanonical_iff_sugarFree, SugarFree]

/-- Desugared programs are free of sugar. -/
theorem sugarFree_desugar (program : Program) (temporaries : Temporaries) :
    (program.desugar.run temporaries).1.SugarFree := by
  have run := (of_gives_desugar (exists_gives program.desugar temporaries)).1
  exact Node.forall_of_gives_desugarAll (fun node _ => (Node.sugarFree_of_gives node).1) run

/-- Exactly the programs without sugar come back as they are without a name given out. -/
theorem desugar_run_eq_self_iff {program : Program} {temporaries : Temporaries} :
    program.desugar.run temporaries = (program, temporaries) ↔ program.SugarFree := by
  constructor
  · intro unchanged
    have free := sugarFree_desugar program temporaries
    rwa [unchanged] at free
  · intro free
    rw [desugar, Block.desugarAll_eq_pure free, pure_bind]
    rfl

/-- Desugaring a program again, with any supply of names, gives it back and no name out. -/
theorem desugar_run_desugar (program : Program) (first later : Temporaries) :
    (program.desugar.run first).1.desugar.run later = ((program.desugar.run first).1, later) :=
  desugar_run_eq_self_iff.mpr (sugarFree_desugar program first)

end Program

/-- Desugared trees and programs are canonical, canonical ones are those in which no form stands for
others, and exactly those are given back as they are. Desugaring twice is desugaring once, and the
two results are equal as trees when every literal double in them is a number. -/
theorem desugar_canonical :
    (∀ (node : Node) (first later : Temporaries),
      let once := (node.desugar.run first).1
      let twice := (once.desugar.run later).1
      once.SugarFree ∧
      (node.isCanonical = true ↔ node.SugarFree) ∧
      node.isCanonical = (node.walk.countP WalkEvent.tellsSugar == 0) ∧
      (node.desugar.run first = (node, first) ↔ node.SugarFree) ∧
      once.desugar.run later = (once, later) ∧
      ((twice == once) = true ↔
        ∀ x, .literal (.float x) ∈ once.descendants → x.isNaN = false)) ∧
    (∀ (program : Program) (first later : Temporaries),
      let once := (program.desugar.run first).1
      let twice := (once.desugar.run later).1
      once.SugarFree ∧
      (program.isCanonical = true ↔ program.SugarFree) ∧
      (program.desugar.run first = (program, first) ↔ program.SugarFree) ∧
      once.desugar.run later = (once, later) ∧
      ((twice == once) = true ↔
        ∀ x, .literal (.float x) ∈ once.statements.flatMap Node.descendants →
          x.isNaN = false)) := by
  refine ⟨fun node first later => ?_, fun program first later => ?_⟩
  · have again := Node.desugar_run_desugar node first later
    have counted : node.isCanonical = (node.walk.countP WalkEvent.tellsSugar == 0) := by
      rw [Node.countP_tellsSugar_walk, Node.isCanonical]
    refine ⟨Node.sugarFree_desugar node first, Node.isCanonical_iff_sugarFree, counted,
      Node.desugar_run_eq_self_iff, again, ?_⟩
    rw [again]
    exact Node.beq_self_iff
  · have again := Program.desugar_run_desugar program first later
    refine ⟨Program.sugarFree_desugar program first, Program.isCanonical_iff_sugarFree,
      Program.desugar_run_eq_self_iff, again, ?_⟩
    rw [again]
    exact Program.beq_self_iff

/-- A literal that is no number comes back as it is and is still not equal to itself. -/
theorem desugar_twice_ne_of_no_number :
    let once := ((Node.literal (.float .nan)).desugar.run {}).1
    let twice := (once.desugar.run {}).1
    once = .literal (.float .nan) ∧ twice = .literal (.float .nan) ∧ (twice == once) = false := by
  refine ⟨rfl, rfl, ?_⟩
  show Node.same (.literal (.float .nan)) (.literal (.float .nan)) = false
  rw [Node.same_self]
  decide

end ContentSpace

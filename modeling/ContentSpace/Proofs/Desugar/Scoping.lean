import ContentSpace.Proofs.Desugar.Form
import ContentSpace.Proofs.Desugar.Run
import ContentSpace.Proofs.Desugar.Temporary
import ContentSpace.Proofs.Grammar.Built
import Mathlib.Data.List.Pairwise

/-!
# Scoping of temporary names and labels

Desugaring gives every expansion names with numbers of its own, so the names that an expansion
introduces occur in none of its parts, and two parts share none. From this alone it follows that all
marks with one name belong to one expansion.

The proof keeps track of ranges: what is desugared between two numbers mentions names with numbers
between them. Trees desugared one after the other have ranges that do not meet.
-/

namespace ContentSpace

open Desugaring Grammar

namespace Node

/-- No temporary name or label occurs in both trees. -/
def Apart (node other : Node) : Prop := ∀ name, node.Mentions name → ¬ other.Mentions name

/-- Being apart goes both ways. -/
theorem Apart.symm {node other : Node} (apart : node.Apart other) : other.Apart node :=
  fun name mentions mentionsToo => apart name mentionsToo mentions

instance : Std.Symm fun part other : List Nat × Node => part.2.Apart other.2 :=
  ⟨fun _ _ => Apart.symm⟩

/-- At every node of a tree, the parts are apart, and what belongs to the node does not occur in
them. -/
inductive WellScoped : Node → Prop where
  /-- A node in one of the forms, with parts that are well scoped. -/
  | form {node : Node} {own : List (List Nat × Mark)} {parts : List (List Nat × Node)} :
      Form node own parts → (∀ part ∈ parts, WellScoped part.2) →
      parts.Pairwise (fun part other => part.2.Apart other.2) →
      (∀ entry ∈ own, ∀ part ∈ parts, ¬ part.2.Mentions entry.2.name) → WellScoped node

/-- The marks with a name are the own marks of the node at a place. -/
def Owned (marked : List Nat → Mark → Prop) (name : String) (above : List Nat)
    (own : List (List Nat × Mark)) : Prop :=
  ∀ mark, mark.name = name → ∀ place,
    marked place mark ↔ ∃ below, place = above ++ below ∧ (below, mark) ∈ own

/-- A name that occurs in one of several trees that are apart has all its marks in that tree. -/
theorem Owned.among {parts : List (List Nat × Node)}
    (apart : parts.Pairwise fun part other => part.2.Apart other.2) {part : List Nat × Node}
    (member : part ∈ parts) {name : String} (mentions : part.2.Mentions name) {above : List Nat}
    {own : List (List Nat × Mark)} (owned : Owned part.2.HasMark name above own) :
    Owned (HasMarkAmong parts) name (part.1 ++ above) own := by
  intro mark same place
  constructor
  · rintro ⟨other, memberToo, inner, rfl, marked⟩
    have equal : other = part := by
      by_contra different
      exact apart.forall memberToo member different name ⟨inner, mark, marked, same⟩ mentions
    subst equal
    obtain ⟨below, rfl, belongs⟩ := (owned mark same inner).mp marked
    exact ⟨below, by simp, belongs⟩
  · rintro ⟨below, rfl, belongs⟩
    have marked := (owned mark same _).mpr ⟨below, rfl, belongs⟩
    exact ⟨part, member, above ++ below, by simp, marked⟩

/-- All marks with one name in a well-scoped tree belong to one of its nodes and are not in the
parts of that node. -/
theorem WellScoped.home {node : Node} (well : WellScoped node) {name : String}
    (mentions : node.Mentions name) :
    ∃ above inner own parts, node.at? above = some inner ∧ Form inner own parts ∧
      (∀ part ∈ parts, ¬ part.2.Mentions name) ∧ Owned node.HasMark name above own := by
  induction well with
  | @form node own parts form _ apart free ih =>
    by_cases here : ∃ entry ∈ own, entry.2.name = name
    · obtain ⟨entry, belongs, rfl⟩ := here
      have absent := free entry belongs
      refine ⟨[], node, own, parts, rfl, form, absent, fun mark same place => ?_⟩
      have none : ¬ HasMarkAmong parts place mark := fun ⟨part, member, inner, _, marked⟩ =>
        absent part member ⟨inner, mark, marked, same⟩
      simp [form.hasMark_iff, none]
    · have foreign {place : List Nat} {mark : Mark} (same : mark.name = name) :
          (place, mark) ∉ own :=
        fun belongs => here ⟨_, belongs, same⟩
      obtain ⟨place, mark, marked, same⟩ := mentions
      obtain ⟨part, member, inner, -, inside⟩ :=
        (form.hasMark_iff.mp marked).resolve_left (foreign same)
      have mentioned : part.2.Mentions name := ⟨inner, mark, inside, same⟩
      obtain ⟨above, home, ownHome, partsHome, stands, formHome, absent, owned⟩ :=
        ih part member mentioned
      refine ⟨part.1 ++ above, home, ownHome, partsHome, ?_, formHome, absent,
        fun mark same place => ?_⟩
      · rw [at?_append, form.at?_part part member]
        exact stands
      · rw [form.hasMark_iff, or_iff_right (foreign same)]
        exact owned.among apart member mentioned mark same place

/-- Trees that mention only names with numbers from a range, each well scoped and apart from the
others. -/
structure Spread (first last : Nat) (nodes : List Node) : Prop where
  /-- The range does not end before it starts. -/
  ordered : first ≤ last
  /-- Each tree is well scoped. -/
  well : ∀ node ∈ nodes, node.WellScoped
  /-- The trees are apart. -/
  apart : nodes.Pairwise Apart
  /-- The names have numbers from the range. -/
  numbered : ∀ node ∈ nodes, ∀ name, node.Mentions name → Temporaries.Numbered first last name

namespace Spread

variable {first middle last : Nat} {node value : Node} {nodes left right : List Node}

/-- No tree mentions no name. -/
theorem nil (ordered : first ≤ last) : Spread first last [] :=
  ⟨ordered, by simp, .nil, by simp⟩

/-- Names with numbers from a range have numbers from every wider range. -/
theorem widen {start stop : Nat} (spread : Spread first last nodes) (before : start ≤ first)
    (after : last ≤ stop) : Spread start stop nodes where
  ordered := Nat.le_trans before (Nat.le_trans spread.ordered after)
  well := spread.well
  apart := spread.apart
  numbered node member name mentions :=
    (spread.numbered node member name mentions).widen before after

/-- Trees with ranges that do not meet are apart. -/
theorem append (before : Spread first middle left) (after : Spread middle last right) :
    Spread first last (left ++ right) where
  ordered := Nat.le_trans before.ordered after.ordered
  well := List.forall_mem_append.mpr ⟨before.well, after.well⟩
  apart := by
    refine List.pairwise_append.mpr ⟨before.apart, after.apart, fun node inside other later => ?_⟩
    intro name mentions mentionsToo
    exact (before.numbered node inside name mentions).not_later
      (after.numbered other later name mentionsToo)
  numbered := List.forall_mem_append.mpr
    ⟨(before.widen (Nat.le_refl _) after.ordered).numbered,
      (after.widen before.ordered (Nat.le_refl _)).numbered⟩

/-- The order of trees does not matter. -/
theorem perm (spread : Spread first last left) (permuted : left.Perm right) :
    Spread first last right where
  ordered := spread.ordered
  well node member := spread.well node (permuted.mem_iff.mpr member)
  apart := spread.apart.perm permuted Apart.symm
  numbered node member := spread.numbered node (permuted.mem_iff.mpr member)

/-- A node in one of the forms whose own names have numbers before or after those of its parts. -/
theorem form {own : List (List Nat × Mark)} {parts : List (List Nat × Node)} {start stop : Nat}
    (form : Form node own parts) (spread : Spread start stop (parts.map Prod.snd))
    (before : first ≤ start) (after : stop ≤ last)
    (named : ∀ entry ∈ own, Temporaries.Numbered first start entry.2.name ∨
      Temporaries.Numbered stop last entry.2.name) : Spread first last [node] := by
  have inside {part : List Nat × Node} (member : part ∈ parts) : part.2 ∈ parts.map Prod.snd :=
    List.mem_map_of_mem member
  have ordered := Nat.le_trans before (Nat.le_trans spread.ordered after)
  refine ⟨ordered, ?_, List.pairwise_singleton .., ?_⟩
  · refine List.forall_mem_singleton.mpr (.form form (fun part member => ?_) ?_ ?_)
    · exact spread.well part.2 (inside member)
    · exact List.pairwise_map.mp spread.apart
    · intro entry belongs part member mentions
      have numbered := spread.numbered part.2 (inside member) entry.2.name mentions
      rcases named entry belongs with earlier | later
      · exact earlier.not_later numbered
      · exact numbered.not_later later
  · refine List.forall_mem_singleton.mpr fun name ⟨place, mark, marked, same⟩ => ?_
    subst same
    rcases form.hasMark_iff.mp marked with belongs | ⟨part, member, inner, -, marked⟩
    · rcases named _ belongs with earlier | later
      · exact earlier.widen (Nat.le_refl _) (Nat.le_trans spread.ordered after)
      · exact later.widen (Nat.le_trans before spread.ordered) (Nat.le_refl _)
    · have numbered := spread.numbered part.2 (inside member) mark.name ⟨inner, mark, marked, rfl⟩
      exact numbered.widen before after

/-- A node without a mark mentions what its children mention. -/
theorem of_children (unmarked : node.mark? = none) (spread : Spread first last node.children) :
    Spread first last [node] :=
  .form (.plain unmarked) (by simpa using spread) (Nat.le_refl _) (Nat.le_refl _) (by simp)

/-- A node without a mark and without children mentions no name. -/
theorem leaf (unmarked : node.mark? = none) (childless : node.children = []) :
    Spread first first [node] := by
  refine .of_children unmarked ?_
  rw [childless]
  exact .nil (Nat.le_refl _)

/-- The content of a handle mentions what the handle does. -/
theorem content {table : String} (spread : Spread first last [value]) :
    Spread first last [Expansion.content table value] :=
  .of_children rfl spread

/-- An operation to which a value is passed mentions what the value and its operands do, whether it
takes the value or not. -/
theorem supplied {call : StoreCall Node} (given : Spread first middle [value])
    (operands : Spread middle last call.operands) :
    Spread first last [Expansion.supplied call (some value)] := by
  rcases Expansion.supplied_some call value with
    ⟨filled, accepts, supplied, same⟩ | ⟨-, same⟩
  · have permuted := StoreCall.operands_perm accepts supplied
    rw [same]
    exact .of_children rfl ((given.append operands).perm permuted.symm)
  · have stage : Spread middle last [.store call] := .of_children rfl operands
    rw [same]
    exact .of_children rfl ((given.append stage).perm (.swap ..))

section

variable {table name binding : String} {condition iterable elements : Node} {body : List Node}
  {mode : BatchMode}

/-- A loop labels a node with the number after those of its parts. -/
theorem loop (spread : Spread first last (condition :: body)) :
    Spread first (last + 1)
      [Expansion.loop (Temporaries.name "loop" last) condition body] := by
  have label : Temporaries.Numbered last (last + 1) (Temporaries.name "loop" last) :=
    Temporaries.numbered_name (by decide) (Nat.le_refl _) (Nat.lt_succ_self _)
  refine .form .loop (by simpa using spread) (Nat.le_refl _) (Nat.le_succ _) ?_
  simp [Mark.name, label]

/-- A loop over a collection has two variables with numbers before those of its parts, and a label
with the number after them. -/
theorem forLoop (plain : Temporaries.isTemporary binding = false)
    (spread : Spread (first + 2) last (iterable :: body)) :
    Spread first (last + 1) [Expansion.forLoop (Temporaries.name "coll" first)
      (Temporaries.name "idx" (first + 1)) (Temporaries.name "loop" last) binding iterable
      body] := by
  have collection : Temporaries.Numbered first (first + 2) (Temporaries.name "coll" first) :=
    Temporaries.numbered_name (by decide) (by omega) (by omega)
  have index : Temporaries.Numbered first (first + 2) (Temporaries.name "idx" (first + 1)) :=
    Temporaries.numbered_name (by decide) (by omega) (by omega)
  have label : Temporaries.Numbered last (last + 1) (Temporaries.name "loop" last) :=
    Temporaries.numbered_name (by decide) (Nat.le_refl _) (Nat.lt_succ_self _)
  have distinct : Temporaries.name "coll" first ≠ Temporaries.name "idx" (first + 1) :=
    Temporaries.name_ne (by decide) (by decide) (by omega)
  refine .form (.forLoop (by simp) (by simp) plain distinct) (by simpa using spread)
    (by omega) (Nat.le_succ _) ?_
  simp [Mark.name, collection, index, label]

/-- A name for a handle has a variable with the number before those of the value. -/
theorem bind (plain : Temporaries.isTemporary name = false)
    (spread : Spread (first + 1) last [value]) :
    Spread first last [Expansion.bind (Temporaries.name "bind" first) name table value] := by
  have temporary : Temporaries.Numbered first (first + 1) (Temporaries.name "bind" first) :=
    Temporaries.numbered_name (by decide) (Nat.le_refl _) (Nat.lt_succ_self _)
  refine .form (.bind (by simp) plain) (by simpa using spread) (Nat.le_succ _) (Nat.le_refl _) ?_
  simp [Mark.name, temporary]

/-- A batch has three variables with numbers before those of its collection, and a label with the
number after them. -/
theorem batch (plain : Temporaries.isTemporary name = false)
    (spread : Spread (first + 3) last [elements]) :
    Spread first (last + 1) [Expansion.batch (Temporaries.name "src" first)
      (Temporaries.name "acc" (first + 1)) (Temporaries.name "i" (first + 2))
      (Temporaries.name "loop" last) name table elements mode] := by
  have collection : Temporaries.Numbered first (first + 3) (Temporaries.name "src" first) :=
    Temporaries.numbered_name (by decide) (by omega) (by omega)
  have results : Temporaries.Numbered first (first + 3) (Temporaries.name "acc" (first + 1)) :=
    Temporaries.numbered_name (by decide) (by omega) (by omega)
  have index : Temporaries.Numbered first (first + 3) (Temporaries.name "i" (first + 2)) :=
    Temporaries.numbered_name (by decide) (by omega) (by omega)
  have label : Temporaries.Numbered last (last + 1) (Temporaries.name "loop" last) :=
    Temporaries.numbered_name (by decide) (Nat.le_refl _) (Nat.lt_succ_self _)
  refine .form (.batch (by simp) (by simp) (by simp) plain
    (Temporaries.name_ne (by decide) (by decide) (by omega))
    (Temporaries.name_ne (by decide) (by decide) (by omega))
    (Temporaries.name_ne (by decide) (by decide) (by omega))) (by simpa using spread) (by omega)
    (Nat.le_succ _) ?_
  simp [Mark.name, collection, results, index, label]

end

end Spread

/-- What desugaring gives for a node mentions names with the numbers that were given out. A value
that is passed to it keeps its names. -/
def Scopes (node : Node) : Prop :=
  (∀ ⦃first result last⦄, Gives (desugarWith none node) first result last →
    Spread first last [result]) ∧
  ∀ ⦃start value first result last⦄, Spread start first [value] →
    Gives (desugarWith (some value) node) first result last → Spread start last [result]

namespace Scopes

variable {first last : Nat}

/-- A node without a place for a value scopes its names when it does so alone. -/
theorem of_alone {node : Node} (apart : node.takesValue = false)
    (alone : ∀ ⦃first result last⦄, Gives (desugarWith none node) first result last →
      Spread first last [result]) : Scopes node := by
  refine ⟨alone, fun start value first result last given run => ?_⟩
  obtain ⟨stage, runStage, rfl⟩ := (gives_desugarWith_some apart).mp run
  have both := given.append (alone runStage)
  exact .of_children rfl (both.perm (.swap ..))

/-- A form scopes its names when its expansion does. -/
theorem of_form {form : Sugar Node}
    (alone : ∀ ⦃first result last⦄, FormRun form first result last → Spread first last [result]) :
    Scopes (.sugar form) := by
  refine .of_alone rfl fun first result last run => ?_
  cases aloneRun_of_gives run with
  | sugar runForm => exact alone runForm

/-- Nodes desugared one after the other mention names that were given out one after the other. -/
theorem all {nodes results : List Node} (each : ∀ node ∈ nodes, Scopes node)
    (run : Gives (desugarAll nodes) first results last) : Spread first last results := by
  induction nodes generalizing first results with
  | nil =>
    obtain ⟨rfl, rfl⟩ := gives_desugarAll_nil.mp run
    exact .nil (Nat.le_refl _)
  | cons node rest ih =>
    obtain ⟨result, middle, others, head, tail, rfl⟩ := gives_desugarAll_cons.mp run
    obtain ⟨here, later⟩ := List.forall_mem_cons.mp each
    exact (here.1 head).append (ih later tail)

/-- An operand mentions names that were given out for it. -/
theorem option {operand result : Option Node} (each : ∀ node ∈ operand, Scopes node)
    (run : Gives (desugarOption operand) first result last) : Spread first last result.toList := by
  cases operand with
  | none =>
    obtain ⟨rfl, rfl⟩ := gives_desugarOption_none.mp run
    exact .nil (Nat.le_refl _)
  | some node =>
    obtain ⟨found, inner, rfl⟩ := gives_desugarOption_some.mp run
    exact (each node rfl).1 inner

/-- The operands of a store operation mention names that were given out one after the other. -/
theorem operands {call result : StoreCall Node} (each : ∀ node ∈ call.operands, Scopes node)
    (run : Gives (desugarStore call) first result last) : Spread first last result.operands := by
  obtain ⟨handle, middle, value, later, arguments, runHandle, runValue, runArguments, rfl⟩ :=
    gives_desugarStore.mp run
  have ofHandle := option
    (fun node inside => each node (StoreCall.mem_operands.mpr (.inl inside))) runHandle
  have ofValue := option
    (fun node inside => each node (StoreCall.mem_operands.mpr (.inr (.inl inside)))) runValue
  have ofArguments := all
    (fun node inside => each node (StoreCall.mem_operands.mpr (.inr (.inr inside)))) runArguments
  exact (ofHandle.append ofValue).append ofArguments

end Scopes

end Node

/-- The first part of a name is temporary when the name is. -/
theorem Grammar.isTemporary_leadingPart (name : String) :
    Temporaries.isTemporary (leadingPart name) = Temporaries.isTemporary name := by
  unfold leadingPart nameParts Temporaries.isTemporary
  cases name.toList with
  | nil => rfl
  | cons c rest =>
    by_cases dot : c = '.'
    · subst dot
      rfl
    · cases parts : dotParts rest with
      | nil => simp [dotParts, dot, parts]
      | cons part others => simp [dotParts, dot, parts]

open Node

/-- Trees that source text without temporary names stands for scope their names. -/
theorem Grammar.Built.scopes {known : List String} {node : Node}
    (built : Built (fun name => Temporaries.isTemporary name = false) known node) :
    Scopes node := by
  induction built with
  | literal content =>
    refine .of_alone rfl fun first result last run => ?_
    cases aloneRun_of_gives run with
    | literal => exact .leaf rfl rfl
  | @var _ name plain =>
    have unmarked : (Node.var (leadingPart name)).mark? = none := by
      simp [mark?, isTemporary_leadingPart, plain]
    have leaf (number : Nat) : Spread number number [.var (leadingPart name)] :=
      .leaf unmarked rfl
    refine ⟨fun first result last run => ?_, fun start value first result last given run => ?_⟩
    · cases aloneRun_of_gives run with
      | var => exact leaf first
    · obtain ⟨rfl, rfl⟩ := gives_desugarWith_some_var.mp run
      exact .of_children rfl ((leaf start).append given)
  | assign plain _ _ ih =>
    refine .of_alone rfl fun first result last run => ?_
    cases aloneRun_of_gives run with
    | assign runValue => exact .of_children (by simp [mark?, plain]) (ih.1 runValue)
  | assignLocal plain _ ih =>
    refine .of_alone rfl fun first result last run => ?_
    cases aloneRun_of_gives run with
    | assignLocal runValue => exact .of_children (by simp [mark?, plain]) (ih.1 runValue)
  | branch _ _ _ ihTest ihYes ihNo =>
    refine .of_alone rfl fun first result last run => ?_
    cases aloneRun_of_gives run with
    | branch runTest runYes runNo =>
      exact .of_children rfl
        (((ihTest.1 runTest).append (Scopes.all ihYes runYes)).append (Scopes.all ihNo runNo))
  | apply _ ih =>
    refine .of_alone rfl fun first result last run => ?_
    cases aloneRun_of_gives run with
    | apply runOperands => exact .of_children rfl (Scopes.all ih runOperands)
  | call _ _ ihTarget ihArguments =>
    refine ⟨fun first result last run => ?_, fun start value first result last given run => ?_⟩
    · cases aloneRun_of_gives run with
      | call runTarget runArguments =>
        exact .of_children rfl ((ihTarget.1 runTarget).append (Scopes.all ihArguments runArguments))
    · obtain ⟨arguments, _, target, runArguments, runTarget, rfl⟩ :=
        gives_desugarWith_some_call.mp run
      -- The target is desugared last and stands first.
      have passed := given.append (Scopes.all ihArguments runArguments)
      have drawn := passed.append (ihTarget.1 runTarget)
      exact .of_children rfl (drawn.perm List.perm_append_comm)
  | finish _ ih =>
    refine .of_alone rfl fun first result last run => ?_
    cases aloneRun_of_gives run with
    | finish runOperand => exact .of_children rfl (Scopes.option ih runOperand)
  | store _ _ _ ih =>
    refine ⟨fun first result last run => ?_, fun start value first result last given run => ?_⟩
    · cases aloneRun_of_gives run with
      | store runCall => exact .of_children rfl (Scopes.operands ih runCall)
    · obtain ⟨call, runCall, rfl⟩ := gives_desugarWith_some_store.mp run
      exact given.supplied (Scopes.operands ih runCall)
  | pipeline _ _ ihValue ihStage =>
    refine .of_form fun first result last run => ?_
    cases run with
    | pipeline runValue runStage => exact ihStage.2 (ihValue.1 runValue) runStage
  | feed _ _ _ _ ihValue ih =>
    refine .of_form fun first result last run => ?_
    cases run with
    | pipeline runValue runStage =>
      obtain ⟨call, runCall, rfl⟩ := gives_desugarWith_some_store.mp runStage
      exact (ihValue.1 runValue).supplied (Scopes.operands ih runCall)
  | whileLoop _ _ ihTest ihBody =>
    refine .of_form fun first result last run => ?_
    cases run with
    | whileLoop runTest runBody =>
      exact .loop ((ihTest.1 runTest).append (Scopes.all ihBody runBody))
  | forLoop plain _ _ ihSource ihBody =>
    refine .of_form fun first result last run => ?_
    cases run with
    | forLoop runSource runBody =>
      exact .forLoop plain ((ihSource.1 runSource).append (Scopes.all ihBody runBody))
  | bind plain _ _ ih =>
    refine .of_form fun first result last run => ?_
    cases run with
    | bind runValue => exact .bind plain (ih.1 runValue)
  | bindContent plain _ _ ih =>
    refine .of_form fun first result last run => ?_
    cases run with
    | bindContent runHandle =>
      exact .of_children (by simp [mark?, plain]) (ih.1 runHandle).content
  | @bindSnapshot _ _ table plain _ =>
    refine .of_form fun first result last run => ?_
    cases run with
    | bindSnapshot =>
      have values : Spread first first [.literal (.bool true)] := .leaf rfl rfl
      have snapshot : Spread first first [Expansion.snapshot table] := .of_children rfl values
      exact .of_children (by simp [mark?, plain]) snapshot
  | @bindInside _ name table _ _ plain _ _ _ ihHandle ihBody =>
    refine .of_form fun first result last run => ?_
    cases run with
    | @bindInside _ _ _ handle _ _ _ middle _ runHandle runBody =>
      have content : Spread first middle [Expansion.content table handle] :=
        (ihHandle.1 runHandle).content
      have head : Spread first middle [.assignLocal name (Expansion.content table handle)] :=
        .of_children (by simp [mark?, plain]) content
      exact .of_children rfl (head.append (Scopes.all ihBody runBody))
  | guard _ ih =>
    refine .of_form fun first result last run => ?_
    cases run with
    | guard runTest => exact .of_children rfl (ih.1 runTest)
  | batch plain _ _ ih =>
    refine .of_form fun first result last run => ?_
    cases run with
    | batch runElements => exact .batch plain (ih.1 runElements)
  | @scope _ name parent _ _ _ _ _ ih =>
    refine .of_form fun first result last run => ?_
    cases run with
    | scope runBody =>
      have opening : Spread first first
          [.store { operator := .scopeOpen, table := parent, tag := some name }] :=
        .leaf rfl rfl
      have closing (number : Nat) : Spread number number
          [.store { operator := .scopeClose, table := name }] :=
        .leaf rfl rfl
      exact .of_children rfl ((opening.append (Scopes.all ih runBody)).append (closing _))
  | within _ _ ih =>
    refine .of_form fun first result last run => ?_
    cases run with
    | within runBody => exact .of_children rfl (Scopes.all ih runBody)

end ContentSpace

import ContentSpace.Proofs.Tree.Place

/-!
# How high trees are

A tree fits a number of levels when no way from its root down meets more nodes than that. An
expression is made of literals, variables, choices between single expressions, operations, calls and
pipelines; a tree of an expression of a certain height fits as many levels.
-/

namespace ContentSpace

namespace Node

/-- No way from the root down meets more than a number of nodes. -/
def Fits (levels : Nat) (node : Node) : Prop :=
  ∀ place inner, node.at? place = some inner → place.length < levels

variable {levels more : Nat} {node : Node}

/-- A tree fits more levels than it needs. -/
theorem Fits.mono (fits : node.Fits levels) (le : levels ≤ more) : node.Fits more :=
  fun place inner found => Nat.lt_of_lt_of_le (fits place inner found) le

/-- A tree fits one more level than its children do. -/
theorem fits_succ_iff : node.Fits (levels + 1) ↔ ∀ child ∈ node.children, child.Fits levels := by
  constructor
  · intro fits child member place inner found
    obtain ⟨i, here⟩ := List.mem_iff_getElem?.mp member
    have below := fits (i :: place) inner (atIn?_cons_eq_some.mpr ⟨child, here, found⟩)
    exact Nat.lt_of_succ_lt_succ below
  · intro fits place inner found
    cases place with
    | nil => exact Nat.succ_pos levels
    | cons i place =>
      obtain ⟨child, here, inside⟩ := atIn?_cons_eq_some.mp found
      exact Nat.succ_lt_succ (fits child (List.mem_of_getElem? here) place inner inside)

end Node

/-- Trees of expressions with at most so many levels. -/
inductive ExpressionTree : (levels : Nat) → Node → Prop where
  /-- A literal. -/
  | literal {levels : Nat} (content : Literal) : ExpressionTree (levels + 1) (.literal content)
  /-- A variable. -/
  | var {levels : Nat} (name : String) : ExpressionTree (levels + 1) (.var name)
  /-- A choice between two expressions. -/
  | branch {levels : Nat} {condition yes no : Node} :
      ExpressionTree levels condition → ExpressionTree levels yes → ExpressionTree levels no →
      ExpressionTree (levels + 1) (.branch condition [yes] [no])
  /-- A primitive operation. -/
  | apply {levels : Nat} {primitive : Primitive} {operands : List Node} :
      (∀ node ∈ operands, ExpressionTree levels node) →
      ExpressionTree (levels + 1) (.apply primitive operands)
  /-- A call. -/
  | call {levels : Nat} {target : Node} {arguments : List Node} :
      ExpressionTree levels target → (∀ node ∈ arguments, ExpressionTree levels node) →
      ExpressionTree (levels + 1) (.call target arguments)
  /-- A store operation. -/
  | store {levels : Nat} {call : StoreCall Node} :
      (∀ node ∈ call.operands, ExpressionTree levels node) →
      ExpressionTree (levels + 1) (.store call)
  /-- A pipeline. -/
  | pipeline {levels : Nat} {value stage : Node} :
      ExpressionTree levels value → ExpressionTree levels stage →
      ExpressionTree (levels + 1) (.sugar (.pipeline value stage))

namespace ExpressionTree

variable {levels more : Nat} {node : Node}

/-- An expression has at least one level. -/
theorem exists_eq_succ (tree : ExpressionTree levels node) : ∃ fewer, levels = fewer + 1 := by
  cases tree <;> exact ⟨_, rfl⟩

/-- One more level does no harm. -/
theorem succ (tree : ExpressionTree levels node) : ExpressionTree (levels + 1) node := by
  induction tree with
  | literal content => exact .literal content
  | var name => exact .var name
  | branch _ _ _ test first second => exact .branch test first second
  | apply _ operands => exact .apply operands
  | call _ _ target arguments => exact .call target arguments
  | store _ operands => exact .store operands
  | pipeline _ _ value stage => exact .pipeline value stage

/-- More levels do no harm. -/
theorem mono (tree : ExpressionTree levels node) (le : levels ≤ more) :
    ExpressionTree more node := by
  induction le with
  | refl => exact tree
  | step _ ih => exact ih.succ

/-- The tree of an expression fits the levels of the expression. -/
theorem fits (tree : ExpressionTree levels node) : node.Fits levels := by
  induction tree with
  | literal content => exact Node.fits_succ_iff.mpr (by simp [Node.children])
  | var name => exact Node.fits_succ_iff.mpr (by simp [Node.children])
  | branch _ _ _ test first second =>
    exact Node.fits_succ_iff.mpr (by simpa [Node.children] using ⟨test, first, second⟩)
  | apply _ ih => exact Node.fits_succ_iff.mpr ih
  | call _ _ target arguments =>
    exact Node.fits_succ_iff.mpr (List.forall_mem_cons.mpr ⟨target, arguments⟩)
  | store _ ih => exact Node.fits_succ_iff.mpr ih
  | pipeline _ _ value stage =>
    exact Node.fits_succ_iff.mpr (by simpa [Node.children, Sugar.children] using ⟨value, stage⟩)

end ExpressionTree

end ContentSpace

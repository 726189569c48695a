import ContentSpace.Desugar.Expansion
import Mathlib.Data.List.Basic

/-!
# Supplying the main operand of a store operation

An operation that accepts a value from a pipeline takes it as its main operand; the value then
stands among the operands beside those that were there before. An operation that does not accept it
is applied to it. An operation is complete when it has its main operand, a suitable number of
operands, and its tag; one that awaits its main operand is complete once it is supplied.
-/

namespace ContentSpace

namespace StoreCall

variable {α : Type} {call filled : StoreCall α} {operand : α}

/-- The operands are the handle, the value and the other operands. -/
theorem mem_operands : operand ∈ call.operands ↔
    operand ∈ call.handle ∨ operand ∈ call.value ∨ operand ∈ call.arguments := by
  simp only [operands, List.mem_append, Option.mem_toList, Option.mem_def, or_assoc]

/-- An operation that accepts a value can be supplied with it. -/
theorem exists_supply? (accepts : call.acceptsPiped = true) (operand : α) :
    ∃ filled, call.supply? operand = some filled := by
  unfold acceptsPiped at accepts
  unfold supply?
  cases place : call.operator.slot <;> simp_all

/-- Supplying changes neither the operation nor its table nor its tag. -/
theorem of_supply? (supplied : call.supply? operand = some filled) :
    filled.operator = call.operator ∧ filled.table = call.table ∧ filled.tag = call.tag := by
  unfold supply? at supplied
  cases place : call.operator.slot with
  | none => simp [place] at supplied
  | _ =>
    simp only [place, Option.some.injEq] at supplied
    subst supplied
    exact ⟨rfl, rfl, rfl⟩

/-- The operands of a supplied operation are the old ones and the value. -/
theorem operands_perm (accepts : call.acceptsPiped = true)
    (supplied : call.supply? operand = some filled) :
    filled.operands.Perm (operand :: call.operands) := by
  unfold acceptsPiped at accepts
  unfold supply? at supplied
  cases place : call.operator.slot with
  | none => simp [place] at supplied
  | value =>
    simp only [place, Option.some.injEq] at supplied accepts
    subst supplied
    have absent : call.value = none := Option.isNone_iff_eq_none.mp accepts
    simp only [operands, absent, Option.toList_some, Option.toList_none, List.append_nil,
      List.append_assoc]
    exact List.perm_middle
  | handle =>
    simp only [place, Option.some.injEq] at supplied accepts
    subst supplied
    have absent : call.handle = none := Option.isNone_iff_eq_none.mp accepts
    simp only [operands, absent, Option.toList_some, Option.toList_none, List.nil_append,
      List.cons_append]
    exact List.Perm.refl _
  | arguments =>
    simp only [place, Option.some.injEq] at supplied
    subst supplied
    exact List.perm_middle

/-- An operation with its main operand, as many operands as it admits, and its tag. -/
structure Complete (call : StoreCall α) : Prop where
  /-- The main operand is there. -/
  main : call.lacksMain = false
  /-- The number of operands suits the operation. -/
  arity : call.operator.admits call.operands.length = true
  /-- What is stored has a tag. -/
  tagged : call.operator.takesTag = true → call.tag.isSome = true

/-- An operation that needs nothing but its main operand. -/
structure Awaiting (call : StoreCall α) : Prop where
  /-- The main operand can be supplied. -/
  accepts : call.acceptsPiped = true
  /-- The number of operands suits the operation once the main one is there. -/
  arity : call.operator.admits (call.operands.length + 1) = true
  /-- What is stored has a tag. -/
  tagged : call.operator.takesTag = true → call.tag.isSome = true

/-- An operation that awaits its main operand is complete when it is supplied. -/
theorem Awaiting.complete (awaiting : call.Awaiting)
    (supplied : call.supply? operand = some filled) :
    filled.Complete where
  main := by
    unfold supply? at supplied
    unfold lacksMain
    cases place : call.operator.slot with
    | none => simp [place] at supplied
    | value | handle =>
      simp only [place, Option.some.injEq] at supplied
      subst supplied
      simp [place]
    | arguments =>
      simp only [place, Option.some.injEq] at supplied
      subst supplied
      have least : call.operator.leastArity ≤ 1 := by
        revert place
        cases call.operator <;> decide
      simp only [place, List.length_cons, decide_eq_false_iff_not]
      omega
  arity := by
    rw [(of_supply? supplied).1, (operands_perm awaiting.accepts supplied).length_eq]
    exact awaiting.arity
  tagged := by
    obtain ⟨sameOperator, -, sameTag⟩ := of_supply? supplied
    rw [sameOperator, sameTag]
    exact awaiting.tagged

/-- A complete operation that accepts one more value admits any number of operands. -/
theorem Complete.awaiting (complete : call.Complete) (accepts : call.acceptsPiped = true) :
    call.Awaiting where
  accepts := accepts
  arity := by
    have main := complete.main
    have arity := complete.arity
    unfold acceptsPiped at accepts
    unfold lacksMain at main
    cases place : call.operator.slot with
    | none => simp [place] at accepts
    | value | handle => simp_all
    | arguments =>
      have unbounded : call.operator.greatestArity? = none := by
        revert place
        cases call.operator <;> decide
      simp only [StoreOperator.admits, unbounded, Option.all_none, Bool.and_true,
        decide_eq_true_eq] at arity ⊢
      omega
  tagged := complete.tagged

section

variable {other : StoreCall α} (operators : other.operator = call.operator)
  (tags : other.tag = call.tag) (handles : other.handle.isSome = call.handle.isSome)
  (values : other.value.isSome = call.value.isSome)
  (counts : other.arguments.length = call.arguments.length)
include operators handles values

/-- Operations with operands in the same places accept a value alike. -/
theorem acceptsPiped_congr : other.acceptsPiped = call.acceptsPiped := by
  simp only [acceptsPiped, operators, ← Option.not_isSome, handles, values]

include counts

/-- Operations with operands in the same places lack their main operand alike. -/
theorem lacksMain_congr : other.lacksMain = call.lacksMain := by
  simp only [lacksMain, operators, ← Option.not_isSome, handles, values, counts]

omit operators in
/-- Operations with operands in the same places have as many of them. -/
theorem length_operands_congr : other.operands.length = call.operands.length := by
  simp only [operands, List.length_append, Option.length_toList, handles, values, counts]

include tags

/-- An operation like a complete one is complete. -/
theorem Complete.congr (complete : call.Complete) : other.Complete where
  main := by rw [lacksMain_congr operators handles values counts, complete.main]
  arity := by rw [operators, length_operands_congr handles values counts, complete.arity]
  tagged := by rw [operators, tags]; exact complete.tagged

/-- An operation like one that awaits its main operand awaits it. -/
theorem Awaiting.congr (awaiting : call.Awaiting) : other.Awaiting where
  accepts := by rw [acceptsPiped_congr operators handles values, awaiting.accepts]
  arity := by rw [operators, length_operands_congr handles values counts, awaiting.arity]
  tagged := by rw [operators, tags]; exact awaiting.tagged

end

end StoreCall

/-- A value passed to an operation becomes its main operand if the operation accepts it; else the
operation is applied to the value. -/
theorem Expansion.supplied_some (call : StoreCall Node) (value : Node) :
    (∃ filled, call.acceptsPiped = true ∧ call.supply? value = some filled ∧
      supplied call (some value) = .store filled) ∨
    (call.acceptsPiped = false ∧
      supplied call (some value) = .apply .apply [.store call, value]) := by
  cases accepts : call.acceptsPiped with
  | true =>
    obtain ⟨filled, found⟩ := StoreCall.exists_supply? accepts value
    exact .inl ⟨filled, rfl, found, by simp [supplied, accepts, found]⟩
  | false => exact .inr ⟨rfl, by simp [supplied, applied, accepts]⟩

end ContentSpace

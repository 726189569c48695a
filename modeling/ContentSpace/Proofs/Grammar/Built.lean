import ContentSpace.Grammar.Literal
import ContentSpace.Proofs.Tree.StoreCall

/-!
# Trees that source text stands for

What the grammar builds is described apart from it: the forms a tree can have, where its names come
from, which tables it uses, and which store operations are complete. Only the stage of a pipeline
may lack its main operand. A scope has a name that is not known around it, and its body knows it.
-/

namespace ContentSpace.Grammar

/-- The first part of a dotted name. -/
def leadingPart (name : String) : String := (nameParts name).headD name

/-- A tree that source text stands for, given which texts are names and which tables are known. -/
inductive Built (isName : String → Prop) : (known : List String) → Node → Prop where
  /-- A literal. -/
  | literal {known : List String} (content : Literal) : Built isName known (.literal content)
  /-- The first part of a name as a variable. -/
  | var {known : List String} {name : String} :
      isName name → Built isName known (.var (leadingPart name))
  /-- A binding of a name. A name that is bound again has one part. -/
  | assign {known : List String} {name : String} {value : Node} {isNew : Bool} :
      isName name → (isNew = false → '.' ∉ name.toList) → Built isName known value →
      Built isName known (.assign name value isNew)
  /-- A binding of a name up to the end of a block. -/
  | assignLocal {known : List String} {name : String} {value : Node} :
      isName name → Built isName known value → Built isName known (.assignLocal name value)
  /-- A choice. -/
  | branch {known : List String} {condition : Node} {yes no : List Node} :
      Built isName known condition → (∀ node ∈ yes, Built isName known node) →
      (∀ node ∈ no, Built isName known node) → Built isName known (.branch condition yes no)
  /-- A primitive operation. -/
  | apply {known : List String} {primitive : Primitive} {operands : List Node} :
      (∀ node ∈ operands, Built isName known node) →
      Built isName known (.apply primitive operands)
  /-- A call. -/
  | call {known : List String} {target : Node} {arguments : List Node} :
      Built isName known target → (∀ node ∈ arguments, Built isName known node) →
      Built isName known (.call target arguments)
  /-- The end of a block. -/
  | finish {known : List String} {result : Option Node} :
      (∀ node ∈ result, Built isName known node) → Built isName known (.finish result)
  /-- A complete store operation on a known table. -/
  | store {known : List String} {call : StoreCall Node} :
      call.Complete → call.table ∈ known → (∀ node ∈ call.operands, Built isName known node) →
      Built isName known (.store call)
  /-- A value and a stage. -/
  | pipeline {known : List String} {value stage : Node} :
      Built isName known value → Built isName known stage →
      Built isName known (.sugar (.pipeline value stage))
  /-- A value and a store operation on a known table that awaits it. -/
  | feed {known : List String} {value : Node} {call : StoreCall Node} :
      Built isName known value → call.Awaiting → call.table ∈ known →
      (∀ node ∈ call.operands, Built isName known node) →
      Built isName known (.sugar (.pipeline value (.store call)))
  /-- A loop while a condition holds. -/
  | whileLoop {known : List String} {condition : Node} {body : List Node} :
      Built isName known condition → (∀ node ∈ body, Built isName known node) →
      Built isName known (.sugar (.whileLoop condition body))
  /-- A loop over a collection. -/
  | forLoop {known : List String} {binding : String} {iterable : Node} {body : List Node} :
      isName binding → Built isName known iterable → (∀ node ∈ body, Built isName known node) →
      Built isName known (.sugar (.forLoop binding iterable body))
  /-- A name for a handle in a known table. -/
  | bind {known : List String} {name table : String} {value : Node} :
      isName name → table ∈ known → Built isName known value →
      Built isName known (.sugar (.bind name table value))
  /-- A name for a content in a known table. -/
  | bindContent {known : List String} {name table : String} {handle : Node} :
      isName name → table ∈ known → Built isName known handle →
      Built isName known (.sugar (.bindContent name table handle))
  /-- A name for a snapshot of a known table. -/
  | bindSnapshot {known : List String} {name table : String} :
      isName name → table ∈ known → Built isName known (.sugar (.bindSnapshot name table))
  /-- A name for a content in a known table inside a body. -/
  | bindInside {known : List String} {name table : String} {handle : Node} {body : List Node} :
      isName name → table ∈ known → Built isName known handle →
      (∀ node ∈ body, Built isName known node) →
      Built isName known (.sugar (.bindInside name table handle body))
  /-- A condition that must hold. -/
  | guard {known : List String} {condition : Node} :
      Built isName known condition → Built isName known (.sugar (.guard condition))
  /-- A name for the results of an operation on a known table. -/
  | batch {known : List String} {name table : String} {elements : Node} {mode : BatchMode} :
      isName name → table ∈ known → Built isName known elements →
      Built isName known (.sugar (.batch name table elements mode))
  /-- A new scope inside a known table. -/
  | scope {known : List String} {name parent : String} {body : List Node} :
      isName name → name ∉ known → parent ∈ known →
      (∀ node ∈ body, Built isName (name :: known) node) →
      Built isName known (.sugar (.scope name parent body))
  /-- A body in which a known table is active. -/
  | within {known : List String} {table : String} {body : List Node} :
      table ∈ known → (∀ node ∈ body, Built isName known node) →
      Built isName known (.sugar (.within table body))

namespace Built

variable {isName : String → Prop} {known : List String}

/-- A negative is built when its operand is. -/
theorem negated {node : Node} (built : Built isName known node) :
    Built isName known (negated node) := by
  unfold Grammar.negated
  split
  · split
    · exact .apply (List.forall_mem_singleton.mpr (.literal _))
    · exact .literal _
  · exact .literal _
  · exact .apply (List.forall_mem_singleton.mpr built)

/-- A field is built when its object is. -/
theorem fieldOf {node : Node} (built : Built isName known node) (name : String) :
    Built isName known (fieldOf node name) :=
  .apply (by simpa using ⟨built, .literal _⟩)

/-- An object is built when its fields are. -/
theorem objectOf {fields : List (String × Node)}
    (built : ∀ field ∈ fields, Built isName known field.2) :
    Built isName known (objectOf fields) := by
  refine .apply fun node member => ?_
  obtain ⟨field, inside, here⟩ := List.mem_flatMap.mp member
  rcases List.mem_pair.mp here with rfl | rfl
  · exact .literal _
  · exact built field inside

/-- A contract is built when its arguments are. -/
theorem contractOf {contract : String} {arguments : List Node}
    (built : ∀ argument ∈ arguments, Built isName known argument) :
    Built isName known (contractOf contract arguments) := by
  refine objectOf (List.forall_mem_singleton.mpr (objectOf fun field inside => ?_))
  obtain ⟨⟨argument, i⟩, numbered, rfl⟩ := List.mem_map.mp inside
  exact built argument (List.fst_mem_of_mem_zipIdx numbered)

end Built

section

variable {operator : StoreOperator} {table defaultTag : String} {inStage : Bool}
  {given arguments : List Node} {tag : Option String} {call : StoreCall Node} {supplied : Nat}

/-- What remains of the arguments without the tag suits the operation, and the tag is there. -/
theorem of_splitTag (admits : operator.admits (given.length + inStage.toNat) = true)
    (split : splitTag operator (given.length + inStage.toNat) defaultTag given =
      .ok (arguments, tag)) :
    operator.admits (arguments.length + inStage.toNat) = true ∧
      (operator.takesTag = true → tag.isSome = true) ∧ ∀ node ∈ arguments, node ∈ given := by
  unfold splitTag at split
  split at split
  case isTrue untagged =>
    simp only [Except.ok.injEq, Prod.mk.injEq] at split
    obtain ⟨rfl, rfl⟩ := split
    exact ⟨admits, by simpa using untagged, fun _ => id⟩
  case isFalse tagged =>
    split at split
    case isTrue full =>
      split at split
      case h_1 last =>
        simp only [Except.ok.injEq, Prod.mk.injEq] at split
        obtain ⟨rfl, rfl⟩ := split
        have some : given ≠ [] := by rintro rfl; simp at last
        have count : 0 < given.length := List.length_pos_iff.mpr some
        have two : operator.greatestArity? = .some 2 := by
          revert tagged
          cases operator <;> decide
        have least : operator.leastArity ≤ 1 := by
          revert tagged
          cases operator <;> decide
        refine ⟨?_, fun _ => rfl, fun _ member => List.dropLast_subset _ member⟩
        simp [StoreOperator.admits, two] at full ⊢
        omega
      case h_2 => cases split
    case isFalse =>
      simp only [Except.ok.injEq, Prod.mk.injEq] at split
      obtain ⟨rfl, rfl⟩ := split
      exact ⟨admits, fun _ => rfl, fun _ => id⟩

/-- Arguments that leave the place of the main operand empty suit no operation with one there. -/
theorem lacksMain_of_admits (arity : operator.admits arguments.length = true)
    (noValue : ∀ main others, operator.slot = .value → arguments = main :: others → False)
    (noHandle : ∀ main others, operator.slot = .handle → arguments = main :: others → False) :
    ({ operator, table, tag, arguments } : StoreCall Node).lacksMain = false := by
  have needed : operator.slot ≠ .none → 1 ≤ operator.leastArity := by
    cases operator <;> decide
  have least : operator.leastArity ≤ arguments.length := by
    simp only [StoreOperator.admits, Bool.and_eq_true, decide_eq_true_eq] at arity
    exact arity.1
  cases slot : operator.slot with
  | none => simp [StoreCall.lacksMain, slot]
  | arguments => simp [StoreCall.lacksMain, slot, least]
  | value =>
    cases arguments with
    | nil => simp [slot] at needed least; omega
    | cons main others => exact (noValue main others slot rfl).elim
  | handle =>
    cases arguments with
    | nil => simp [slot] at needed least; omega
    | cons main others => exact (noHandle main others slot rfl).elim

/-- A store operation read from source text works on its table with the arguments given to it. It is
complete, or it is a stage and awaits its main operand. -/
theorem of_storeOf (built : storeOf operator table defaultTag inStage given = .ok call) :
    call.table = table ∧ (∀ node ∈ call.operands, node ∈ given) ∧
      (if inStage then call.Awaiting else call.Complete) := by
  unfold storeOf at built
  simp only at built
  split at built
  case isTrue => cases built
  case isFalse place =>
    split at built
    case isTrue => cases built
    case isFalse admits =>
      have admits : operator.admits (given.length + inStage.toNat) = true := by simpa using admits
      split at built
      case h_1 => cases built
      case h_2 arguments tag split =>
        obtain ⟨arity, tagged, inside⟩ := of_splitTag admits split
        cases inStage with
        | true =>
          simp only [Except.ok.injEq] at built
          subst built
          have accepts : operator.slot ≠ .none := by simpa using place
          refine ⟨rfl, by simpa [StoreCall.operands] using inside, ?_, ?_, tagged⟩
          · cases slot : operator.slot <;> simp_all [StoreCall.acceptsPiped]
          · simpa [StoreCall.operands] using arity
        | false =>
          have placed : call.operator = operator ∧ call.table = table ∧ call.tag = tag ∧
              call.operands = arguments ∧ call.lacksMain = false := by
            split at built
            case h_1 slot =>
              cases built
              simp [StoreCall.operands, StoreCall.lacksMain, slot]
            case h_2 slot =>
              cases built
              simp [StoreCall.operands, StoreCall.lacksMain, slot]
            case h_3 noValue noHandle =>
              cases built
              refine ⟨rfl, rfl, rfl, by simp [StoreCall.operands], ?_⟩
              exact lacksMain_of_admits arity (fun main others => noValue main others rfl)
                fun main others => noHandle main others rfl
          obtain ⟨rfl, sameTable, rfl, rfl, main⟩ := placed
          exact ⟨sameTable, inside, main, arity, tagged⟩

end

end ContentSpace.Grammar

import ContentSpace.Grammar.Expression
import ContentSpace.Proofs.Grammar.Built
import ContentSpace.Proofs.Grammar.Ensures

/-!
# What expressions build

Every expression builds a tree whose names are identifiers of the source and whose tables are known
in the scope it is read in. The proof follows the grammar: each parser of a level builds such trees
when the parsers of the level below do.
-/

namespace ContentSpace

namespace Scope

/-- The tables that are known: the open scopes, the innermost first, and the declared tables. -/
def known (scope : Scope) : List String := scope.opened ++ scope.declared

/-- Every active table is known. -/
def Grounded (scope : Scope) : Prop := ∀ table ∈ scope.active, table ∈ scope.known

variable {scope : Scope} {name operation table : String} {named : Option String} {line : Nat}

/-- A table is known when it is among the known ones. -/
theorem isKnown_iff : scope.isKnown name = true ↔ name ∈ scope.known := by
  simp [isKnown, known, or_comm]

/-- A required table is known. -/
theorem of_require (required : scope.require name line = .ok table) :
    table = name ∧ table ∈ scope.known := by
  unfold require at required
  split at required
  case isTrue found =>
    cases required
    exact ⟨rfl, isKnown_iff.mp found⟩
  case isFalse => cases required

/-- The table of an operation is known. -/
theorem of_resolve (grounded : scope.Grounded)
    (resolved : scope.resolve named operation line = .ok table) : table ∈ scope.known := by
  unfold resolve at resolved
  split at resolved
  case h_1 => exact (of_require resolved).2
  case h_2 =>
    split at resolved
    case h_1 active =>
      cases resolved
      exact grounded table (List.mem_of_mem_head? active)
    case h_2 => cases resolved

end Scope

namespace Grammar

/-- An identifier is a name. -/
def Spells (isName : String → Prop) (token : Token) : Prop :=
  token.kind = .identifier → isName token.text

/-- With every value before it, a stage builds a pipeline. -/
def BuiltStage (isName : String → Prop) (known : List String) (stage : Node) : Prop :=
  ∀ value, Built isName known value → Built isName known (.sugar (.pipeline value stage))

/-- The parsers of a level build trees. -/
structure Level.Builds (isName : String → Prop) (known : List String) (level : Level) : Prop where
  /-- Expressions do. -/
  expression : level.expression.Ensures (Spells isName) (Built isName known)
  /-- Pipelines do. -/
  pipeline : level.pipeline.Ensures (Spells isName) (Built isName known)
  /-- Operands combined by operators do. -/
  combination (least : Nat) : (level.combination least).Ensures (Spells isName) (Built isName known)
  /-- Operands do. -/
  operand : level.operand.Ensures (Spells isName) (Built isName known)
  /-- Store operations do as stages. -/
  stage (operator : StoreOperator) :
    (level.stage operator).Ensures (Spells isName) (BuiltStage isName known)
  /-- Stages after a tree do. -/
  furtherStages {value : Node} : Built isName known value →
    (level.furtherStages value).Ensures (Spells isName) (Built isName known)
  /-- Operators after a tree do. -/
  furtherOperands (least : Nat) {left : Node} : Built isName known left →
    (level.furtherOperands least left).Ensures (Spells isName) (Built isName known)
  /-- Indices, fields and arguments after a tree do. -/
  furtherSelections {node : Node} : Built isName known node →
    (level.furtherSelections node).Ensures (Spells isName) (Built isName known)
  /-- Parts of a name after a tree do. -/
  furtherParts (path : Token) (parts : List String) {node : Node} : Built isName known node →
    (level.furtherParts path parts node).Ensures (Spells isName) (Built isName known)

section

variable {isName : String → Prop} {test : Token → Prop} {env : Environment} {below : Below}

/-- An ascription is taken. -/
theorem ascription_ensures : (ascription env).Ensures test fun _ => True := by
  refine .peek fun next => ?_
  split
  · refine .skip operator_ensures fun _ => ?_
    refine .bind (.consumer name_ensures) fun table _ => ?_
    exact .skip operator_ensures fun _ => .pure trivial
  · exact .pure trivial

/-- The position of a field is taken. -/
theorem position_ensures : (position env).Ensures test fun _ => True := by
  refine .andThen symbol_ensures fun _ _ => ?_
  exact .bind (.consumer ofKind_ensures) fun _ _ => .pure trivial

/-- The table an ascription names, or the active one, is known. -/
theorem of_ascribed (grounded : env.scope.Grounded) {named : Option Token}
    {operation table : String} {line : Nat}
    (found : ascribed env named operation line = .ok table) : table ∈ env.scope.known := by
  unfold ascribed at found
  cases named with
  | none => exact Scope.of_resolve grounded found
  | some named => exact (Scope.of_require found).2

/-- The name of a field is taken. -/
theorem fieldName_ensures : (fieldName env).Ensures test fun _ => True := by
  refine .ahead fun next => ?_
  dsimp only
  split
  · exact .andThen ofKind_ensures fun _ _ => .pure trivial
  · exact .andThen ofKind_ensures fun _ _ => .pure trivial
  · exact .andThen ofKind_ensures fun _ _ => .pure trivial
  · exact .andThen ofKind_ensures fun _ _ => .pure trivial
  · exact .fail

variable (grounded : env.scope.Grounded)
  (deepened : (deepen env below).Ensures (Spells isName)
    fun level => level.Builds isName env.scope.known)
include deepened

/-- An expression builds a tree. -/
theorem expression_builds :
    (expression env below).Ensures (Spells isName) (Built isName env.scope.known) :=
  .before deepened fun _ lower => lower.pipeline

/-- An expression between two symbols builds a tree. -/
theorem enclosed_builds {before after : String} :
    (enclosed env below before after).Ensures (Spells isName) (Built isName env.scope.known) := by
  refine .andThen symbol_ensures fun _ _ => ?_
  refine .bind (.consumer (expression_builds deepened)) fun node built => ?_
  exact .skip symbol_ensures fun _ => .pure built

/-- A field builds a tree. -/
theorem objectField_builds :
    (objectField env below).Ensures (Spells isName)
      fun field => Built isName env.scope.known field.2 := by
  refine .andThen fieldName_ensures fun key _ => .skip symbol_ensures fun _ => ?_
  exact .bind (.consumer (expression_builds deepened)) fun value built => .pure built

/-- A choice between expressions builds a tree. -/
theorem choice_builds :
    (choice env below).Ensures (Spells isName) (Built isName env.scope.known) := by
  refine .andThen keyword_ensures fun _ _ => ?_
  refine .bind (.consumer (enclosed_builds deepened)) fun condition test => ?_
  refine .bind (.consumer (enclosed_builds deepened)) fun yes first => ?_
  refine .skip keyword_ensures fun _ => ?_
  refine .bind (.consumer (enclosed_builds deepened)) fun no second => ?_
  exact .pure (.branch test (List.forall_mem_singleton.mpr first)
    (List.forall_mem_singleton.mpr second))

/-- A contract builds a tree. -/
theorem contract_builds :
    (contract env below).Ensures (Spells isName) (Built isName env.scope.known) := by
  refine .andThen keyword_ensures fun _ _ => ?_
  refine .bind (.consumer ofKind_ensures) fun number _ => ?_
  refine .bind (.consumer (delimited_ensures (expression_builds deepened))) fun given built => ?_
  exact .pure (.contractOf built)

/-- A call in the system namespace builds a tree. -/
theorem systemCall_builds {word : String} {function : List Char} :
    (systemCall env below word function).Ensures (Spells isName)
      (Built isName env.scope.known) := by
  unfold systemCall
  split
  · refine .andThen keyword_ensures fun _ _ => ?_
    refine .bind (.consumer (delimited_ensures (expression_builds deepened))) fun given built => ?_
    exact .pure (.apply built)
  · exact .fail

section
include grounded

/-- A store operation builds a tree, or a stage. -/
theorem storeCall_builds {inStage : Bool} {operator : StoreOperator} :
    (storeCall env below inStage operator).Ensures (Spells isName)
      (if inStage then BuiltStage isName env.scope.known else Built isName env.scope.known) := by
  have finished (word : Token) (table : Option Token) (given : List Node)
      (built : ∀ node ∈ given, Built isName env.scope.known node) :
      Parser.Ensures (Spells isName) (do
        let table ← ascribed env table operator.name word.line
        let call ← (storeOf operator table env.defaultTag inStage given).mapError fun problem =>
          Fault.syntaxError problem word.text word.line
        return Node.store call)
        (if inStage then BuiltStage isName env.scope.known else Built isName env.scope.known) := by
    refine .bind (.check fun table => of_ascribed grounded) fun table known => ?_
    refine .bind (.check fun call made => ok_of_mapError_eq_ok made) fun call made => ?_
    obtain ⟨rfl, inside, complete⟩ := of_storeOf made
    have operands := fun node member => built node (inside node member)
    cases inStage with
    | true => exact .pure fun value first => .feed first complete known operands
    | false => exact .pure (.store complete known operands)
  refine .andThen ofKind_ensures fun word _ => ?_
  refine .bind ascription_ensures fun table _ => ?_
  refine .peek fun next => ?_
  dsimp only
  split
  · refine .bind (.consumer (delimited_ensures (expression_builds deepened))) fun given built => ?_
    exact finished word table given built
  · exact .bind (.pure (by simp)) fun given built => finished word table given built

/-- An atom that starts with a keyword builds a tree. -/
theorem keywordAtom_builds {next : Token} :
    (keywordAtom env below next).Ensures (Spells isName) (Built isName env.scope.known) := by
  unfold keywordAtom
  split
  · exact .andThen keyword_ensures fun _ _ => .pure (.literal _)
  · exact .andThen keyword_ensures fun _ _ => .pure (.literal _)
  · exact .andThen keyword_ensures fun _ _ => .pure (.literal _)
  · exact contract_builds deepened
  · exact choice_builds deepened
  · split
    · exact storeCall_builds grounded deepened
    · exact systemCall_builds deepened
    · exact .fail

/-- An atom other than a name builds a tree. -/
theorem atom_builds :
    (atom env below).Ensures (Spells isName) (Built isName env.scope.known) := by
  refine .ahead fun next => ?_
  dsimp only
  split
  · exact .andThen ofKind_ensures fun _ _ => .bind (.check fun _ _ => trivial) fun _ _ =>
      .pure (.literal _)
  · exact .andThen ofKind_ensures fun _ _ => .bind (.check fun _ _ => trivial) fun _ _ =>
      .pure (.literal _)
  · exact .andThen ofKind_ensures fun _ _ => .pure (.literal _)
  · exact .andThen ofKind_ensures fun _ _ => .pure (.literal _)
  · exact enclosed_builds deepened
  · exact .andThen (delimited_ensures (expression_builds deepened)) fun items built =>
      .pure (.apply built)
  · exact .andThen (delimited_ensures (objectField_builds deepened)) fun fields built =>
      .pure (.objectOf built)
  · exact keywordAtom_builds grounded deepened
  · exact .fail

end

/-- What follows an atom builds a tree around it. -/
theorem furtherSelections_builds {node : Node} (built : Built isName env.scope.known node) :
    (furtherSelections env below node).Ensures (Spells isName) (Built isName env.scope.known) := by
  refine .peek fun next => ?_
  split
  · refine .bind deepened fun lower builds => .skip symbol_ensures fun _ => ?_
    refine .bind (.consumer builds.expression) fun index place => .skip symbol_ensures fun _ => ?_
    exact builds.furtherSelections (.apply (by simp [built, place]))
  split
  · refine .bind deepened fun lower builds => ?_
    refine .bind (.consumer (delimited_ensures builds.expression)) fun given inside => ?_
    exact builds.furtherSelections (.call built inside)
  split
  · refine .bind deepened fun lower builds => .skip symbol_ensures fun _ => .peek fun field => ?_
    split
    · exact .bind (.consumer position_ensures) fun number _ =>
        builds.furtherSelections (built.fieldOf number)
    split
    · exact .bind (.consumer ofKind_ensures) fun path _ => builds.furtherParts path _ built
    · exact .fail
  · exact .pure built

/-- The parts of a name and what follows it build a tree around a node. -/
theorem furtherParts_builds {path : Token} {parts : List String} {node : Node}
    (built : Built isName env.scope.known node) :
    (furtherParts env below path parts node).Ensures (Spells isName)
      (Built isName env.scope.known) := by
  cases parts with
  | nil => exact furtherSelections_builds deepened built
  | cons part parts =>
    refine .bind deepened fun lower builds => ?_
    split
    · exact builds.furtherParts path parts (built.fieldOf part)
    split
    · exact .bind (.consumer position_ensures) fun number _ =>
        builds.furtherSelections (built.fieldOf number)
    · exact .refuse

section
include grounded

/-- An atom with what follows it builds a tree. -/
theorem selection_builds :
    (selection env below).Ensures (Spells isName) (Built isName env.scope.known) := by
  refine .ahead fun next => ?_
  split
  · refine .andThen ofKind_ensures fun path ⟨spells, kind⟩ => ?_
    have leading : Built isName env.scope.known (.var (leadingPart path.text)) :=
      .var (spells kind)
    unfold leadingPart at leading
    split
    case h_1 parts =>
      rw [parts] at leading
      exact furtherSelections_builds deepened leading
    case h_2 parts =>
      rw [parts] at leading
      exact furtherParts_builds deepened leading
  · exact .andThen (atom_builds grounded deepened) fun node => furtherSelections_builds deepened

/-- An operand builds a tree. -/
theorem operand_builds :
    (operand env below).Ensures (Spells isName) (Built isName env.scope.known) := by
  refine .ahead fun next => ?_
  split
  · refine .andThen operator_ensures fun _ _ => .bind deepened fun lower builds => ?_
    refine .bind (.consumer builds.operand) fun node built => ?_
    exact .pure (.apply (List.forall_mem_singleton.mpr built))
  split
  · refine .andThen operator_ensures fun _ _ => .bind deepened fun lower builds => ?_
    refine .peek fun first => ?_
    refine .bind (.consumer builds.operand.counted) fun (node, count) built => ?_
    refine .pure ?_
    split
    · exact .literal _
    · exact built.negated
  · exact selection_builds grounded deepened

end

/-- Operators and their right sides build a tree around an operand. -/
theorem furtherOperands_builds {least : Nat} {left : Node}
    (built : Built isName env.scope.known left) :
    (furtherOperands env below least left).Ensures (Spells isName)
      (Built isName env.scope.known) := by
  refine .peek fun next => ?_
  split
  · exact .pure built
  · refine .skip operator_ensures fun _ => .bind deepened fun lower builds => ?_
    refine .bind (.consumer (builds.combination _)) fun right last => ?_
    exact builds.furtherOperands least (.apply (by simp [built, last]))

/-- Stages build a tree around a value. -/
theorem furtherStages_builds {value : Node} (built : Built isName env.scope.known value) :
    (furtherStages env below value).Ensures (Spells isName) (Built isName env.scope.known) := by
  refine .peek fun next => ?_
  split
  · refine .skip operator_ensures fun _ => .bind deepened fun lower builds => .peek fun next => ?_
    dsimp only
    split
    · exact .bind (.consumer (builds.stage _)) fun stage whole =>
        builds.furtherStages (whole value built)
    · exact .bind (.consumer (builds.combination 1)) fun stage last =>
        builds.furtherStages (.pipeline built last)
  · exact .pure built

include grounded

/-- Operands combined by operators build a tree. -/
theorem combination_builds {least : Nat} :
    (combination env below least).Ensures (Spells isName) (Built isName env.scope.known) :=
  .andThen (operand_builds grounded deepened) fun _ => furtherOperands_builds deepened

/-- The level above a level whose parsers build trees has parsers that build trees. -/
theorem levelAbove_builds : (levelAbove env below).Builds isName env.scope.known where
  expression := expression_builds deepened
  pipeline := .andThen (combination_builds grounded deepened) fun _ => furtherStages_builds deepened
  combination _ := combination_builds grounded deepened
  operand := operand_builds grounded deepened
  stage _ := storeCall_builds grounded deepened
  furtherStages := furtherStages_builds deepened
  furtherOperands _ := furtherOperands_builds deepened
  furtherSelections := furtherSelections_builds deepened
  furtherParts _ _ := furtherParts_builds deepened

end

/-- The parsers of every level build trees. -/
theorem level_builds {isName : String → Prop} {env : Environment} (grounded : env.scope.Grounded)
    (room : Nat) : (level env room).Builds isName env.scope.known := by
  induction room with
  | zero => exact levelAbove_builds grounded .fail
  | succ room ih => exact levelAbove_builds grounded (.pure ih)

end Grammar

end ContentSpace

import ContentSpace.Proofs.Grammar.Expression
import ContentSpace.Proofs.Grammar.Trace.Basic

/-!
# What expressions take and what they blame

No declaration starts in an expression. A keyword that an expression starts with is never the second
token of a declaration; keywords as names of fields stand after a dot, and keywords as names in
objects after a brace or a comma. A fault in an expression names the token it is about, also where
that token was taken before what follows it was read.
-/

namespace ContentSpace

namespace Scope

variable {scope : Scope} {known : Token → Prop} {fault : Fault} {token : Token}

/-- A table that is not known is blamed. -/
theorem pointsAt_of_require (here : known token) (kind : token.kind = .identifier)
    (failed : scope.require token.text token.line = .error fault) :
    fault.PointsAt known := by
  unfold require at failed
  split at failed
  · cases failed
  · cases failed
    exact .undeclaredTable here kind

end Scope

namespace Grammar

variable {known prior : Token → Prop} {env : Environment} {below : Below}

/-- The parsers of a level are traced on known tokens. A store operation as a stage is, where its
word comes next. -/
structure Level.Traces (known : Token → Prop) (env : Environment) (level : Level) : Prop where
  /-- Expressions are. -/
  expression : level.expression.Traces known afterAny fun _ => True
  /-- Pipelines are. -/
  pipeline : level.pipeline.Traces known afterAny fun _ => True
  /-- Operands combined by operators are. -/
  combination (least : Nat) : (level.combination least).Traces known afterAny fun _ => True
  /-- Operands are. -/
  operand : level.operand.Traces known afterAny fun _ => True
  /-- Store operations are as stages. -/
  stage (operator : StoreOperator) ⦃source : List Token⦄ :
    (storeWord? (env.peek source)).isSome = true → (∀ token ∈ source, known token) →
    Traced known afterAny (fun _ => True) source ((level.stage operator).run source)
  /-- Stages after a value are. -/
  furtherStages (value : Node) : (level.furtherStages value).Traces known fun _ => True
  /-- Operators after an operand are. -/
  furtherOperands (least : Nat) (left : Node) :
    (level.furtherOperands least left).Traces known fun _ => True
  /-- Indices, fields and arguments after an atom are. -/
  furtherSelections (node : Node) : (level.furtherSelections node).Traces known fun _ => True
  /-- Parts of a known name after a node are. -/
  furtherParts {path : Token} (parts : List String) (node : Node) : known path →
    (level.furtherParts path parts node).Traces known fun _ => True

/-- The keyword of a store operation is not the second token of a declaration. -/
theorem unpaired_of_storeWord {first second : Token}
    (store : (storeWord? second).isSome = true) : Unpaired first second := by
  rintro ⟨-, table⟩
  have none : storeWord? second = none := by
    rw [storeWord?, Token.kind_of_is table, Token.text_of_is table]
    decide
  simp [none] at store

/-- The fault of a store operation without a known table points at the ascription, or else at the
word of the operation. -/
theorem pointsAt_of_ascribed {named : Option Token} {operation : String} {word : Token}
    {fault : Fault} (known_named : ∀ table ∈ named, known table ∧ table.kind = .identifier)
    (here : known word) (failed : ascribed env named operation word.line = .error fault) :
    fault.PointsAt known := by
  unfold ascribed at failed
  cases named with
  | some table =>
    obtain ⟨found, kind⟩ := known_named table rfl
    exact Scope.pointsAt_of_require found kind failed
  | none =>
    unfold Scope.resolve at failed
    dsimp only at failed
    split at failed
    · cases failed
    · cases failed
      exact .noActiveTable here

/-- The fault of a malformed number points at its token. -/
theorem pointsAt_of_floatLiteral {token : Token} {fault : Fault} (here : known token)
    (failed : floatLiteral token = .error fault) : fault.PointsAt known := by
  unfold floatLiteral at failed
  split at failed
  · cases failed
  · cases failed
    exact .spelled here

/-- The fault of a malformed number points at its token. -/
theorem pointsAt_of_wholeLiteral {token : Token} {fault : Fault} (here : known token)
    (failed : wholeLiteral token = .error fault) : fault.PointsAt known := by
  unfold wholeLiteral at failed
  dsimp only at failed
  split at failed
  · cases failed
  · exact pointsAt_of_floatLiteral here failed

section

variable (finish : known env.finish)
include finish

/-- The table of an ascription is a known identifier. -/
theorem ascription_traces : (ascription env).Traces known
    fun named => ∀ table ∈ named, known table ∧ table.kind = .identifier := by
  refine .peek finish fun next _ => ?_
  split
  · refine .skip (operator_traces finish) fun _ => ?_
    refine .bind (.consumer (name_traces finish)) fun table found => ?_
    exact .skip (operator_traces finish) fun _ => .pure (by simpa using found)
  · exact .pure (by simp)

/-- The position of a field is traced. -/
theorem position_traces : (position env).Traces known prior fun _ => True := by
  refine .andThen (symbol_traces finish) fun _ _ => ?_
  exact .bind (.consumer (ofKind_traces finish nofun)) fun _ _ => .pure trivial

/-- The name of a field is traced after a symbol. -/
theorem fieldName_traces : (fieldName env).Traces known afterSymbol fun _ => True := by
  refine .ahead fun next => ?_
  dsimp only
  split
  · exact .andThen (ofKind_traces_afterSymbol finish) fun _ _ => .pure trivial
  · exact .andThen (ofKind_traces_afterSymbol finish) fun _ _ => .pure trivial
  · exact .andThen (ofKind_traces_afterSymbol finish) fun _ _ => .pure trivial
  · exact .andThen (ofKind_traces_afterSymbol finish) fun _ _ => .pure trivial
  · exact .fail finish

variable (deepened : (deepen env below).Traces known fun level => level.Traces known env)
include deepened

omit finish in
/-- An expression is traced. -/
theorem expression_traces : (expression env below).Traces known afterAny fun _ => True :=
  .before deepened fun _ lower => lower.pipeline

/-- Arguments are traced. -/
theorem arguments_traces :
    (arguments env (expression env below)).Traces known prior fun _ => True :=
  (delimited_traces finish (expression_traces deepened).after).weaken
    (fun _ _ => trivial) fun _ => id

/-- An expression between two symbols is traced. -/
theorem enclosed_traces {start stop : String} :
    (enclosed env below start stop).Traces known prior fun _ => True := by
  refine .andThen (symbol_traces finish) fun _ _ => ?_
  refine .skip (expression_traces deepened) fun node => ?_
  exact .skip (symbol_traces finish) fun _ => .pure trivial

/-- A field is traced after a symbol. -/
theorem objectField_traces :
    (objectField env below).Traces known afterSymbol fun _ => True := by
  refine .andThen (fieldName_traces finish) fun key _ => .skip (symbol_traces finish) fun _ => ?_
  exact .skip (expression_traces deepened) fun value => .pure trivial

/-- A choice between expressions is traced. -/
theorem choice_traces : (choice env below).Traces known prior fun _ => True := by
  refine .andThen (keyword_traces finish (by decide)) fun _ _ => ?_
  refine .skip (enclosed_traces finish deepened) fun condition => ?_
  refine .skip (enclosed_traces finish deepened) fun yes => ?_
  refine .skip (keyword_traces finish (by decide)) fun _ => ?_
  exact .skip (enclosed_traces finish deepened) fun no => .pure trivial

/-- A contract is traced. -/
theorem contract_traces : (contract env below).Traces known prior fun _ => True := by
  refine .andThen (keyword_traces finish (by decide)) fun _ _ => ?_
  refine .skip (ofKind_traces finish nofun) fun number => ?_
  exact .skip (arguments_traces finish deepened) fun given => .pure trivial

/-- A call in the system namespace is traced. -/
theorem systemCall_traces {word : String} {function : List Char} (other : word ≠ "table") :
    (systemCall env below word function).Traces known prior fun _ => True := by
  unfold systemCall
  split
  · refine .andThen (keyword_traces finish other) fun _ _ => ?_
    exact .skip (arguments_traces finish deepened) fun given => .pure trivial
  · exact .fail finish

/-- A store operation is traced where its word comes next. -/
theorem storeCall_traces {inStage : Bool} {operator : StoreOperator} {source : List Token}
    (store : (storeWord? (env.peek source)).isSome = true)
    (passed : ∀ token ∈ source, known token) :
    Traced known prior (fun _ => True) source
      ((storeCall env below inStage operator).run source) := by
  have finished (word : Token) (here : known word) (table : Option Token)
      (known_table : ∀ found ∈ table, known found ∧ found.kind = .identifier) (given : List Node) :
      Parser.Traces known (do
        let table ← ascribed env table operator.name word.line
        let call ← (storeOf operator table env.defaultTag inStage given).mapError fun problem =>
          Fault.syntaxError problem word.text word.line
        return Node.store call) fun _ => True := by
    refine .bind (.check (fun _ _ => trivial) fun fault failed =>
      pointsAt_of_ascribed known_table here failed) fun table _ => ?_
    refine .bind (.check (fun _ _ => trivial) fun fault failed => ?_) fun call _ => .pure trivial
    cases made : storeOf operator table env.defaultTag inStage given with
    | ok call =>
      rw [made] at failed
      cases failed
    | error problem =>
      rw [made] at failed
      cases failed
      exact .spelled here
  rw [storeCall, Consumer.run_andThen, ofKind]
  refine .bind passed (traced_token finish passed fun first _ _ => unpaired_of_storeWord store) ?_
  intro word rest ⟨here, _⟩ passed _
  refine Parser.Traces.bind (ascription_traces finish) (fun table known_table => ?_) passed
  refine .peek finish fun next _ => ?_
  dsimp only
  split
  · exact .skip (arguments_traces finish deepened) fun given =>
      finished word here table known_table given
  · have none : Parser.Traces known (Parser.pure ([] : List Node)) fun _ => True := .pure trivial
    exact none.bind fun given _ => finished word here table known_table given

/-- An atom that starts with a keyword is traced where that keyword comes next. -/
theorem keywordAtom_traces {source : List Token} (passed : ∀ token ∈ source, known token) :
    Traced known prior (fun _ => True) source
      ((keywordAtom env below (env.peek source)).run source) := by
  unfold keywordAtom
  split
  · exact Consumer.Traces.andThen (keyword_traces finish (by decide)) (fun _ _ => .pure trivial)
      passed
  · exact Consumer.Traces.andThen (keyword_traces finish (by decide)) (fun _ _ => .pure trivial)
      passed
  · exact Consumer.Traces.andThen (keyword_traces finish (by decide)) (fun _ _ => .pure trivial)
      passed
  · exact contract_traces finish deepened passed
  · exact choice_traces finish deepened passed
  · split
    case h_1 store => exact storeCall_traces finish deepened (by rw [store]; rfl) passed
    case h_2 characters =>
      refine systemCall_traces finish deepened ?_ passed
      intro same
      rw [same] at characters
      cases characters
    case h_3 => exact Consumer.Traces.fail finish passed

/-- An atom other than a name is traced. -/
theorem atom_traces : (atom env below).Traces known prior fun _ => True := by
  intro source passed
  rw [atom, Consumer.run_ahead]
  dsimp only
  split
  case h_1 kind =>
    refine Consumer.Traces.andThen (ofKind_traces finish (by rw [kind]; nofun)) ?_ passed
    intro token ⟨here, _⟩
    exact .bind (.check (fun _ _ => trivial) fun _ => pointsAt_of_wholeLiteral here) fun _ _ =>
      .pure trivial
  case h_2 kind =>
    refine Consumer.Traces.andThen (ofKind_traces finish (by rw [kind]; nofun)) ?_ passed
    intro token ⟨here, _⟩
    exact .bind (.check (fun _ _ => trivial) fun _ => pointsAt_of_floatLiteral here) fun _ _ =>
      .pure trivial
  case h_3 kind =>
    exact Consumer.Traces.andThen (ofKind_traces finish (by rw [kind]; nofun))
      (fun _ _ => .pure trivial) passed
  case h_4 kind =>
    exact Consumer.Traces.andThen (ofKind_traces finish (by rw [kind]; nofun))
      (fun _ _ => .pure trivial) passed
  case h_5 => exact enclosed_traces finish deepened passed
  case h_6 =>
    exact Consumer.Traces.andThen (delimited_traces finish (expression_traces deepened).after)
      (fun _ _ => .pure trivial) passed
  case h_7 =>
    exact Consumer.Traces.andThen (delimited_traces finish (objectField_traces finish deepened))
      (fun _ _ => .pure trivial) passed
  case h_8 => exact keywordAtom_traces finish deepened passed
  case h_9 => exact Consumer.Traces.fail finish passed

/-- What follows an atom is traced. -/
theorem furtherSelections_traces (node : Node) :
    (furtherSelections env below node).Traces known fun _ => True := by
  refine .peek finish fun next _ => ?_
  split
  · refine .bind deepened fun lower traces => .skip (symbol_traces finish) fun _ => ?_
    refine .skip traces.expression fun index => .skip (symbol_traces finish) fun _ => ?_
    exact traces.furtherSelections _
  split
  · refine .bind deepened fun lower traces => ?_
    refine .skip (delimited_traces finish traces.expression.after) fun given => ?_
    exact traces.furtherSelections _
  split
  · refine .bind deepened fun lower traces => .symbol finish fun _ source passed => ?_
    rw [Parser.run_bind, Parser.run_next, ok_bind]
    dsimp only
    split
    · exact Parser.Traces.at (.skip (position_traces finish) fun number =>
        traces.furtherSelections _) passed
    split
    · rw [Parser.run_bind, Parser.run_consumer]
      refine .bind passed (ofKind_traces_afterSymbol finish passed) ?_
      exact fun path rest ⟨here, _⟩ passed _ => traces.furtherParts _ node here passed
    · exact Parser.Traces.at (.fail finish) passed
  · exact .pure trivial

/-- The parts of a known name and what follows it are traced. -/
theorem furtherParts_traces {path : Token} (parts : List String) (node : Node)
    (here : known path) : (furtherParts env below path parts node).Traces known fun _ => True := by
  cases parts with
  | nil => exact furtherSelections_traces finish deepened node
  | cons part parts =>
    refine .bind deepened fun lower traces => ?_
    split
    · exact traces.furtherParts parts _ here
    split
    · exact .skip (position_traces finish) fun number => traces.furtherSelections _
    · exact .refuse (.described here)

/-- An atom with what follows it is traced. -/
theorem selection_traces : (selection env below).Traces known prior fun _ => True := by
  refine .ahead fun next => ?_
  split
  · refine .andThen (ofKind_traces finish nofun) fun path ⟨here, _⟩ => ?_
    split
    · exact furtherSelections_traces finish deepened _
    · exact furtherParts_traces finish deepened _ _ here
  · exact .andThen (atom_traces finish deepened) fun node _ =>
      furtherSelections_traces finish deepened node

/-- An operand is traced. -/
theorem operand_traces : (operand env below).Traces known prior fun _ => True := by
  refine .ahead fun next => ?_
  split
  · refine .andThen (operator_traces finish) fun _ _ => .bind deepened fun lower traces => ?_
    exact .skip traces.operand fun node => .pure trivial
  split
  · refine .andThen (operator_traces finish) fun _ _ => .bind deepened fun lower traces => ?_
    refine .peek finish fun first _ => ?_
    exact .skip traces.operand.counted fun taken => .pure trivial
  · exact selection_traces finish deepened

/-- Operators and their right sides are traced. -/
theorem furtherOperands_traces (least : Nat) (left : Node) :
    (furtherOperands env below least left).Traces known fun _ => True := by
  refine .peek finish fun next _ => ?_
  split
  · exact .pure trivial
  · refine .skip (operator_traces finish) fun _ => .bind deepened fun lower traces => ?_
    exact .skip (traces.combination _) fun right => traces.furtherOperands least _

/-- Stages are traced. -/
theorem furtherStages_traces (value : Node) :
    (furtherStages env below value).Traces known fun _ => True := by
  refine .peek finish fun next _ => ?_
  split
  · refine .skip (operator_traces finish) fun _ => .bind deepened fun lower traces => ?_
    intro source passed
    rw [Parser.run_bind, Parser.run_next, ok_bind]
    dsimp only
    split
    case h_1 operator store =>
      rw [Parser.run_bind, Parser.run_consumer]
      refine .bind passed (traces.stage operator (by rw [store]; rfl) passed) ?_
      exact fun stage rest _ passed _ => traces.furtherStages _ passed
    case h_2 =>
      exact Parser.Traces.skip (traces.combination 1) (fun stage => traces.furtherStages _) passed
  · exact .pure trivial

/-- Operands combined by operators are traced. -/
theorem combination_traces (least : Nat) :
    (combination env below least).Traces known prior fun _ => True :=
  .andThen (operand_traces finish deepened) fun node _ =>
    furtherOperands_traces finish deepened least node

/-- The level above a level whose parsers are traced has parsers that are traced. -/
theorem levelAbove_traces : (levelAbove env below).Traces known env where
  expression := expression_traces deepened
  pipeline := .andThen (combination_traces finish deepened 1) fun node _ =>
    furtherStages_traces finish deepened node
  combination least := combination_traces finish deepened least
  operand := operand_traces finish deepened
  stage _ _ store passed := storeCall_traces finish deepened store passed
  furtherStages := furtherStages_traces finish deepened
  furtherOperands := furtherOperands_traces finish deepened
  furtherSelections := furtherSelections_traces finish deepened
  furtherParts parts node := furtherParts_traces finish deepened parts node

end

/-- The parsers of every level are traced. -/
theorem level_traces (finish : known env.finish) (room : Nat) :
    (level env room).Traces known env := by
  induction room with
  | zero => exact levelAbove_traces finish (.fail finish)
  | succ room ih => exact levelAbove_traces finish (.pure ih)

end Grammar

end ContentSpace

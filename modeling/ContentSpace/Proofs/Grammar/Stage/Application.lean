import ContentSpace.Proofs.Grammar.Stage.Reading

/-!
# Stages behind a value and around it

A store operation is read from its words in the same way as the stage of a pipeline and by itself;
only its arguments decide what becomes of it. What can be called is called with the arguments after
it. A value that is refused is refused with stages behind it and with stages around it.
-/

namespace ContentSpace

namespace Grammar

variable {settings : Settings} {scope : Scope} {env : Environment} {used room : Nat}
  {tokens source rest : List Token}

/-- Items that are read stay so with a first one before them, with a common room. -/
theorem exists_reads_cons {used usedToo : Nat} {value : Node} {words : List Word}
    {items : List (Node × List Word)} (first : Reads settings scope used value words)
    (others : ∀ item ∈ items, Reads settings scope usedToo item.1 item.2) :
    ∃ common, ∀ item ∈ (value, words) :: items, Reads settings scope common item.1 item.2 :=
  ⟨max used usedToo, List.forall_mem_cons.mpr ⟨first.mono (Nat.le_max_left ..),
    fun item member => (others item member).mono (Nat.le_max_right ..)⟩⟩

/-- Expressions are read with a common room. -/
theorem exists_reads_all {words : List (List Word)}
    (expressions : ∀ each ∈ words, IsExpression settings scope each) :
    ∃ used, ∃ items : List (Node × List Word), items.map Prod.snd = words ∧
      ∀ item ∈ items, Reads settings scope used item.1 item.2 := by
  induction words with
  | nil => exact ⟨0, [], rfl, by simp⟩
  | cons first words ih =>
    obtain ⟨here, later⟩ := List.forall_mem_cons.mp expressions
    obtain ⟨usedFirst, node, readsFirst⟩ := exists_reads here
    obtain ⟨used, items, rfl, reads⟩ := ih later
    obtain ⟨common, all⟩ := exists_reads_cons readsFirst reads
    exact ⟨common, (node, first) :: items, rfl, all⟩

/-- What is read is taken as an expression where nothing goes on after it. -/
theorem Reads.takes {node : Node} {words : List Word} (reads : Reads settings scope used node words)
    (serves : env.Serves settings scope) (enough : used < room) :
    (level env room).expression.Takes env words node := by
  intro tokens rest same ends
  obtain ⟨less, rfl⟩ : ∃ less, room = less + 1 := ⟨room - 1, by omega⟩
  obtain ⟨left, -, run⟩ := reads.pipes serves same (Nat.le_of_lt_succ enough) ends.toEndsOperand
  rw [run_expression, run, run_furtherStages_of_ends ends.stage]

/-- Arguments are read. -/
theorem run_arguments_words {items : List (Node × List Word)}
    (serves : env.Serves settings scope) (enough : used < room)
    (reads : ∀ item ∈ items, Reads settings scope used item.1 item.2)
    (same : tokens.map Token.word = Word.parenthesized (Word.separated (items.map Prod.snd))) :
    (arguments env (level env room).expression).run (tokens ++ rest) =
      .ok (items.map Prod.fst, rest) :=
  run_delimited_words (fun item member => (reads item member).takes serves enough) (by decide)
    (fun item member => (reads item member).opens) same

/-- Arguments are refused with the first of them. -/
theorem run_arguments_refused {words : List Word} {others : List (List Word)}
    (refuses : Refuses settings scope used words) (serves : env.Serves settings scope)
    (enough : used < room)
    (same : tokens.map Token.word = Word.parenthesized (Word.separated (words :: others))) :
    ∃ failure, (arguments env (level env room).expression).run (tokens ++ rest) =
      .error failure := by
  obtain ⟨less, rfl⟩ : ∃ less, room = less + 1 := ⟨room - 1, by omega⟩
  obtain ⟨opening, tokens, rfl, opens, whole⟩ := List.map_eq_cons_iff.mp same
  obtain ⟨inside, last, rfl, listed, ended⟩ := List.map_eq_append_iff.mp whole
  obtain ⟨close, rfl, closes⟩ : ∃ close, last = [close] ∧ close.word = .symbol ")" := by
    simpa using ended
  rw [Word.separated_cons] at listed
  obtain ⟨front, back, rfl, begun, further⟩ := List.map_eq_append_iff.mp listed
  have closed : (env.peek (close :: rest)).EndsExpression :=
    Token.endsExpression_of_word closes (by decide) (by decide)
  have ends : (env.peek (back ++ close :: rest)).EndsOperand 1 :=
    (endsExpression_of_further further closed).toEndsOperand
  have starts : (env.peek (front ++ (back ++ close :: rest))).isSymbol ")" = false := by
    obtain ⟨first, more, rfl, different⟩ := refuses.opens
    obtain ⟨token, front, rfl, known, -⟩ := List.map_eq_cons_iff.mp begun
    exact (Token.is_eq known _ _).trans (decide_eq_false different)
  obtain ⟨failure, failed⟩ := refuses.fails serves begun (Nat.le_of_lt_succ enough) ends
  refine ⟨failure, ?_⟩
  have regrouped : opening :: (front ++ back ++ [close]) ++ rest =
      opening :: (front ++ (back ++ close :: rest)) := by simp
  rw [regrouped, arguments, delimited, Consumer.run_andThen, run_symbol opens, ok_bind,
    Parser.run_bind, Parser.run_next, ok_bind, if_neg (Bool.eq_false_iff.mp starts),
    Parser.run_bind, Parser.run_consumer, run_expression, failed]
  rfl

/-- The table of an operation: the one that is named if it is known, or else the active one. -/
def tableFor? (scope : Scope) : (named : Option String) → Option String
  | some table => if scope.isKnown table then some table else none
  | none => scope.current?

/-- The store operation on a table that may be named and on arguments, if it can be built. -/
def storeNode? (scope : Scope) (defaultTag : String) (operator : StoreOperator)
    (table : Option String) (inStage : Bool) (given : List Node) : Option (StoreCall Node) :=
  (tableFor? scope table).bind fun table =>
    (storeOf operator table defaultTag inStage given).toOption

/-- In a stage a store operation is built when it is built by itself, and supplying the value to the
one gives the other. -/
theorem storeNode?_stage_cases {operator : StoreOperator} (place : operator.slot ≠ .none)
    (scope : Scope) (defaultTag : String) (table : Option String) (value : Node)
    (given : List Node) :
    (∃ call filled, storeNode? scope defaultTag operator table true given = some call ∧
      storeNode? scope defaultTag operator table false (value :: given) = some filled ∧
      call.acceptsPiped = true ∧ call.supply? value = some filled ∧
      call.handle = none ∧ call.value = none) ∨
    storeNode? scope defaultTag operator table true given = none ∧
      storeNode? scope defaultTag operator table false (value :: given) = none := by
  unfold storeNode?
  cases tableFor? scope table with
  | none => exact .inr ⟨rfl, rfl⟩
  | some table =>
    rcases storeOf_stage_cases place table value with ⟨call, filled, built, builtToo, facts⟩ | none
    · exact .inl ⟨call, filled, congrArg Except.toOption built, congrArg Except.toOption builtToo,
        facts⟩
    · exact .inr none

/-- An ascription is read from its words. -/
theorem run_ascription_words {table : Option String}
    (same : tokens.map Token.word = Word.angled table)
    (plain : (env.peek source).isOperator "<" = false) :
    ∃ named : Option Token, named.map Token.text = table ∧
      (ascription env).run (tokens ++ source) = .ok (named, source) := by
  cases table with
  | none =>
    obtain rfl : tokens = [] := List.map_eq_nil_iff.mp same
    refine ⟨none, rfl, ?_⟩
    rw [List.nil_append, ascription, Parser.run_bind, Parser.run_next, ok_bind,
      if_neg (Bool.eq_false_iff.mp plain)]
    rfl
  | some table =>
    obtain ⟨left, tokens, rfl, opens, same⟩ := List.map_eq_cons_iff.mp same
    obtain ⟨name, tokens, rfl, named, same⟩ := List.map_eq_cons_iff.mp same
    obtain ⟨right, tokens, rfl, closes, same⟩ := List.map_eq_cons_iff.mp same
    obtain rfl : tokens = [] := List.map_eq_nil_iff.mp same
    have kind : name.kind = .identifier := congrArg Word.kind named
    have comes : (env.peek ([left, name, right] ++ source)).isOperator "<" = true :=
      Token.is_iff.mpr opens
    refine ⟨some name, congrArg some (congrArg Word.text named), ?_⟩
    rw [ascription, Parser.run_bind, Parser.run_next, ok_bind, if_pos comes]
    simp only [List.cons_append, List.nil_append, Parser.run_bind, Parser.run_consumer,
      run_operator opens, run_operator closes, Grammar.name, run_ofKind kind, ok_bind,
      Parser.run_pure]

/-- The table of an ascription is found when there is one to be found. -/
theorem toOption_ascribed {named : Option Token} {operation : String} {line : Nat} :
    (ascribed env named operation line).toOption =
      tableFor? env.scope (named.map Token.text) := by
  unfold ascribed
  cases named with
  | none =>
    show (env.scope.resolve none operation line).toOption = env.scope.current?
    rw [Scope.resolve]
    split <;> simp_all [Except.toOption]
  | some table =>
    show (env.scope.require table.text table.line).toOption = _
    rw [Scope.require, Option.map_some, tableFor?]
    split <;> rfl

/-- A store operation is read from its words: what becomes of it is decided by its arguments. -/
theorem run_storeCall_words (operator : StoreOperator) (inStage : Bool) {word : String}
    {table : Option String} {given : List (List Word)} (serves : env.Serves settings scope)
    (same : tokens.map Token.word = Word.storeCall word table given) (rest : List Token) :
    ∃ (inside : List Token) (finish : List Node → Parser Node),
      inside.map Token.word = Word.parenthesized (Word.separated given) ∧
      (storeCall env (belowOf env room) inStage operator).run (tokens ++ rest) =
        ((arguments env (level env room).expression).run (inside ++ rest) >>= fun nodes =>
          (finish nodes.1).run nodes.2) ∧
      ∀ nodes rest, ((finish nodes).run rest).toOption =
        (storeNode? scope settings.defaultTag operator table inStage nodes).map fun call =>
          (.store call, rest) := by
  obtain ⟨token, tokens, rfl, known, whole⟩ := List.map_eq_cons_iff.mp same
  obtain ⟨front, inside, rfl, begun, further⟩ := List.map_eq_append_iff.mp whole
  have opens : (env.peek (inside ++ rest)).isSymbol "(" = true := by
    obtain ⟨opening, inside, rfl, opens, -⟩ := List.map_eq_cons_iff.mp further
    exact Token.is_iff.mpr opens
  have kind : token.kind = .keyword := congrArg Word.kind known
  have plain : (env.peek (inside ++ rest)).isOperator "<" = false :=
    Token.is_eq (Token.is_iff.mp opens) _ _
  obtain ⟨named, rfl, noted⟩ := run_ascription_words begun plain
  refine ⟨inside, fun nodes => do
    let table ← ascribed env named operator.name token.line
    let call ← (storeOf operator table env.defaultTag inStage nodes).mapError fun problem =>
      Fault.syntaxError problem token.text token.line
    return .store call, further, ?_, fun nodes rest => ?_⟩
  · rw [List.cons_append, List.append_assoc, storeCall, Consumer.run_andThen, run_ofKind kind,
      ok_bind, Parser.run_bind, noted, ok_bind, Parser.run_bind, Parser.run_next, ok_bind, level_eq]
    dsimp only
    rw [if_pos opens, Parser.run_bind, Parser.run_consumer]
    rfl
  · rw [Parser.run_bind, Parser.run_check, storeNode?, ← serves.scope, ← serves.defaultTag,
      ← @toOption_ascribed env named operator.name token.line]
    cases ascribed env named operator.name token.line with
    | error fault => rfl
    | ok table =>
      show (Parser.run _ rest).toOption = _
      rw [Parser.run_bind, Parser.run_check]
      show _ = Option.map _ (storeOf operator table env.defaultTag inStage nodes).toOption
      cases storeOf operator table env.defaultTag inStage nodes <;> rfl

/-- A run without a result fails. -/
theorem exists_error_of_toOption_eq_none {α ε : Type} {run : Except ε α}
    (none : run.toOption = none) : ∃ failure, run = .error failure := by
  cases run with
  | error failure => exact ⟨failure, rfl⟩
  | ok value => cases none

section

variable {word : String} {operator : StoreOperator} {others : List Word}
  (found : StoreOperator.ofWord? word = some operator)
  (same : tokens.map Token.word = .keyword word :: others)
include found same

/-- A word that calls a store operation starts an operand. -/
theorem run_operand_store :
    (level env room).operand.run (tokens ++ rest) =
      (storeCall env (belowOf env room) false operator).run (tokens ++ rest) >>= fun result =>
        ((level env room).furtherSelections result.1).run result.2 := by
  obtain ⟨token, tokens, rfl, known, -⟩ := List.map_eq_cons_iff.mp same
  have kind : token.kind = .keyword := congrArg Word.kind known
  have text : token.text = word := congrArg Word.text known
  have calls : storeWord? token = some operator := by rw [storeWord?, if_pos kind, text, found]
  have select : (atom env (belowOf env room)).run (token :: (tokens ++ rest)) =
      (storeCall env (belowOf env room) false operator).run (token :: (tokens ++ rest)) := by
    obtain ⟨span, rfl⟩ := Token.exists_of_word known
    show (keywordAtom env (belowOf env room) ⟨.keyword, word, span⟩).run _ = _
    unfold keywordAtom
    dsimp only
    split
    case h_6 => rw [calls]
    all_goals cases found
  rw [List.cons_append, run_operand_of_atom kind (by decide) (by decide), select]

/-- A word that calls a store operation starts a stage. -/
theorem stageAt_store :
    (level env room).stageAt (env.peek (tokens ++ rest)) =
      storeCall env (belowOf env room) true operator := by
  obtain ⟨token, tokens, rfl, known, -⟩ := List.map_eq_cons_iff.mp same
  have kind : token.kind = .keyword := congrArg Word.kind known
  have text : token.text = word := congrArg Word.text known
  show (level env room).stageAt token = _
  rw [Level.stageAt, storeWord?, if_pos kind, text, found, level_eq]
  rfl

end

/-- Words are read as an operand wherever no operand goes on after them. -/
structure ReadsOperand (settings : Settings) (scope : Scope) (used : Nat) (node : Node)
    (words : List Word) : Prop where
  /-- The words are some. -/
  opens : Opens words
  /-- The operand is read. -/
  operates ⦃env : Environment⦄ : env.Serves settings scope →
    ∀ ⦃tokens rest : List Token⦄ ⦃room : Nat⦄, tokens.map Token.word = words → used ≤ room →
      (env.peek rest).EndsOperand 1 →
        (level env room).operand.run (tokens ++ rest) = .ok (node, rest)

/-- Words are read as a stage wherever no operand goes on after them. -/
def ReadsStage (settings : Settings) (scope : Scope) (used : Nat) (node : Node)
    (words : List Word) : Prop :=
  ∀ ⦃env : Environment⦄, env.Serves settings scope → ∀ ⦃tokens rest : List Token⦄ ⦃room : Nat⦄,
    tokens.map Token.word = words → used ≤ room → (env.peek rest).EndsOperand 1 →
      ((level env room).stageAt (env.peek (tokens ++ rest))).run (tokens ++ rest) = .ok (node, rest)

/-- Words are not read as a stage, however much room there is. -/
def RefusesStage (settings : Settings) (scope : Scope) (used : Nat) (words : List Word) : Prop :=
  ∀ ⦃env : Environment⦄, env.Serves settings scope → ∀ ⦃tokens rest : List Token⦄ ⦃room : Nat⦄,
    tokens.map Token.word = words → used ≤ room → (env.peek rest).EndsOperand 1 →
      ∃ failure, ((level env room).stageAt (env.peek (tokens ++ rest))).run (tokens ++ rest) =
        .error failure

section

variable {node value last : Node} {words before after : List Word} {usedStage : Nat}

/-- An operand is an expression. -/
theorem ReadsOperand.reads (reads : ReadsOperand settings scope used node words) :
    Reads settings scope used node words where
  opens := reads.opens
  pipes env serves tokens rest room same enough ends := by
    refine ⟨room, Nat.le_add_right _ _, ?_⟩
    rw [run_pipeline, run_combination, reads.operates serves same enough ends, ok_bind,
      run_furtherOperands_of_ends ends.operator, ok_bind]

/-- What is refused as an operand is refused. -/
theorem Refuses.of_operand (opens : Opens words)
    (fails : ∀ ⦃env : Environment⦄, env.Serves settings scope →
      ∀ ⦃tokens rest : List Token⦄ ⦃room : Nat⦄, tokens.map Token.word = words → used ≤ room →
        ∃ failure, (level env room).operand.run (tokens ++ rest) = .error failure) :
    Refuses settings scope used words where
  opens := opens
  fails env serves tokens rest room same enough _ := by
    obtain ⟨failure, failed⟩ := @fails _ serves tokens rest room same enough
    exact ⟨failure, by rw [run_pipeline, run_combination, failed]; rfl⟩

/-- An operand that calls no store operation is a stage. -/
theorem ReadsOperand.stage (reads : ReadsOperand settings scope used node words)
    (plain : ∀ first ∈ words.head?, first.callsStore = false) :
    ReadsStage settings scope used node words := by
  intro env serves tokens rest room same enough ends
  have calls : storeWord? (env.peek (tokens ++ rest)) = none := by
    obtain ⟨first, others, rfl, -⟩ := reads.opens
    obtain ⟨token, tokens, rfl, known, -⟩ := List.map_eq_cons_iff.mp same
    exact storeWord?_eq_none_iff.mpr (known ▸ plain first rfl)
  rw [Level.stageAt, calls]
  dsimp only
  rw [run_combination, reads.operates serves same enough ends, ok_bind,
    run_furtherOperands_of_ends ends.operator]

/-- What can be called is an operand. -/
theorem ReadsCallee.operand (callee : ReadsCallee settings scope used node words) :
    ReadsOperand settings scope used node words where
  opens := callee.opens
  operates env serves tokens rest room same enough ends := by
    obtain ⟨left, -, run⟩ := callee.selects serves same enough
    rw [run, run_furtherSelections_of_ends ends.toEndsSelection]

/-- What can be called goes on with the arguments after it, which are read with less room. -/
theorem ReadsCallee.run_call (callee : ReadsCallee settings scope used node words)
    {given : List (List Word)} (serves : env.Serves settings scope) (enough : used < room)
    (same : tokens.map Token.word = words ++ Word.parenthesized (Word.separated given))
    (rest : List Token) :
    ∃ inside less, inside.map Token.word = Word.parenthesized (Word.separated given) ∧
      room ≤ less + used + 1 ∧
      (level env room).operand.run (tokens ++ rest) =
        (arguments env (level env less).expression).run (inside ++ rest) >>= fun nodes =>
          ((level env less).furtherSelections (.call node nodes.1)).run nodes.2 := by
  obtain ⟨front, inside, rfl, begun, further⟩ := List.map_eq_append_iff.mp same
  obtain ⟨left, bound, run⟩ :=
    @ReadsCallee.selects _ _ _ _ _ callee _ serves front (inside ++ rest) room begun
      (Nat.le_of_lt enough)
  obtain ⟨less, rfl⟩ : ∃ less, left = less + 1 := ⟨left - 1, by omega⟩
  refine ⟨inside, less, further, by omega, ?_⟩
  obtain ⟨opening, inside, rfl, opens, -⟩ := List.map_eq_cons_iff.mp further
  rw [List.append_assoc, run, List.cons_append, run_furtherSelections_parenthesis opens]

/-- What can be called with arguments after it is a call. -/
theorem ReadsCallee.call (callee : ReadsCallee settings scope used node words)
    {items : List (Node × List Word)}
    (reads : ∀ item ∈ items, Reads settings scope usedStage item.1 item.2) :
    ReadsOperand settings scope (used + usedStage + 2) (.call node (items.map Prod.fst))
      (words ++ Word.parenthesized (Word.separated (items.map Prod.snd))) where
  opens := callee.opens.append _
  operates env serves tokens rest room same enough ends := by
    have roomy : used < room := by omega
    obtain ⟨inside, less, further, bound, run⟩ := callee.run_call serves roomy same rest
    rw [run, run_arguments_words serves (by omega) reads further, ok_bind,
      run_furtherSelections_of_ends ends.toEndsSelection]

/-- A refused first argument is refused with a call around it. -/
theorem ReadsCallee.call_refused {callee : List Word}
    (reads : ReadsCallee settings scope usedStage node callee)
    (refuses : Refuses settings scope used words) (others : List (List Word)) :
    Refuses settings scope (used + usedStage + 2)
      (callee ++ Word.parenthesized (Word.separated (words :: others))) := by
  refine .of_operand (reads.opens.append _) fun env serves tokens rest room same enough => ?_
  have roomy : usedStage < room := by omega
  obtain ⟨inside, less, further, bound, run⟩ := reads.run_call serves roomy same rest
  have left : used < less := by omega
  obtain ⟨failure, failed⟩ := run_arguments_refused refuses serves left further
  exact ⟨failure, by rw [run, failed]; rfl⟩

/-- A value goes on with the stage behind it, which is read with less room. -/
theorem Reads.run_pipe (reads : Reads settings scope used value before)
    (serves : env.Serves settings scope) (enough : used < room)
    (same : tokens.map Token.word = before ++ .operator "|>" :: after) (rest : List Token) :
    ∃ back less, back.map Token.word = after ∧ room ≤ less + used + 1 ∧
      (level env room).pipeline.run (tokens ++ rest) =
        ((level env less).stageAt (env.peek (back ++ rest))).run (back ++ rest) >>= fun stage =>
          ((level env less).furtherStages (.sugar (.pipeline value stage.1))).run stage.2 := by
  obtain ⟨front, back, rfl, begun, further⟩ := List.map_eq_append_iff.mp same
  obtain ⟨sign, back, rfl, known, further⟩ := List.map_eq_cons_iff.mp further
  obtain ⟨left, bound, run⟩ :=
    @Reads.pipes _ _ _ _ _ reads _ serves front (sign :: back ++ rest) room begun
      (Nat.le_of_lt enough) (Token.endsOperand_of_stage known)
  obtain ⟨less, rfl⟩ : ∃ less, left = less + 1 := ⟨left - 1, by omega⟩
  refine ⟨back, less, further, by omega, ?_⟩
  rw [List.append_assoc, run, List.cons_append, run_furtherStages_stage known]

/-- A value with a stage behind it is a pipeline. -/
theorem Reads.pipe (reads : Reads settings scope used value before)
    (stage : ReadsStage settings scope usedStage last after) :
    Reads settings scope (used + usedStage + 1) (.sugar (.pipeline value last))
      (before ++ .operator "|>" :: after) where
  opens := reads.opens.append _
  pipes env serves tokens rest room same enough ends := by
    have roomy : used < room := by omega
    obtain ⟨back, less, further, bound, run⟩ := reads.run_pipe serves roomy same rest
    have staged := @stage _ serves back rest less further (by omega) ends
    exact ⟨less, by omega, by rw [run, staged, ok_bind]⟩

/-- A value with a refused stage behind it is refused. -/
theorem Reads.pipe_refused (reads : Reads settings scope used value before)
    (refuses : RefusesStage settings scope usedStage after) :
    Refuses settings scope (used + usedStage + 1) (before ++ .operator "|>" :: after) where
  opens := reads.opens.append _
  fails env serves tokens rest room same enough ends := by
    have roomy : used < room := by omega
    obtain ⟨back, less, further, bound, run⟩ := reads.run_pipe serves roomy same rest
    obtain ⟨failure, failed⟩ := @refuses _ serves back rest less further (by omega) ends
    exact ⟨failure, by rw [run, failed]; rfl⟩

/-- A refused value is refused with a stage behind it. -/
theorem Refuses.pipe (refuses : Refuses settings scope used before) (after : List Word) :
    Refuses settings scope used (before ++ .operator "|>" :: after) where
  opens := refuses.opens.append _
  fails env serves tokens rest room same enough ends := by
    obtain ⟨front, back, rfl, begun, further⟩ := List.map_eq_append_iff.mp same
    obtain ⟨sign, back, rfl, known, -⟩ := List.map_eq_cons_iff.mp further
    rw [List.append_assoc]
    exact refuses.fails serves begun enough (Token.endsOperand_of_stage known)

section

variable {operator : StoreOperator} {word : String} {table : Option String}
  (found : StoreOperator.ofWord? word = some operator)

section

variable {items : List (Node × List Word)}
  (reads : ∀ item ∈ items, Reads settings scope used item.1 item.2)
include reads

/-- A store operation is read with its arguments. -/
theorem toOption_run_storeCall (operator : StoreOperator) (inStage : Bool)
    (serves : env.Serves settings scope) (enough : used < room)
    (same : tokens.map Token.word = Word.storeCall word table (items.map Prod.snd))
    (rest : List Token) :
    ((storeCall env (belowOf env room) inStage operator).run (tokens ++ rest)).toOption =
      (storeNode? scope settings.defaultTag operator table inStage (items.map Prod.fst)).map
        fun call => (.store call, rest) := by
  obtain ⟨inside, finish, further, run, result⟩ :=
    run_storeCall_words operator inStage serves same rest
  rw [run, run_arguments_words serves enough reads further, ok_bind, result]

include found

/-- The words of a store operation are read as a stage if the operation can be built. -/
theorem readsStage_store {call : StoreCall Node}
    (built : storeNode? scope settings.defaultTag operator table true (items.map Prod.fst) =
      some call) :
    ReadsStage settings scope (used + 1) (.store call)
      (Word.storeCall word table (items.map Prod.snd)) := by
  intro env serves tokens rest room same enough ends
  have taken := toOption_run_storeCall reads operator true serves enough same rest
  rw [built] at taken
  rw [stageAt_store found same]
  exact ok_of_toOption_eq_some taken

/-- The words of a store operation are refused as a stage if the operation cannot be built. -/
theorem refusesStage_store
    (none : storeNode? scope settings.defaultTag operator table true (items.map Prod.fst) = none) :
    RefusesStage settings scope (used + 1) (Word.storeCall word table (items.map Prod.snd)) := by
  intro env serves tokens rest room same enough ends
  have taken := toOption_run_storeCall reads operator true serves enough same rest
  rw [none] at taken
  rw [stageAt_store found same]
  exact exists_error_of_toOption_eq_none taken

/-- The words of a store operation are read as an operand if the operation can be built. -/
theorem readsOperand_store {call : StoreCall Node}
    (built : storeNode? scope settings.defaultTag operator table false (items.map Prod.fst) =
      some call) :
    ReadsOperand settings scope (used + 1) (.store call)
      (Word.storeCall word table (items.map Prod.snd)) where
  opens := ⟨_, _, rfl, nofun⟩
  operates env serves tokens rest room same enough ends := by
    have taken := toOption_run_storeCall reads operator false serves enough same rest
    rw [built] at taken
    rw [run_operand_store found same, ok_of_toOption_eq_some taken, ok_bind,
      run_furtherSelections_of_ends ends.toEndsSelection]

/-- The words of a store operation are refused if the operation cannot be built. -/
theorem refuses_store
    (none : storeNode? scope settings.defaultTag operator table false (items.map Prod.fst) = none) :
    Refuses settings scope (used + 1) (Word.storeCall word table (items.map Prod.snd)) := by
  refine .of_operand ⟨_, _, rfl, nofun⟩ fun env serves tokens rest room same enough => ?_
  have taken := toOption_run_storeCall reads operator false serves enough same rest
  rw [none] at taken
  obtain ⟨failure, failed⟩ := exists_error_of_toOption_eq_none taken
  exact ⟨failure, by rw [run_operand_store found same, failed]; rfl⟩

end

/-- A refused first argument is refused with a store operation around it. -/
theorem refuses_store_of_refuses (found : StoreOperator.ofWord? word = some operator)
    (refuses : Refuses settings scope used words) (others : List (List Word)) :
    Refuses settings scope (used + 1) (Word.storeCall word table (words :: others)) := by
  refine .of_operand ⟨_, _, rfl, nofun⟩ fun env serves tokens rest room same enough => ?_
  obtain ⟨inside, finish, further, run, -⟩ := run_storeCall_words operator false serves same rest
  obtain ⟨failure, failed⟩ := run_arguments_refused refuses serves enough further
  exact ⟨failure, by rw [run_operand_store found same, run, failed]; rfl⟩

end

end

end Grammar

end ContentSpace

import ContentSpace.Proofs.Grammar.Stage.Application

/-!
# A pipeline means nested application

A value with stages behind it and the same value with the stages around it are both read or both
refused, if there is enough room, and what is read desugars to the same node. Each further stage
keeps this: a call and a name are always read, in both writings, and a store operation is built in
the one when it is built in the other.
-/

namespace ContentSpace

namespace Grammar

variable {settings : Settings} {scope : Scope} {piped nested : List Word}

/-- Two writings are read as trees that desugar to the same node. -/
def ReadAlike (settings : Settings) (scope : Scope) (piped nested : List Word) : Prop :=
  ∃ used value like, Reads settings scope used value piped ∧
    Reads settings scope used like nested ∧ value.desugar = like.desugar

/-- Two writings are both refused. -/
def RefusedAlike (settings : Settings) (scope : Scope) (piped nested : List Word) : Prop :=
  ∃ used, Refuses settings scope used piped ∧ Refuses settings scope used nested

/-- What is refused with some room is refused with more. -/
theorem Refuses.mono {words : List Word} {used more : Nat}
    (refuses : Refuses settings scope used words) (le : used ≤ more) :
    Refuses settings scope more words where
  opens := refuses.opens
  fails _ serves _ _ _ same enough ends :=
    refuses.fails serves same (Nat.le_trans le enough) ends

/-- Two writings that are read with some room each are read with a common one. -/
theorem ReadAlike.of_reads {used usedToo : Nat} {value like : Node}
    (first : Reads settings scope used value piped)
    (second : Reads settings scope usedToo like nested) (same : value.desugar = like.desugar) :
    ReadAlike settings scope piped nested :=
  ⟨max used usedToo, value, like, first.mono (Nat.le_max_left ..),
    second.mono (Nat.le_max_right ..), same⟩

/-- Two writings that are refused with some room each are refused with a common one. -/
theorem RefusedAlike.of_refuses {used usedToo : Nat}
    (first : Refuses settings scope used piped)
    (second : Refuses settings scope usedToo nested) : RefusedAlike settings scope piped nested :=
  ⟨max used usedToo, first.mono (Nat.le_max_left ..), second.mono (Nat.le_max_right ..)⟩

/-- A call and a name are read behind a value and around it. -/
theorem ReadAlike.apply {stage : Stage} (alike : ReadAlike settings scope piped nested)
    (readable : stage.IsReadable settings scope) (plain : stage.isStore = false) :
    ReadAlike settings scope (piped ++ .operator "|>" :: stage.words) (stage.around nested) := by
  obtain ⟨used, value, like, readsPiped, readsNested, same⟩ := alike
  cases stage with
  | store => cases plain
  | call callee arguments =>
    obtain ⟨callable, expressions⟩ := readable
    obtain ⟨usedCallee, target, reads, result, settled⟩ := exists_readsCallee callable
    obtain ⟨usedArguments, items, rfl, given⟩ := exists_reads_all expressions
    obtain ⟨common, all⟩ := exists_reads_cons readsNested given
    obtain ⟨first, others, rfl, -⟩ := reads.opens
    exact .of_reads (readsPiped.pipe ((reads.call given).stage reads.plain)) (reads.call all).reads
      (Node.desugar_pipeline_call same settled _)
  | named name =>
    have reads : ReadsCallee settings scope 0 (.var name) [.identifier name] :=
      readsCallee_name readable
    have item : ∀ item ∈ [(like, nested)], Reads settings scope used item.1 item.2 :=
      List.forall_mem_singleton.mpr readsNested
    rw [Stage.around_named]
    exact .of_reads (readsPiped.pipe (reads.operand.stage reads.plain)) (reads.call item).reads
      (Node.desugar_pipeline_var same name)

/-- A store operation is read behind a value and around it, or refused in both writings. -/
theorem ReadAlike.store {word : String} {table : Option String} {arguments : List (List Word)}
    (alike : ReadAlike settings scope piped nested)
    (readable : (Stage.store word table arguments).IsReadable settings scope) :
    ReadAlike settings scope (piped ++ .operator "|>" :: (Stage.store word table arguments).words)
        ((Stage.store word table arguments).around nested) ∨
      RefusedAlike settings scope
        (piped ++ .operator "|>" :: (Stage.store word table arguments).words)
        ((Stage.store word table arguments).around nested) := by
  obtain ⟨used, value, like, readsPiped, readsNested, same⟩ := alike
  obtain ⟨⟨operator, found, place⟩, expressions⟩ := readable
  obtain ⟨usedArguments, items, rfl, given⟩ := exists_reads_all expressions
  obtain ⟨common, all⟩ := exists_reads_cons readsNested given
  rcases storeNode?_stage_cases place scope settings.defaultTag table like (items.map Prod.fst) with
    ⟨call, filled, built, builtToo, accepts, supplied, handle, operand⟩ | ⟨none, noneToo⟩
  · exact .inl (.of_reads (readsPiped.pipe (readsStage_store found given built))
      (readsOperand_store found all builtToo).reads
      (Node.desugar_pipeline_store same accepts supplied handle operand))
  · exact .inr (.of_refuses (readsPiped.pipe_refused (refusesStage_store found given none))
      (refuses_store found all noneToo))

/-- What is read is read with a stage behind it and around it, unless the stage is a store operation
and refused in both writings. -/
theorem ReadAlike.step {stage : Stage} (alike : ReadAlike settings scope piped nested)
    (readable : stage.IsReadable settings scope) :
    ReadAlike settings scope (piped ++ .operator "|>" :: stage.words) (stage.around nested) ∨
      stage.isStore = true ∧
        RefusedAlike settings scope (piped ++ .operator "|>" :: stage.words)
          (stage.around nested) := by
  cases stage with
  | store word table arguments =>
    exact (alike.store readable).imp_right fun refused => ⟨rfl, refused⟩
  | call | named => exact .inl (alike.apply readable rfl)

/-- A refused value is refused with a stage behind it and around it. -/
theorem RefusedAlike.step {stage : Stage} (alike : RefusedAlike settings scope piped nested)
    (readable : stage.IsReadable settings scope) :
    RefusedAlike settings scope (piped ++ .operator "|>" :: stage.words) (stage.around nested) := by
  obtain ⟨used, refusesPiped, refusesNested⟩ := alike
  cases stage with
  | store word table arguments =>
    obtain ⟨⟨operator, found, -⟩, -⟩ := readable
    exact .of_refuses (refusesPiped.pipe _) (refuses_store_of_refuses found refusesNested arguments)
  | call callee arguments =>
    obtain ⟨usedCallee, target, reads, -⟩ := exists_readsCallee readable.1
    exact .of_refuses (refusesPiped.pipe _) (reads.call_refused refusesNested arguments)
  | named name =>
    have reads : ReadsCallee settings scope 0 (.var name) [.identifier name] :=
      readsCallee_name readable
    rw [Stage.around_named]
    exact .of_refuses (refusesPiped.pipe _) (reads.call_refused refusesNested [])

/-- A refused value is refused with stages behind it and around it. -/
theorem RefusedAlike.run {stages : List Stage} (alike : RefusedAlike settings scope piped nested)
    (readable : ∀ stage ∈ stages, stage.IsReadable settings scope) :
    RefusedAlike settings scope (Stage.pipeline piped stages) (Stage.nested nested stages) := by
  induction stages generalizing piped nested with
  | nil =>
    rw [Stage.pipeline_nil]
    exact alike
  | cons stage stages ih =>
    obtain ⟨here, later⟩ := List.forall_mem_cons.mp readable
    rw [Stage.pipeline_cons]
    exact ih (alike.step here) later

/-- What is read is read with stages behind it and around it, or refused in both writings because of
a store operation among the stages. -/
theorem ReadAlike.run {stages : List Stage} (alike : ReadAlike settings scope piped nested)
    (readable : ∀ stage ∈ stages, stage.IsReadable settings scope) :
    ReadAlike settings scope (Stage.pipeline piped stages) (Stage.nested nested stages) ∨
      (∃ stage ∈ stages, stage.isStore = true) ∧
        RefusedAlike settings scope (Stage.pipeline piped stages) (Stage.nested nested stages) := by
  induction stages generalizing piped nested with
  | nil =>
    rw [Stage.pipeline_nil]
    exact .inl alike
  | cons stage stages ih =>
    obtain ⟨here, later⟩ := List.forall_mem_cons.mp readable
    rw [Stage.pipeline_cons]
    -- Once a stage is refused, everything that follows it is refused with it.
    rcases alike.step here with read | ⟨kind, refused⟩
    · refine (ih read later).imp_right fun ⟨⟨last, member, kind⟩, refused⟩ => ?_
      exact ⟨⟨last, List.mem_cons_of_mem _ member, kind⟩, refused⟩
    · exact .inr ⟨⟨stage, List.mem_cons_self .., kind⟩, refused.run later⟩

end Grammar

open Grammar

section

variable {settings : Settings} {scope : Scope} {used maxDepth : Nat} {words : List Word}
  {text : String} (enough : used < maxDepth)
  (same : (Source.tokens settings text).map Token.word = words)
include enough same

/-- Words that are read are read as the whole of a text. -/
theorem parseExpression_of_reads {node : Node} (reads : Reads settings scope used node words) :
    parseExpression { settings with maxDepth } scope text = .ok node := by
  have serves := start_serves settings scope maxDepth text
  exact parseExpression_of_takes (reads.takes serves enough)
    ((congrArg (List.map Token.word) (Source.tokens_withLimit ..)).trans same)

/-- Words that are refused are refused as the whole of a text. -/
theorem parseExpression_of_refuses (refuses : Refuses settings scope used words) :
    ∃ failure, parseExpression { settings with maxDepth } scope text = .error failure := by
  have serves := start_serves settings scope maxDepth text
  have finish : ((start { settings with maxDepth } scope text).peek []).word = ⟨.finish, ""⟩ := rfl
  have ends := (Token.endsExpression_of_word finish (by decide) (by decide)).toEndsOperand
  obtain ⟨less, rfl⟩ : ∃ less, maxDepth = less + 1 := ⟨maxDepth - 1, by omega⟩
  obtain ⟨failure, failed⟩ := refuses.fails serves same (Nat.le_of_lt_succ enough) ends
  rw [List.append_nil, ← run_expression] at failed
  refine ⟨failure, ?_⟩
  rw [parseExpression, Grammar.read, Source.tokens_withLimit, Parser.map_value_eq_map_run,
    Parser.run_bind, Parser.run_consumer]
  show ((level _ (less + 1)).expression.run _ >>= _).map _ = _
  rw [failed]
  rfl

end

/-- A pipeline means nested application. Take an expression, and stages that are store operations
with a main operand, calls of what can be called, and names. With a limit of nesting that is large
enough, the expression with the stages behind it is read exactly when the expression with the stages
around it is, and both desugar to the same node. Without a store operation among the stages they are
read. -/
theorem parse_pipeline_iff_nested (settings : Settings) (scope : Scope) {value : List Word}
    {stages : List Stage} (expression : IsExpression settings scope value)
    (readable : ∀ stage ∈ stages, stage.IsReadable settings scope) :
    ∃ least, ∀ maxDepth ≥ least, ∀ piped nested : String,
      (Source.tokens settings piped).map Token.word = Stage.pipeline value stages →
      (Source.tokens settings nested).map Token.word = Stage.nested value stages →
      let parse := parseExpression { settings with maxDepth } scope
      ((∃ node, parse piped = .ok node) ↔ ∃ node, parse nested = .ok node) ∧
      (∀ node other, parse piped = .ok node → parse nested = .ok other →
        node.desugar = other.desugar) ∧
      ((∀ stage ∈ stages, stage.isStore = false) → ∃ node, parse piped = .ok node) := by
  obtain ⟨used, node, reads⟩ := exists_reads expression
  have start : ReadAlike settings scope value value := .of_reads reads reads rfl
  rcases start.run readable with
    ⟨used, node, other, first, second, same⟩ | ⟨⟨stage, member, kind⟩, used, first, second⟩
  · refine ⟨used + 1, fun maxDepth enough piped nested words wordsToo => ?_⟩
    have parsed := parseExpression_of_reads enough words first
    have parsedToo := parseExpression_of_reads enough wordsToo second
    refine ⟨⟨fun _ => ⟨other, parsedToo⟩, fun _ => ⟨node, parsed⟩⟩, ?_, fun _ => ⟨node, parsed⟩⟩
    intro found foundToo here there
    cases parsed.symm.trans here
    cases parsedToo.symm.trans there
    exact same
  · refine ⟨used + 1, fun maxDepth enough piped nested words wordsToo => ?_⟩
    obtain ⟨failure, failed⟩ := parseExpression_of_refuses enough words first
    obtain ⟨failureToo, failedToo⟩ := parseExpression_of_refuses enough wordsToo second
    refine ⟨⟨fun ⟨node, here⟩ => ?_, fun ⟨node, here⟩ => ?_⟩, fun node other here => ?_, ?_⟩
    · cases failed.symm.trans here
    · cases failedToo.symm.trans here
    · cases failed.symm.trans here
    · intro plain
      cases kind.symm.trans (plain stage member)

/-- A call and a store operation behind a name mean what they mean around it. -/
theorem parse_pipeline_iff_nested_stored :
    let scope : Scope := { declared := ["t"] }
    let value := [Word.identifier "v"]
    let stages := [Stage.call [.identifier "f"] [[.digits 1]],
      .store "collapse" (some "t") [[⟨.string, "tag"⟩]]]
    let piped := "v |> f(1) |> collapse<t>(\"tag\")"
    let nested := "collapse<t>(f(v, 1), \"tag\")"
    IsExpression {} scope value ∧ (∀ stage ∈ stages, stage.IsReadable {} scope) ∧
      ∃ maxDepth node other,
        parseExpression { maxDepth } scope piped = .ok node ∧
        parseExpression { maxDepth } scope nested = .ok other ∧
        node.desugar = other.desugar := by
  intro scope value stages piped nested
  have expression (words : List Word) (text : String)
      (same : (Source.tokens {} text).map Token.word = words)
      (seen : (parseExpression { maxDepth := 1 } scope text).toOption.isSome = true) :
      IsExpression {} scope words := by
    obtain ⟨node, parsed⟩ := Option.isSome_iff_exists.mp seen
    exact ⟨text, 1, node, same, ok_of_toOption_eq_some parsed⟩
  have callee : IsCallee {} scope [.identifier "f"] := by
    have seen : (Grammar.read { maxDepth := 1 } scope "f" fun env => do
        let node ← selection env (belowOf env env.limit)
        atEnd env
        return node).toOption.isSome = true := by
      decide +kernel
    obtain ⟨node, read⟩ := Option.isSome_iff_exists.mp seen
    exact ⟨by decide, "f", 1, node, by decide +kernel, ok_of_toOption_eq_some read⟩
  have one := expression [.digits 1] "1" (by decide +kernel) (by decide +kernel)
  have tag := expression [⟨.string, "tag"⟩] "\"tag\"" (by decide +kernel) (by decide +kernel)
  have readable : ∀ stage ∈ stages, stage.IsReadable {} scope := by
    refine List.forall_mem_cons.mpr ⟨⟨callee, List.forall_mem_singleton.mpr one⟩, ?_⟩
    refine List.forall_mem_singleton.mpr ⟨⟨.collapse, rfl, by decide⟩, ?_⟩
    exact List.forall_mem_singleton.mpr tag
  have first := expression value "v" (by decide +kernel) (by decide +kernel)
  refine ⟨first, readable, ?_⟩
  obtain ⟨least, alike⟩ := parse_pipeline_iff_nested {} scope first readable
  have seen : (parseExpression { maxDepth := 4 } scope piped).toOption.isSome = true := by
    decide +kernel
  obtain ⟨node, parsed⟩ := Option.isSome_iff_exists.mp seen
  have parsed := ok_of_toOption_eq_some parsed
  have roomy : parseExpression { maxDepth := max least 4 } scope piped = .ok node :=
    @parseExpression_eq_ok_of_le {} scope piped 4 _ (Nat.le_max_right least 4) node parsed
  obtain ⟨both, same, -⟩ := alike (max least 4) (Nat.le_max_left ..) piped nested
    (by decide +kernel) (by decide +kernel)
  obtain ⟨other, parsedToo⟩ := both.mp ⟨node, roomy⟩
  exact ⟨_, node, other, roomy, parsedToo, same node other roomy parsedToo⟩

end ContentSpace

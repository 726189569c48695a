import ContentSpace.Proofs.Grammar.Trace.Statement

/-!
# What programs take and where they fail

A program starts with a header: declarations, its name, a brace, and further declarations. Blocks
follow, one after another, up to the brace that ends the program. A declaration that comes next
after the header is too late; inside a block it is refused as well. So every declaration that a
program took stands in its header.

A failure names the program when a block fails, and names no source otherwise.
-/

namespace ContentSpace

namespace Scope

variable {scope inner : Scope} {known : Token → Prop} {token : Token} {name : String} {line : Nat}

/-- A declared table is new, and it is the last of the declared ones. -/
theorem of_declare (declared : scope.declare name line = .ok inner) :
    name ∉ scope.declared ∧ inner = { scope with declared := scope.declared ++ [name] } := by
  unfold declare at declared
  split at declared
  case isTrue => cases declared
  case isFalse =>
    split at declared
    case isTrue => cases declared
    case isFalse free =>
      cases declared
      exact ⟨by simpa using free, rfl⟩

/-- The fault of a declaration points at its name. -/
theorem pointsAt_of_declare {fault : Fault} (here : known token) (kind : token.kind = .identifier)
    (failed : scope.declare token.text token.line = .error fault) : fault.PointsAt known := by
  unfold declare at failed
  split at failed
  case isTrue =>
    cases failed
    exact .lateTable here kind
  case isFalse =>
    split at failed
    case isTrue =>
      cases failed
      exact .duplicateTable here kind
    case isFalse => cases failed

end Scope

/-- A failure, told as one in a program. -/
def Failure.within (failure : Failure) (program : String) : Failure :=
  { failure with origin := some { source := some program } }

namespace Grammar

/-! ## Blocks -/

section

variable {known prior : Token → Prop} {env : Environment} (finish : known env.finish)
include finish

/-- A parameter is traced. -/
theorem parameter_traces {block : String} {before : List String} :
    (parameter env block before).Traces known prior fun _ => True :=
  .andThen (name_traces finish) fun _ ⟨here, kind⟩ =>
    .ite (.refuse (.duplicateParameter here kind)) (.pure trivial)

/-- Further parameters are traced. -/
theorem furtherParameters_traces {block : String} {before : List String} :
    (furtherParameters env block before).Traces known fun _ => True := by
  intro source passed
  induction size : source.length using Nat.strongRecOn generalizing source before with
  | ind size ih =>
    rw [run_furtherParameters]
    split
    · have next : ((symbol env ",").andThen fun _ => liftM (parameter env block before)).Traces
          known afterAny fun _ => True :=
        .andThen (symbol_traces finish) fun _ _ => .consumer (parameter_traces finish)
      refine .bind passed (next passed) fun parameter rest _ passed ran => ?_
      have fewer := Consumer.length_of_run ran
      exact ih _ (by omega) passed rfl
    · exact .pure trivial

/-- The parameters of a block are traced. -/
theorem parameters_traces {block : String} :
    (parameters env block).Traces known prior fun _ => True := by
  refine .andThen (symbol_traces finish) fun _ _ => .peek finish fun next _ => ?_
  refine .ite (.skip (symbol_traces finish) fun _ => .pure trivial) ?_
  refine .skip (parameter_traces finish) fun first => ?_
  refine .bind (furtherParameters_traces finish) fun all _ => ?_
  exact .skip (symbol_traces finish) fun _ => .pure trivial

/-- The active table of a block is traced. -/
theorem activeTable_traces : (activeTable env).Traces known fun _ => True := by
  refine .peek finish fun next _ => .ite ?_ (.pure trivial)
  refine .skip (keyword_traces finish (by decide)) fun _ => ?_
  refine .bind (.consumer (name_traces finish)) fun table ⟨here, kind⟩ => ?_
  refine .bind (.check (fun _ _ => trivial) fun _ => Scope.pointsAt_of_require here kind) ?_
  exact fun table _ => .pure trivial

/-- A block is traced. -/
theorem block_traces : (block env).Traces known prior fun _ => True := by
  refine .andThen (keyword_traces finish (by decide)) fun _ _ => ?_
  refine .skip (name_traces finish) fun name => .skip (parameters_traces finish) fun parameters => ?_
  refine .bind (activeTable_traces finish) fun active _ => ?_
  have within : known (active.elim env env.within).finish := by
    cases active with
    | none => exact finish
    | some table => exact finish
  exact .skip (body_traces within (statement_traces env.limit)) fun statements => .pure trivial

end

/-! ## Headers -/

/-- The tokens of a declaration with a certain name. -/
inductive IsDeclaration (name : Token) : List Token → Prop where
  /-- Two keywords, a name and a semicolon. -/
  | intro {latent table semicolon : Token} : latent.isKeyword "latent" = true →
      table.isKeyword "table" = true → name.kind = .identifier → semicolon.kind = .symbol →
      IsDeclaration name [latent, table, name, semicolon]

/-- The tokens of declarations in a row, and the names of the tables. -/
inductive Declaring : (tokens : List Token) → (names : List String) → Prop where
  /-- No declaration. -/
  | nil : Declaring [] []
  /-- A declaration and others after it. -/
  | cons {name : Token} {first rest : List Token} {names : List String} :
      IsDeclaration name first → Declaring rest names →
      Declaring (first ++ rest) (name.text :: names)

/-- The tokens of the header of a program with a certain name, and the names of the tables. -/
inductive Opening (name : Token) : (tokens : List Token) → (names : List String) → Prop where
  /-- Declarations before the name of the program, and declarations after it. -/
  | intro {first second : List Token} {names more : List String} {word brace : Token} :
      Declaring first names → word.isKeyword "program" = true → name.kind = .identifier →
      brace.kind = .symbol → Declaring second more →
      Opening name (first ++ word :: name :: brace :: second) (names ++ more)

/-- The name of a program is an identifier in its header. -/
theorem Opening.name {name : Token} {tokens : List Token} {names : List String}
    (opening : Opening name tokens names) : name ∈ tokens ∧ name.kind = .identifier := by
  obtain ⟨_, _, kind, _, _⟩ := opening
  exact ⟨by simp, kind⟩

/-- The environment in which further tables are declared. -/
def Environment.declaring (env : Environment) (names : List String) : Environment :=
  { env with scope := { env.scope with declared := env.scope.declared ++ names } }

/-- The header of a program: its name, and the environment in which its blocks are read. -/
def header (env : Environment) : Parser (Token × Environment) := do
  let env ← declarations env
  let _ ← keyword env "program"
  let name ← name env
  let _ ← symbol env "\x7b"
  let env ← declarations env
  return (name, env)

section

variable {known : Token → Prop} {env : Environment} (finish : known env.finish)
  {source : List Token} (passed : ∀ token ∈ source, known token)
include finish passed

/-- A declaration takes its tokens. -/
theorem outcome_declaration :
    Outcome (Failure.PointsAt known) (fun name taken => known name ∧ IsDeclaration name taken)
      source ((declaration env).run source) := by
  rw [declaration, Consumer.run_andThen]
  refine .token finish passed fun latent rest _ _ passed isLatent => ?_
  simp only [Parser.run_bind, Parser.run_consumer]
  refine .token finish passed fun table rest _ _ passed isTable => ?_
  refine .token finish passed fun name rest _ here passed named => ?_
  refine .token finish passed fun semicolon rest _ _ _ ends => ?_
  exact .pure ⟨here, .intro isLatent isTable (eq_of_beq named) (Token.kind_of_is ends)⟩

/-- Declarations take their tokens and declare new tables. -/
theorem outcome_declarations :
    Outcome (Failure.PointsAt known) (fun opened taken => ∃ names, Declaring taken names ∧
      opened = env.declaring names ∧
      (env.scope.declared.Nodup → (env.scope.declared ++ names).Nodup))
      source ((declarations env).run source) := by
  induction size : source.length using Nat.strongRecOn generalizing source env with
  | ind size ih =>
    rw [run_declarations]
    split
    · rw [Consumer.run_andThen, bind_assoc]
      refine (outcome_declaration finish passed).bind ?_
      intro name first rest split ran ⟨here, tokens⟩
      cases declared : env.scope.declare name.text name.line with
      | error fault =>
        have kind : name.kind = .identifier := by cases tokens; assumption
        exact ⟨rfl, Scope.pointsAt_of_declare here kind declared⟩
      | ok scope =>
        obtain ⟨fresh, rfl⟩ := Scope.of_declare declared
        have passed := (List.forall_mem_append.mp (split ▸ passed)).2
        have shorter := Consumer.length_of_run ran
        show Outcome _ _ rest ((declarations _).run rest)
        have finish : known (env.declaring [name.text]).finish := finish
        refine (ih rest.length (by omega) finish passed rfl).mono (fun _ => id) ?_
        rintro opened more ⟨names, declaring, rfl, unique⟩
        refine ⟨name.text :: names, .cons tokens declaring, ?_, fun before => ?_⟩
        · simp [Environment.declaring]
        · have one : (env.declaring [name.text]).scope.declared.Nodup :=
            List.nodup_append.mpr ⟨before, by simp, fun table member => by
              simpa using ne_of_mem_of_not_mem member fresh⟩
          simpa [Environment.declaring] using unique one
    · refine .pure ⟨[], .nil, ?_, by simp⟩
      simp [Environment.declaring]

/-- The header of a program takes its tokens and declares new tables. -/
theorem outcome_header :
    Outcome (Failure.PointsAt known) (fun opened taken => ∃ names, Opening opened.1 taken names ∧
      opened.2 = env.declaring names ∧
      (env.scope.declared.Nodup → (env.scope.declared ++ names).Nodup))
      source ((header env).run source) := by
  simp only [header, Parser.run_bind, Parser.run_consumer]
  refine (outcome_declarations finish passed).bind ?_
  rintro _ first rest rfl _ ⟨names, declaring, rfl, unique⟩
  have passed := (List.forall_mem_append.mp passed).2
  refine .token finish passed fun word rest _ _ passed isProgram => ?_
  refine .token finish passed fun name rest _ _ passed named => ?_
  refine .token finish passed fun brace rest _ _ passed opens => ?_
  have finish : known (env.declaring names).finish := finish
  refine (outcome_declarations finish passed).bind ?_
  rintro _ second rest rfl _ ⟨more, declaringToo, rfl, uniqueToo⟩
  refine .pure ⟨names ++ more, ?_, by simp [Environment.declaring], fun before => ?_⟩
  · rw [List.append_nil]
    exact .intro declaring isProgram (eq_of_beq named) (Token.kind_of_is opens) declaringToo
  · rw [← List.append_assoc]
    exact uniqueToo (unique before)

end

/-! ## Programs -/

/-- A block comes next: neither the end of the program nor a declaration does. -/
def AtBlock (env : Environment) (source : List Token) : Prop :=
  (env.peek source).isSymbol "\x7d" = false ∧ atDeclaration source = false

/-- Of the blocks that are read one after another, one fails. -/
inductive BlockFails (env : Environment) (failure : Failure) : (source : List Token) → Prop where
  /-- The next one fails. -/
  | here {source : List Token} : AtBlock env source → (block env).run source = .error failure →
      BlockFails env failure source
  /-- One after the next one fails. -/
  | later {source rest : List Token} {first : Block} : AtBlock env source →
      (block env).run source = .ok (first, rest) → BlockFails env failure rest →
      BlockFails env failure source

/-- A block of the program with a certain name fails. -/
def FailsInBlock (env : Environment) (source : List Token) (name : Token) (failure : Failure) :
    Prop :=
  ∃ opened rest, (header env).run source = .ok ((name, opened), rest) ∧
    BlockFails opened failure rest

/-- What follows the header of a program. -/
def remainder (name : Token) (env : Environment) : Parser Program := do
  let blocks ← itemsUntil env "\x7d" (blockOf env name.text)
  let _ ← symbol env "\x7d"
  let late ← atDeclaration <$> Parser.ahead
  if late then lateDeclaration env
  else
    atEnd env
    return { name := name.text, tables := env.scope.declared, blocks }

/-- Blocks fail outside of them, at a token, or one of them does. -/
def BlocksFail (known : Token → Prop) (env : Environment) (program : String) (source : List Token)
    (failure : Failure) : Prop :=
  failure.PointsAt known ∨
    ∃ inner, inner.PointsAt known ∧ BlockFails env inner source ∧ failure = inner.within program

/-- Blocks that fail after a whole block fail with it. -/
theorem BlocksFail.later {known : Token → Prop} {env : Environment} {program : String}
    {source rest : List Token} {first : Block} {failure : Failure} (start : AtBlock env source)
    (ran : (block env).run source = .ok (first, rest))
    (fail : BlocksFail known env program rest failure) :
    BlocksFail known env program source failure :=
  fail.imp_right fun ⟨inner, points, fails, same⟩ => ⟨inner, points, .later start ran fails, same⟩

/-- A program is its header and what follows it. -/
theorem run_program {env : Environment} {source : List Token} :
    (program env).run source = (header env).run source >>= fun opened =>
      (remainder opened.1.1 opened.1.2).run opened.2 := by
  simp only [program, header, remainder, Parser.run_bind, bind_assoc, Parser.run_pure, ok_bind]

/-- A failure of a block is told as one in its program. -/
theorem run_blockOf {env : Environment} {program : String} {source : List Token}
    (block : atDeclaration source = false) :
    (blockOf env program).run source =
      ((Grammar.block env).run source).mapError fun failure => failure.within program := by
  rw [← Consumer.run_mapFailure]
  unfold Consumer.run blockOf
  simp [block, Failure.within]

/-- A declaration in place of a block is too late. -/
theorem run_blockOf_late {env : Environment} {program : String} {source : List Token}
    (late : atDeclaration source = true) :
    (blockOf env program).run source = (lateDeclaration env).run source := by
  unfold Consumer.run blockOf
  simp [late]

/-- Where a block fails, the blocks fail, and the failure names the program. -/
theorem BlockFails.run_blocks {env : Environment} {failure : Failure} {source : List Token}
    (fails : BlockFails env failure source) (program : String) :
    (itemsUntil env "\x7d" (blockOf env program)).run source =
      .error (failure.within program) := by
  induction fails with
  | here start failed =>
    rw [run_itemsUntil, start.1, run_blockOf start.2, failed]
    rfl
  | later start ran _ ih =>
    rw [run_itemsUntil, start.1, run_blockOf start.2, ran]
    show ((itemsUntil env "\x7d" (blockOf env program)).run _ >>= _) = _
    rw [ih]
    rfl

section

variable {known : Token → Prop} {env : Environment} (finish : known env.finish)
include finish

/-- A declaration that comes too late is blamed. -/
theorem lateDeclaration_traces {α : Type} {prior : Token → Prop} {property : α → Prop} :
    (lateDeclaration env : Consumer α).Traces known prior property := by
  intro source passed
  rw [lateDeclaration, Consumer.run_andThen]
  refine (outcome_declaration finish passed).bind ?_
  rintro name taken rest _ _ ⟨here, ⟨_, _, kind, _⟩⟩
  exact ⟨rfl, .lateTable here kind⟩

variable {source : List Token} (passed : ∀ token ∈ source, known token)
include passed

/-- Blocks take tokens among which no declaration starts. They fail where a block fails, and at a
declaration that comes too late. -/
theorem outcome_blocks {program : String} :
    Outcome (BlocksFail known env program source) (fun _ taken => Quiet afterAny taken) source
      ((itemsUntil env "\x7d" (blockOf env program)).run source) := by
  induction size : source.length using Nat.strongRecOn generalizing source with
  | ind size ih =>
    rw [run_itemsUntil]
    split
    case isTrue => exact .pure .nil
    case isFalse more =>
      cases late : atDeclaration source with
      | true =>
        rw [run_blockOf_late late]
        have failed : Traced known afterNone (fun _ : Block => False) source _ :=
          lateDeclaration_traces finish passed
        exact (failed.mono (fun _ => .inl) fun _ _ => id).bind fun _ _ _ _ _ never => never.1.elim
      | false =>
        have start : AtBlock env source := ⟨by simpa using more, late⟩
        have traced : Traced known afterAny _ source _ := block_traces finish passed
        rw [run_blockOf late]
        match ran : (block env).run source, traced with
        | .error inner, failed => exact .inr ⟨inner, failed, .here start ran, rfl⟩
        | .ok (first, rest), ⟨taken, split, _, quiet⟩ =>
          have shorter := Consumer.length_of_run ran
          have passed := (List.forall_mem_append.mp (split ▸ passed)).2
          have here : Outcome (BlocksFail known env program source)
              (fun _ tokens => Quiet afterAny tokens) source (.ok (first, rest)) :=
            ⟨taken, split, quiet⟩
          refine here.bind fun _ front _ _ same quiet => ?_
          cases same
          have others := ih rest.length (by omega) passed rfl
          refine (others.mono (fun _ => .later start ran) fun _ _ => id).bind ?_
          exact fun _ more _ _ _ quietToo => .pure (by simpa using quiet.append quietToo)

/-- What follows the header of a program is the rest of the source. No declaration starts among it,
and the tables of the program are those its header declares. -/
theorem outcome_remainder {name : Token} :
    Outcome (BlocksFail known env name.text source)
      (fun program taken => taken = source ∧ Quiet afterAny taken ∧
        program.tables = env.scope.declared) source
      ((remainder name env).run source) := by
  simp only [remainder, Parser.run_bind, Parser.run_consumer]
  refine (outcome_blocks finish passed).bind fun blocks taken rest split _ quiet => ?_
  have passed := (List.forall_mem_append.mp (split ▸ passed)).2
  have whole (program : Program) (more : List Token) : more = rest ∧ Quiet afterAny more ∧
      program.tables = env.scope.declared → taken ++ more = source ∧
        Quiet afterAny (taken ++ more) ∧ program.tables = env.scope.declared := by
    rintro ⟨rfl, quietToo, tables⟩
    exact ⟨split.symm, quiet.append quietToo, tables⟩
  refine Outcome.mono (?_ : Outcome (Failure.PointsAt known) _ rest _) (fun _ => .inl) whole
  refine .token finish passed fun brace last splitRest _ passedLast closes => ?_
  subst splitRest
  have kind : brace.kind ≠ .keyword := by rw [Token.kind_of_is closes]; nofun
  have quietToo : Quiet afterAny [brace] := .singleton fun _ _ => unpaired_of_kind kind
  show Outcome _ _ last ((if atDeclaration last = true then _ else _ : Parser Program).run last)
  split
  case isTrue =>
    have late : Traced known afterNone (fun _ : Program => False) last _ :=
      lateDeclaration_traces finish passedLast
    rw [Parser.run_consumer]
    exact late.mono (fun _ => id) fun _ _ never => never.1.elim
  case isFalse =>
    cases last with
    | nil => exact .pure ⟨rfl, quietToo, rfl⟩
    | cons next others => exact ⟨rfl, .described (passedLast next (List.mem_cons_self ..))⟩

/-- A program takes all tokens: its header, which declares its tables, and tokens among which no
declaration starts. It fails in its header, after its blocks, or where its blocks fail. -/
theorem outcome_program :
    Outcome
      (fun failure => failure.PointsAt known ∨ ∃ name inner, inner.PointsAt known ∧
        FailsInBlock env source name inner ∧ failure = inner.within name.text)
      (fun program taken => taken = source ∧ ∃ name opening closing names,
        source = opening ++ closing ∧ Opening name opening names ∧ Quiet afterAny closing ∧
          program.tables = env.scope.declared ++ names ∧
          (env.scope.declared.Nodup → program.tables.Nodup))
      source ((program env).run source) := by
  rw [run_program]
  refine Outcome.bind ((outcome_header finish passed).mono (fun _ => .inl) fun _ _ => id) ?_
  rintro ⟨name, _⟩ opening rest split ran ⟨names, header, rfl, unique⟩
  have passed := (List.forall_mem_append.mp (split ▸ passed)).2
  have finish : known (env.declaring names).finish := finish
  refine (outcome_remainder finish passed).mono ?_ ?_
  · rintro failure (points | ⟨inner, points, fails, same⟩)
    · exact .inl points
    · exact .inr ⟨name, inner, points, ⟨_, _, ran, fails⟩, same⟩
  · rintro program closing ⟨rfl, quiet, tables⟩
    refine ⟨split.symm, name, opening, closing, names, split, header, quiet, tables, ?_⟩
    exact fun before => tables ▸ unique before

end

/-- Where a block fails, the program fails, and the failure names the program. -/
theorem FailsInBlock.run_program {env : Environment} {source : List Token} {name : Token}
    {failure : Failure} (fails : FailsInBlock env source name failure) :
    (program env).run source = .error (failure.within name.text) := by
  obtain ⟨opened, rest, ran, fails⟩ := fails
  rw [Grammar.run_program, ran]
  show (remainder name opened).run rest = _
  rw [remainder, Parser.run_bind, fails.run_blocks]
  rfl

end Grammar

open Grammar

/-- A program that cannot be read fails with one of six codes, and its fault points at a token of
the source: the line is the line of that token, a problem names the text of that token, as it is or
as messages describe it, and a table or parameter that is named is the text of an identifier. The
failure names the program when a block fails, and no source otherwise. -/
theorem parseProgram_points_at_token {settings : Settings} {source : String} {failure : Failure}
    (failed : parseProgram settings source = .error failure) :
    let env := start settings {} source
    let tokens := Source.tokens settings source
    let all := tokens ++ [Source.endToken source]
    failure.fault.code ∈ ["E_SYNTAX", "E_LS_DUPLICATE_ALIAS", "E_LS_UNDECLARED_TABLE",
        "E_LS_MISSING_ACTIVE_TABLE", "E_LS_ORDERING", "E_PARAM_DUPLICATE"] ∧
      (∃ token ∈ all, failure.fault.line? = some token.line) ∧
      failure.fault.PointsAt (· ∈ all) ∧
      (failure.origin ≠ none ↔ ∃ name inner, FailsInBlock env tokens name inner) ∧
      ∀ name inner, FailsInBlock env tokens name inner →
        name ∈ tokens ∧ name.kind = .identifier ∧ failure = inner.within name.text := by
  intro env tokens all
  have finish : env.finish ∈ all := List.mem_append_right _ (List.mem_singleton_self _)
  have passed : ∀ token ∈ tokens, token ∈ all := fun token => List.mem_append_left _
  have outcome := outcome_program finish passed
  have run : (program env).run tokens = .error failure := run_of_read_eq_error failed
  have of_fails (name : Token) (inner : Failure) (fails : FailsInBlock env tokens name inner) :
      failure = inner.within name.text :=
    Except.error.inj (run.symm.trans fails.run_program)
  rw [run] at outcome
  have points : failure.fault.PointsAt (· ∈ all) := by
    rcases outcome with points | ⟨name, inner, points, _, rfl⟩
    · exact points.2
    · exact points.2
  refine ⟨points.code_mem, points.exists_line, points, ⟨fun named => ?_, ?_⟩, ?_⟩
  · rcases outcome with points | ⟨name, inner, _, fails, _⟩
    · exact (named points.1).elim
    · exact ⟨name, inner, fails⟩
  · rintro ⟨name, inner, fails⟩
    rw [of_fails name inner fails]
    nofun
  · intro name inner fails
    have header := outcome_header finish passed
    have same := of_fails name inner fails
    obtain ⟨opened, rest, ran, _⟩ := fails
    rw [ran] at header
    obtain ⟨taken, split, names, opening, _⟩ := header
    obtain ⟨inside, kind⟩ := opening.name
    exact ⟨split ▸ List.mem_append_left rest inside, kind, same⟩

/-- The second line of a source assigns nothing: the failure is on that line and names the program,
because a block fails. -/
theorem parseProgram_points_at_token_in_block :
    let source := "program p \x7b block m() \x7b\nlet x = ; \x7d \x7d"
    ∃ failure, parseProgram {} source = .error failure ∧ failure.fault.line? = some 2 ∧
      failure.source? = some "p" ∧
      ∃ name inner, FailsInBlock (start {} {} source) (Source.tokens {} source) name inner := by
  intro source
  have seen : (match parseProgram {} source with
      | .ok _ => false
      | .error failure => failure.fault.line? == some 2 && failure.source? == some "p") = true := by
    decide +kernel
  cases read : parseProgram {} source with
  | ok program =>
    rw [read] at seen
    cases seen
  | error failure =>
    rw [read] at seen
    simp only [Bool.and_eq_true, beq_iff_eq] at seen
    obtain ⟨_, _, _, named, _⟩ := parseProgram_points_at_token read
    refine ⟨failure, rfl, seen.1, seen.2, named.mp fun unnamed => ?_⟩
    rw [Failure.source?, unnamed] at seen
    cases seen.2

end ContentSpace

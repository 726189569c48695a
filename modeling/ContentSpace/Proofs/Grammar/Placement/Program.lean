import ContentSpace.Proofs.Grammar.Limit.Program
import ContentSpace.Proofs.Grammar.Placement.Expression
import ContentSpace.Proofs.Source.Blank

/-!
# Programs elsewhere

Statements and programs are read alike from the same words, since expressions are. Blanks before a
token change no word of a source, so they change nothing of what is read but the lines of faults.
-/

namespace ContentSpace

namespace Grammar

/-- The line is no part of whether a scope may be opened. -/
theorem openScope_congr (scope : Scope) (name : String) (line lineToo : Nat) :
    (scope.openScope name line).mapError Fault.unplaced =
      (scope.openScope name lineToo).mapError Fault.unplaced := by
  unfold Scope.openScope
  split <;> rfl

/-- The line is no part of whether a table may be declared. -/
theorem declare_congr (scope : Scope) (name : String) (line lineToo : Nat) :
    (scope.declare name line).mapError Fault.unplaced =
      (scope.declare name lineToo).mapError Fault.unplaced := by
  unfold Scope.declare
  split
  · rfl
  split <;> rfl

/-! ## Statements -/

section

variable {env : Environment} {finish : Token} {small large : Consumer Node}
  {statement statementToo : Environment → Consumer Node}
  (ends : SameWord env.finish finish) (value : small.Matches Eq large)
  (inner : ∀ env : Environment, SameWord env.finish finish →
    (statement env).Matches Eq (statementToo (env.endingIn finish)))

section
include ends inner

/-- The statements of a body are read alike. -/
theorem body_matches :
    (body env statement).Matches Eq (body (env.endingIn finish) statementToo) := by
  refine (symbol_matches ends).skip ?_
  refine .bindSame (itemsUntil_matches ends (inner env ends)) fun statements => ?_
  exact .skip (symbol_matches ends) (.pure rfl)

/-- What follows `else` is read alike. -/
theorem alternative_matches :
    (alternative env statement).Matches Eq
      (alternative (env.endingIn finish) statementToo) := by
  refine .peek ends fun next like same => .ite (is_iff same) ?_ (.pure rfl)
  refine .skip (keyword_matches ends) <| .peek ends fun next like same => ?_
  refine .ite (is_iff same) (.takeSame (inner env ends) fun node => .pure rfl) ?_
  exact .consumer (body_matches ends inner)

/-- A body with an active table is read alike. -/
theorem usingTable_matches :
    (usingTable env statement).Matches Eq
      (usingTable (env.endingIn finish) statementToo) := by
  refine (keyword_matches ends).skip <| .take (name_matches ends) fun table like same => ?_
  rw [text_congr same]
  refine .checked (require_congr ..) fun table => ?_
  have within : (body (env.within table) statement).Matches Eq
      (body ((env.within table).endingIn finish) statementToo) := body_matches ends inner
  exact .takeSame within fun statements => .pure rfl

/-- A body with a scope of its own is read alike. -/
theorem latentScope_matches {line lineToo : Nat} :
    (latentScope env statement line).Matches Eq
      (latentScope (env.endingIn finish) statementToo lineToo) := by
  refine .bind (ascription_matches ends) fun table tableToo tables => ?_
  refine .checked (ascribed_congr tables) fun parent => ?_
  refine .take (name_matches ends) fun name like same => ?_
  rw [text_congr same]
  refine .checked (openScope_congr ..) fun scope => ?_
  have within : (body { env with scope } statement).Matches Eq
      (body (Environment.endingIn { env with scope } finish) statementToo) :=
    body_matches ends inner
  exact .takeSame within fun statements => .pure rfl

end

section
include ends value

/-- An expression up to a semicolon is read alike. -/
theorem terminated_matches :
    (terminated env small).Matches Eq (terminated (env.endingIn finish) large) :=
  value.andThenSame fun _ => .skip (symbol_matches ends) (.pure rfl)

/-- What is assigned is read alike. -/
theorem assigned_matches :
    (assigned env small).Matches Eq (assigned (env.endingIn finish) large) :=
  (operator_matches ends).skip (.consumer (terminated_matches ends value))

/-- A condition is read alike. -/
theorem condition_matches :
    (condition env small).Matches Eq (condition (env.endingIn finish) large) := by
  refine (symbol_matches ends).skip <| .takeSame value fun node => ?_
  exact .skip (symbol_matches ends) (.pure rfl)

/-- A binding is read alike. -/
theorem binding_matches {word : String} {bind : String → Node → Node} :
    (binding env small word bind).Matches Eq
      (binding (env.endingIn finish) large word bind) := by
  refine (keyword_matches ends).skip <| .take (name_matches ends) fun name like same => ?_
  refine .takeSame (assigned_matches ends value) fun value => .pure ?_
  rw [text_congr same]

/-- The end of a block is read alike. -/
theorem ending_matches : (ending env small).Matches Eq (ending (env.endingIn finish) large) := by
  refine (keyword_matches ends).skip <| .peek ends fun next like same => ?_
  refine .ite (is_iff same) ?_ ?_
  · exact .skip (symbol_matches ends) (.pure rfl)
  · exact .takeSame (terminated_matches ends value) fun result => .pure rfl

/-- An assertion is read alike. -/
theorem assertion_matches :
    (assertion env small).Matches Eq (assertion (env.endingIn finish) large) := by
  refine (keyword_matches ends).skip ?_
  exact .takeSame (terminated_matches ends value) fun node => .pure rfl

/-- A name bound again is read alike. -/
theorem reassignment_matches :
    (reassignment env small).Matches Eq (reassignment (env.endingIn finish) large) := by
  refine (name_matches ends).andThen fun name like same => ?_
  rw [text_congr same, describe_congr same]
  refine .ite Iff.rfl (.refuse rfl) ?_
  exact .takeSame (assigned_matches ends value) fun value => .pure rfl

/-- A name and what is assigned to it in a table are read alike. -/
theorem latentAssignment_matches {what : String} {line lineToo : Nat}
    {make : String → String → Node → Sugar Node} :
    (latentAssignment env small what line make).Matches Eq
      (latentAssignment (env.endingIn finish) large what lineToo make) := by
  refine .bind (ascription_matches ends) fun table tableToo tables => ?_
  refine .checked (ascribed_congr tables) fun table => ?_
  refine .take (name_matches ends) fun name like same => ?_
  refine .takeSame (assigned_matches ends value) fun value => .pure ?_
  rw [text_congr same]

omit value in
/-- A snapshot of a table is read alike. -/
theorem latentSnapshot_matches {line lineToo : Nat} :
    (latentSnapshot env line).Matches Eq (latentSnapshot (env.endingIn finish) lineToo) := by
  refine .bind (ascription_matches ends) fun table tableToo tables => ?_
  refine .checked (ascribed_congr tables) fun table => ?_
  refine .take (name_matches ends) fun name like same => .skip (symbol_matches ends) ?_
  rw [text_congr same]
  exact .pure rfl

/-- A condition with a table that may be named is read alike. -/
theorem latentGuard_matches :
    (latentGuard env small).Matches Eq (latentGuard (env.endingIn finish) large) := by
  refine .bind (ascription_matches ends) fun table tableToo tables => ?_
  have guarded := terminated_matches ends value
  cases tables with
  | none => exact .takeSame guarded fun node => .pure rfl
  | @some table like same =>
    dsimp only
    rw [text_congr same]
    exact .checked (require_congr ..) fun _ => .takeSame guarded fun node => .pure rfl

include inner

/-- A choice between statements is read alike. -/
theorem branching_matches :
    (branching env small statement).Matches Eq
      (branching (env.endingIn finish) large statementToo) := by
  refine (keyword_matches ends).skip ?_
  refine .takeSame (condition_matches ends value) fun test => ?_
  refine .takeSame (body_matches ends inner) fun yes => ?_
  exact .bindSame (alternative_matches ends inner) fun no => .pure rfl

/-- A loop while a condition holds is read alike. -/
theorem whileLoop_matches :
    (whileLoop env small statement).Matches Eq
      (whileLoop (env.endingIn finish) large statementToo) := by
  refine (keyword_matches ends).skip ?_
  refine .takeSame (condition_matches ends value) fun test => ?_
  exact .takeSame (body_matches ends inner) fun statements => .pure rfl

/-- A loop over a collection is read alike. -/
theorem forLoop_matches :
    (forLoop env small statement).Matches Eq
      (forLoop (env.endingIn finish) large statementToo) := by
  refine (keyword_matches ends).skip <| .skip (symbol_matches ends) ?_
  refine .take (name_matches ends) fun name like same => .skip (keyword_matches ends) ?_
  refine .takeSame value fun iterable => .skip (symbol_matches ends) ?_
  refine .takeSame (body_matches ends inner) fun statements => .pure ?_
  rw [text_congr same]

/-- A name for a content inside a body is read alike. -/
theorem latentMatch_matches {line lineToo : Nat} :
    (latentMatch env small statement line).Matches Eq
      (latentMatch (env.endingIn finish) large statementToo lineToo) := by
  refine .bind (ascription_matches ends) fun table tableToo tables => ?_
  refine .checked (ascribed_congr tables) fun table => ?_
  refine .take (name_matches ends) fun name like same => .skip (operator_matches ends) ?_
  refine .takeSame value fun handle => ?_
  refine .takeSame (body_matches ends inner) fun statements => .pure ?_
  rw [text_congr same]

/-- A statement on a table is read alike. -/
theorem latent_matches :
    (latent env small statement).Matches Eq
      (latent (env.endingIn finish) large statementToo) := by
  have skipped {word : String} : (keyword env word).Matches SameWord _ := keyword_matches ends
  refine skipped.andThen fun latent like same => .peek ends fun next nextToo nexts => ?_
  refine .ite (is_iff nexts) ?_ (.ite (is_iff nexts) ?_ (.ite (is_iff nexts) ?_ ?_))
  · refine .skip skipped <| .take (name_matches ends) fun name nameToo names => ?_
    rw [text_congr names]
    exact .refuse rfl
  · exact .skip skipped (latentAssignment_matches ends value)
  · exact .skip skipped (latentSnapshot_matches ends)
  refine .ite (is_iff nexts) ?_ (.ite (is_iff nexts) ?_ (.ite (is_iff nexts) ?_ ?_))
  · exact .skip skipped (latentMatch_matches ends value inner)
  · exact .skip skipped (latentGuard_matches ends value)
  · exact .skip skipped (latentAssignment_matches ends value)
  refine .ite (is_iff nexts) ?_ (.ite (is_iff nexts) ?_ ?_)
  · exact .skip skipped <| .skip skipped (latentAssignment_matches ends value)
  · exact .skip skipped (latentScope_matches ends inner)
  · exact latentAssignment_matches ends value

end

/-- Of the same words, two are ahead in both or in neither. -/
theorem two_ahead {source other : List Token}
    (words : source.map Token.word = other.map Token.word) :
    (∃ first second rest like likeToo others, source = first :: second :: rest ∧
        other = like :: likeToo :: others ∧ SameWord first like ∧ SameWord second likeToo) ∨
      (source = [] ∧ other = []) ∨ ∃ token like, source = [token] ∧ other = [like] := by
  cases source with
  | nil => exact .inr (.inl ⟨rfl, List.map_eq_nil_iff.mp words.symm⟩)
  | cons first rest =>
    obtain ⟨like, others, rfl, same, words⟩ := List.map_eq_cons_iff.mp words.symm
    cases rest with
    | nil =>
      obtain rfl : others = [] := List.map_eq_nil_iff.mp words
      exact .inr (.inr ⟨first, like, rfl, rfl⟩)
    | cons second rest =>
      obtain ⟨likeToo, others, rfl, sameToo, -⟩ := List.map_eq_cons_iff.mp words
      exact .inl ⟨first, second, rest, like, likeToo, others, rfl, rfl, same.symm, sameToo.symm⟩

/-- A name and an equals sign are seen alike. -/
theorem atReassignment_congr {source other : List Token}
    (words : source.map Token.word = other.map Token.word) :
    atReassignment source = atReassignment other := by
  rcases two_ahead words with
    ⟨first, second, rest, like, likeToo, others, rfl, rfl, same, sameToo⟩ |
      ⟨rfl, rfl⟩ | ⟨token, like, rfl, rfl⟩
  · rw [atReassignment, atReassignment, kind_congr same]
    exact congrArg _ (is_congr sameToo _ _)
  · rfl
  · rfl

/-- A statement is read alike when the expressions and statements inside it are. -/
theorem statementOf_matches (ends : SameWord env.finish finish) (value : small.Matches Eq large)
    (inner : ∀ env : Environment, SameWord env.finish finish →
      (statement env).Matches Eq (statementToo (env.endingIn finish))) :
    (statementOf env small statement).Matches Eq
      (statementOf (env.endingIn finish) large statementToo) := by
  intro source other words
  have next : SameWord (env.peek source) ((env.endingIn finish).peek other) :=
    peek_sameWord ends words
  have assigns : atReassignment source = true ↔ atReassignment other = true := by
    rw [atReassignment_congr words]
  refine Consumer.Matches.ite (is_iff next) (binding_matches ends value) ?_ source other words
  refine .ite (is_iff next) (binding_matches ends value) ?_
  refine .ite (is_iff next) (branching_matches ends value inner) ?_
  refine .ite (is_iff next) (whileLoop_matches ends value inner) ?_
  refine .ite (is_iff next) (forLoop_matches ends value inner) ?_
  refine .ite (is_iff next) (ending_matches ends value) ?_
  refine .ite (is_iff next) (assertion_matches ends value) ?_
  refine .ite (is_iff next) (usingTable_matches ends inner) ?_
  refine .ite (is_iff next) (latent_matches ends value inner) ?_
  exact .ite assigns (reassignment_matches ends value) (terminated_matches ends value)

end

/-- A statement is read alike. -/
theorem statement_matches {finish : Token} (room : Nat) (env : Environment)
    (ends : SameWord env.finish finish) :
    (statement room env).Matches Eq (statement room (env.endingIn finish)) := by
  induction room generalizing env with
  | zero => exact .fail ends
  | succ room ih => exact statementOf_matches ends (level_matches ends room).expression ih

/-! ## Programs -/

section

variable {env : Environment} {finish : Token} (ends : SameWord env.finish finish)

/-- The declaration of a table is seen alike. -/
theorem atDeclaration_congr {source other : List Token}
    (words : source.map Token.word = other.map Token.word) :
    atDeclaration source = atDeclaration other := by
  rcases two_ahead words with
    ⟨first, second, rest, like, likeToo, others, rfl, rfl, same, sameToo⟩ |
      ⟨rfl, rfl⟩ | ⟨token, like, rfl, rfl⟩
  · exact congrArg₂ and (is_congr same _ _) (is_congr sameToo _ _)
  · rfl
  · rfl

include ends

/-- The declaration of a table is read alike. -/
theorem declaration_matches :
    (declaration env).Matches SameWord (declaration (env.endingIn finish)) := by
  refine (keyword_matches ends).skip <| .skip (keyword_matches ends) ?_
  refine .take (name_matches ends) fun name like same => ?_
  exact .skip (symbol_matches ends) (.pure same)

/-- A declaration that comes too late is refused alike. -/
theorem lateDeclaration_matches {α : Type} :
    (lateDeclaration env : Consumer α).Matches Eq (lateDeclaration (env.endingIn finish)) := by
  refine (declaration_matches ends).andThen fun name like same => .refuse ?_
  rw [text_congr same]
  rfl

/-- Declarations are read alike, and the environments after them differ in the end of the source
only. -/
theorem declarations_matches :
    (declarations env).Matches
      (fun left right => right = left.endingIn finish ∧ SameWord left.finish finish)
      (declarations (env.endingIn finish)) := by
  intro source
  induction size : source.length using Nat.strongRecOn generalizing env source with
  | ind size ih =>
    intro other words
    rw [run_declarations, run_declarations, atDeclaration_congr words]
    split
    · have declared : ((declaration env).andThen fun name =>
          .check (env.scope.declare name.text name.line)).Matches Eq
            ((declaration (env.endingIn finish)).andThen fun name =>
              .check ((env.endingIn finish).scope.declare name.text name.line)) := by
        refine (declaration_matches ends).andThen fun name like same => ?_
        rw [text_congr same]
        exact .check (declare_congr ..)
      refine (declared source other words).bind fun scope _ rest others taken same rests => ?_
      subst same
      have shorter := Consumer.length_of_run taken
      exact @ih rest.length (by omega) { env with scope } ends rest rfl others rests
    · exact .taken ⟨rfl, ends⟩ words

/-- A parameter is read alike. -/
theorem parameter_matches {block : String} {before : List String} :
    (parameter env block before).Matches Eq (parameter (env.endingIn finish) block before) := by
  refine (name_matches ends).andThen fun name like same => ?_
  rw [text_congr same]
  exact .ite Iff.rfl (.refuse rfl) (.pure rfl)

/-- All parameters are read alike. -/
theorem furtherParameters_matches {block : String} {before : List String} :
    (furtherParameters env block before).Matches Eq
      (furtherParameters (env.endingIn finish) block before) := by
  intro source
  induction size : source.length using Nat.strongRecOn generalizing before source with
  | ind size ih =>
    intro other words
    have comma : (env.peek source).isSymbol "," = ((env.endingIn finish).peek other).isSymbol "," :=
      is_congr (peek_sameWord ends words) _ _
    rw [run_furtherParameters, run_furtherParameters, comma]
    split
    · have next : ((symbol env ",").andThen fun _ => liftM (parameter env block before)).Matches Eq
          ((symbol (env.endingIn finish) ",").andThen fun _ =>
            liftM (parameter (env.endingIn finish) block before)) :=
        (symbol_matches ends).skip (.consumer (parameter_matches ends))
      refine (next source other words).bind fun parameter _ rest others taken same rests => ?_
      subst same
      have shorter := Consumer.length_of_run taken
      exact ih rest.length (by omega) rest rfl others rests
    · exact .taken rfl words

/-- The parameters of a block are read alike. -/
theorem parameters_matches {block : String} :
    (parameters env block).Matches Eq (parameters (env.endingIn finish) block) := by
  refine (symbol_matches ends).skip <| .peek ends fun next like same => ?_
  refine .ite (is_iff same) (.skip (symbol_matches ends) (.pure rfl)) ?_
  refine .takeSame (parameter_matches ends) fun first => ?_
  refine .bindSame (furtherParameters_matches ends) fun all => ?_
  exact .skip (symbol_matches ends) (.pure rfl)

/-- The active table of a block is read alike. -/
theorem activeTable_matches :
    (activeTable env).Matches Eq (activeTable (env.endingIn finish)) := by
  refine .peek ends fun next like same => .ite (is_iff same) ?_ (.pure rfl)
  refine .skip (keyword_matches ends) <| .take (name_matches ends) fun table like same => ?_
  rw [text_congr same]
  exact .checked (require_congr ..) fun table => .pure rfl

/-- A block is read alike. -/
theorem block_matches : (block env).Matches Eq (block (env.endingIn finish)) := by
  refine (keyword_matches ends).skip <| .take (name_matches ends) fun name like same => ?_
  rw [text_congr same]
  refine .takeSame (parameters_matches ends) fun parameters => ?_
  refine .bindSame (activeTable_matches ends) fun table => ?_
  refine .takeSame ?_ fun statements => .pure rfl
  cases table with
  | none => exact body_matches ends (statement_matches env.limit)
  | some table =>
    exact @body_matches (env.within table) finish _ _ ends (statement_matches env.limit)

/-- A block of a program is read alike. -/
theorem blockOf_matches {program : String} :
    (blockOf env program).Matches Eq (blockOf (env.endingIn finish) program) := by
  intro source other words
  unfold Consumer.run blockOf
  rw [atDeclaration_congr words]
  split
  · exact lateDeclaration_matches ends source other words
  · have located : ((block env).mapFailure fun failure =>
        { failure with origin := some { source := some program } }).Matches Eq
          ((block (env.endingIn finish)).mapFailure fun failure =>
            { failure with origin := some { source := some program } }) := by
      refine (block_matches ends).mapFailure fun failure failureToo same => ?_
      exact congrArg (fun fault => Failure.mk fault _) (congrArg Failure.fault same)
    exact located source other words

/-- A program is read alike. -/
theorem program_matches : (program env).Matches Eq (program (env.endingIn finish)) := by
  refine .bind (declarations_matches ends) fun first _ ⟨same, ends⟩ => ?_
  subst same
  refine .skip (keyword_matches ends) <| .take (name_matches ends) fun name like same => ?_
  rw [text_congr same]
  refine .skip (symbol_matches ends) ?_
  refine .bind (declarations_matches ends) fun second _ ⟨same, ends⟩ => ?_
  subst same
  refine .bindSame (itemsUntil_matches ends (blockOf_matches ends)) fun blocks => ?_
  have late : (atDeclaration <$> Parser.ahead).Matches Eq (atDeclaration <$> Parser.ahead) :=
    fun _ _ words => .taken (atDeclaration_congr words) words
  refine .skip (symbol_matches ends) <| .bindSame late fun late => ?_
  refine .ite Iff.rfl (.consumer (lateDeclaration_matches ends)) ?_
  exact .bindSame (atEnd_matches ends) fun _ => .pure rfl

end

/-- What is read from a source is read from another one with the same words, and failures are the
same but for their lines. -/
theorem read_congr {α : Type} {settings : Settings} {scope : Scope} {source other : String}
    {parser : Environment → Parser α}
    (matching : ∀ env finish, SameWord env.finish finish →
      (parser env).Matches Eq (parser (env.endingIn finish)))
    (words : (Source.tokens settings source).map Token.word =
      (Source.tokens settings other).map Token.word) :
    (read settings scope source parser).mapError Failure.unplaced =
      (read settings scope other parser).mapError Failure.unplaced := by
  have runs := matching (start settings scope source) (Source.endToken other) rfl
    (Source.tokens settings source) (Source.tokens settings other) words
  unfold read
  rw [Parser.map_value_eq_map_run, Parser.map_value_eq_map_run]
  exact runs.mapError_eq

end Grammar

open Grammar

/-- White space before a token changes neither the kinds and texts of the tokens of a source nor the
program that the source is read as. A source that is no program fails with the same fault, in the
same program, but perhaps on another line, so that the code of the fault is the same. -/
theorem parseProgram_blanks (settings : Settings) (before after blanks : String) (token : Token)
    (member : token ∈ Source.tokens settings (before ++ after))
    (start : token.span.start = Text.byteCount before.toList)
    (white : ∀ c ∈ blanks.toList, Text.isBlank c = true) :
    let source := before ++ after
    let spaced := before ++ blanks ++ after
    (Source.tokens settings spaced ++ [Source.endToken spaced]).map Token.word =
        (Source.tokens settings source ++ [Source.endToken source]).map Token.word ∧
      (parseProgram settings spaced).mapError Failure.unplaced =
        (parseProgram settings source).mapError Failure.unplaced ∧
      (∀ program, parseProgram settings spaced = .ok program ↔
        parseProgram settings source = .ok program) ∧
      ∀ code, (∃ failure, parseProgram settings spaced = .error failure ∧
          failure.fault.code = code) ↔
        ∃ failure, parseProgram settings source = .error failure ∧ failure.fault.code = code := by
  intro source spaced
  have words := Source.map_word_tokens_blanks member start white
  have same : (parseProgram settings spaced).mapError Failure.unplaced =
      (parseProgram settings source).mapError Failure.unplaced :=
    read_congr (fun env finish ends => program_matches ends) words
  refine ⟨by rw [List.map_append, List.map_append, words]; rfl, same, ?_⟩
  generalize parseProgram settings spaced = left, parseProgram settings source = right at same ⊢
  cases left with
  | ok program =>
    cases right with
    | ok _ => simp [Except.ok.inj same]
    | error _ => cases same
  | error failure =>
    cases right with
    | ok _ => cases same
    | error _ => simp [Failure.code_congr (Except.error.inj same)]

/-- Between an operand and an operator there are a comment and a character that starts no token.
White space between these and the operator leaves the program as it is. -/
theorem parseProgram_blanks_after_comment :
    let before := "program p \x7b block m() \x7b return x/* one */&"
    let after := "+1; \x7d \x7d"
    ∃ program, parseProgram {} (before ++ after) = .ok program ∧
      parseProgram {} (before ++ "\n\u2003\t" ++ after) = .ok program := by
  intro before after
  have seen : (parseProgram {} (before ++ after)).toOption.isSome = true := by decide +kernel
  obtain ⟨program, parsed⟩ := Option.isSome_iff_exists.mp seen
  have parsed := ok_of_toOption_eq_some parsed
  refine ⟨program, parsed, ?_⟩
  have member : ⟨.operator, "+", ⟨42, 43, 1, 43⟩⟩ ∈ Source.tokens {} (before ++ after) := by
    decide +kernel
  have white : "\n\u2003\t".toList.all Text.isBlank = true := by decide
  have same := parseProgram_blanks {} before after "\n\u2003\t" _ member (by decide)
    (List.all_eq_true.mp white)
  exact (same.2.2.1 program).mpr parsed

end ContentSpace

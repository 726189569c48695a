import ContentSpace.Proofs.Desugar.Pipeline
import ContentSpace.Proofs.Grammar.Extension.Expression
import ContentSpace.Proofs.Grammar.Height.Program
import ContentSpace.Proofs.Grammar.Limit.Program
import ContentSpace.Proofs.Grammar.Stage.Basic

/-!
# Reading stages

What is an expression by itself is read wherever an expression is expected, if there is enough room:
behind other words, as an argument, and before a further stage. What can be called is read before
its arguments. The room needed is a number for each, whatever the rest of the text is.
-/

namespace ContentSpace

namespace Grammar

variable {settings : Settings} {scope : Scope} {env : Environment} {node : Node}
  {words : List Word} {used more room : Nat} {tokens source rest : List Token}

/-- The environments in which the words of certain settings are read in a certain scope. -/
structure Environment.Serves (env : Environment) (settings : Settings) (scope : Scope) : Prop where
  /-- The tables in scope. -/
  scope : env.scope = scope
  /-- The default tag. -/
  defaultTag : env.defaultTag = settings.defaultTag
  /-- The token for the end is the end. -/
  finish : env.finish.kind = .finish

/-- The start of source text serves, whatever the limit is. -/
theorem start_serves (settings : Settings) (scope : Scope) (maxDepth : Nat) (source : String) :
    (start { settings with maxDepth } scope source).Serves settings scope :=
  ⟨rfl, rfl, rfl⟩

/-- Environments that serve alike differ only in their limits and ends. -/
theorem Environment.Serves.kindred {other : Environment} (serves : env.Serves settings scope)
    (servesToo : other.Serves settings scope) : env.Kindred other where
  scope := servesToo.scope.trans serves.scope.symm
  defaultTag := servesToo.defaultTag.trans serves.defaultTag.symm
  finish := serves.finish

/-- Some words that do not start by closing arguments. -/
def Opens (words : List Word) : Prop :=
  ∃ first others, words = first :: others ∧ first ≠ .symbol ")"

/-- More words do not change how words start. -/
theorem Opens.append (opens : Opens words) (others : List Word) : Opens (words ++ others) := by
  obtain ⟨first, back, rfl, different⟩ := opens
  exact ⟨first, back ++ others, rfl, different⟩

/-- Words are read as a tree wherever no operand goes on after them, with the room they use up. -/
structure Reads (settings : Settings) (scope : Scope) (used : Nat) (node : Node)
    (words : List Word) : Prop where
  /-- The words are some. -/
  opens : Opens words
  /-- Stages go on with the tree. -/
  pipes ⦃env : Environment⦄ : env.Serves settings scope → ∀ ⦃tokens rest : List Token⦄ ⦃room : Nat⦄,
    tokens.map Token.word = words → used ≤ room → (env.peek rest).EndsOperand 1 →
      ∃ left, room ≤ left + used ∧ (level env room).pipeline.run (tokens ++ rest) =
        ((level env left).furtherStages node).run rest

/-- Words are not read as an expression, however much room there is. -/
structure Refuses (settings : Settings) (scope : Scope) (used : Nat) (words : List Word) :
    Prop where
  /-- The words are some. -/
  opens : Opens words
  /-- Nothing is read. -/
  fails ⦃env : Environment⦄ : env.Serves settings scope → ∀ ⦃tokens rest : List Token⦄ ⦃room : Nat⦄,
    tokens.map Token.word = words → used ≤ room → (env.peek rest).EndsOperand 1 →
      ∃ failure, (level env room).pipeline.run (tokens ++ rest) = .error failure

/-- Words are read as what can be called before anything, with the room they use up. -/
structure ReadsCallee (settings : Settings) (scope : Scope) (used : Nat) (node : Node)
    (words : List Word) : Prop where
  /-- The words are some. -/
  opens : Opens words
  /-- The first word calls no store operation. -/
  plain : ∀ first ∈ words.head?, first.callsStore = false
  /-- Indices, fields and arguments go on with the tree. -/
  selects ⦃env : Environment⦄ : env.Serves settings scope →
    ∀ ⦃tokens rest : List Token⦄ ⦃room : Nat⦄, tokens.map Token.word = words → used ≤ room →
      ∃ left, room ≤ left + used ∧ (level env room).operand.run (tokens ++ rest) =
        ((level env left).furtherSelections node).run rest

/-- What uses up some room is read with more. -/
theorem Reads.mono (reads : Reads settings scope used node words) (le : used ≤ more) :
    Reads settings scope more node words where
  opens := reads.opens
  pipes env serves tokens rest room same enough ends := by
    obtain ⟨left, bound, run⟩ := reads.pipes serves same (Nat.le_trans le enough) ends
    exact ⟨left, by omega, run⟩

/-- A word calls a store operation when its token does. -/
theorem storeWord?_eq_none_iff {token : Token} :
    storeWord? token = none ↔ token.word.callsStore = false := by
  unfold storeWord? Word.callsStore
  by_cases kind : token.kind = .keyword <;> simp [Token.word, kind]

/-- What is read up to the end leaves no token. -/
theorem run_eq_of_read {parser : Environment → Consumer Node} {text : String}
    (read : Grammar.read settings scope text (fun env => do
      let node ← parser env
      atEnd env
      return node) = .ok node) :
    (parser (start settings scope text)).run (Source.tokens settings text) = .ok (node, []) := by
  rw [Grammar.read, Parser.map_value_eq_map_run, Parser.run_bind, Parser.run_consumer] at read
  cases taken : (parser (start settings scope text)).run (Source.tokens settings text) with
  | error failure =>
    rw [taken] at read
    cases read
  | ok result =>
    obtain ⟨found, left⟩ := result
    rw [taken, ok_bind] at read
    cases left with
    | nil =>
      cases read
      rfl
    | cons token left => cases read

/-- What can be called starts neither with an operator nor by closing arguments. -/
theorem start_of_run_selection {below : Below} {result : Node × List Token}
    (run : (selection env below).run source = .ok result) :
    ∃ first others, source = first :: others ∧ first.kind ≠ .operator ∧
      first.word ≠ .symbol ")" := by
  cases source with
  | nil => exact absurd run Consumer.run_nil_ne_ok
  | cons first others =>
    refine ⟨first, others, rfl, ?_, ?_⟩
    · obtain ⟨kind, text, span⟩ := first
      rintro rfl
      cases run
    · intro closing
      obtain ⟨span, rfl⟩ := Token.exists_of_word closing
      cases run

/-- A pipeline does not start by closing arguments. -/
theorem opens_of_run_pipeline {result : Node × List Token}
    (run : (level env room).pipeline.run source = .ok result) :
    Opens (source.map Token.word) := by
  cases source with
  | nil => exact absurd run Consumer.run_nil_ne_ok
  | cons first others =>
    refine ⟨first.word, others.map Token.word, rfl, fun closing => ?_⟩
    have kind : first.kind = .symbol := congrArg Word.kind closing
    rw [run_pipeline, run_combination, run_operand_of_kind kind (by decide)] at run
    obtain ⟨_, run, -⟩ := ok_of_bind_eq_ok run
    obtain ⟨_, run, -⟩ := ok_of_bind_eq_ok run
    obtain ⟨_, _, same, -, different⟩ := start_of_run_selection run
    cases same
    exact different closing

/-- The words of an expression are read. -/
theorem exists_reads (expression : IsExpression settings scope words) :
    ∃ used node, Reads settings scope used node words := by
  obtain ⟨text, maxDepth, node, rfl, parsed⟩ := expression
  have run := run_eq_of_read parsed
  rw [Source.tokens_withLimit] at run
  cases maxDepth with
  | zero => cases run
  | succ limit =>
    have here : (start { settings with maxDepth := limit + 1 } scope text).limit = limit + 1 := rfl
    rw [here, run_expression] at run
    refine ⟨limit, node, opens_of_run_pipeline run, ?_⟩
    intro env serves tokens rest room same enough ends
    have kindred := (start_serves settings scope (limit + 1) text).kindred serves
    obtain ⟨margin, rfl⟩ := Nat.exists_eq_add_of_le enough
    obtain ⟨_, rfl, ⟨-, left, bound, goes⟩ | ⟨some, -⟩⟩ :=
      (level_extends kindred margin limit).pipeline _ run same fun _ => ends
    · exact ⟨left, by omega, goes⟩
    · exact absurd rfl some

/-- What can be called is the tree of an expression. -/
theorem selection_ensures_tree (env : Environment) (room : Nat) :
    (selection env (belowOf env room)).Ensures anyToken
      (ExpressionTree (expressionLevels room + room + 2)) := by
  have deepened : (deepen env (belowOf env room)).Ensures anyToken fun level => ∃ less,
      room = less + 1 ∧ expressionLevels room = expressionLevels less + 3 * less + 2 ∧
        level.Bounds less := by
    cases room with
    | zero => exact .fail
    | succ room => exact .pure ⟨room, rfl, rfl, level_bounds env room⟩
  exact selection_bounded deepened

/-- The words of what can be called are read. It is desugared without effect. -/
theorem exists_readsCallee (callee : IsCallee settings scope words) :
    ∃ used node, ReadsCallee settings scope used node words ∧
      ∃ result, Node.desugarWith none node = pure result := by
  obtain ⟨plain, text, maxDepth, node, rfl, read⟩ := callee
  have run := run_eq_of_read read
  rw [Source.tokens_withLimit] at run
  obtain ⟨first, others, source, kind, different⟩ := start_of_run_selection run
  rw [source] at run plain ⊢
  refine ⟨maxDepth, node, ⟨⟨_, _, rfl, different⟩, plain, ?_⟩, ?_⟩
  · intro env serves tokens rest room same enough
    have kindred := (start_serves settings scope maxDepth text).kindred serves
    have calls : storeWord? first = none := storeWord?_eq_none_iff.mpr (plain _ rfl)
    obtain ⟨margin, rfl⟩ := Nat.exists_eq_add_of_le enough
    have goesOn := @level_selection_extendsAt _ _ kindred margin maxDepth (fun _ => True)
      (first :: others) (.inl calls)
    obtain ⟨like, tokens, rfl, known, words⟩ := List.map_eq_cons_iff.mp same
    have kindToo : like.kind = first.kind := congrArg Word.kind known
    obtain ⟨_, rfl, ⟨-, left, bound, goes⟩ | ⟨some, -⟩⟩ := goesOn run same fun _ => trivial
    · refine ⟨left, by omega, ?_⟩
      rw [← goes, List.cons_append, run_operand_of_kind kindToo kind]
    · exact absurd rfl some
  · have passed (token : Token) (_ : token ∈ Source.tokens { settings with maxDepth } text) :
        anyToken token :=
      fun _ => trivial
    have ensures (env : Environment) := selection_ensures_tree env env.limit
    have tree := of_read (.bind (.consumer (ensures _)) fun node tree =>
      .bind atEnd_ensures fun _ _ => .pure tree) passed read
    exact tree.exists_desugarWith_eq_pure none

/-- The word of a name without a dot is read. -/
theorem readsCallee_name {name : String} (dotless : '.' ∉ name.toList) :
    ReadsCallee settings scope 0 (.var name) [.identifier name] where
  opens := ⟨_, [], rfl, nofun⟩
  plain first member := by
    obtain rfl := Option.mem_some.mp member
    rfl
  selects env serves tokens rest room same _ := by
    obtain ⟨token, tokens, rfl, known, same⟩ := List.map_eq_cons_iff.mp same
    obtain rfl : tokens = [] := List.map_eq_nil_iff.mp same
    exact ⟨room, Nat.le_refl _, run_operand_name known dotless⟩

end Grammar

end ContentSpace

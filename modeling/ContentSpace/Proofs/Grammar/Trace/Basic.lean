import ContentSpace.Proofs.Grammar.Run
import ContentSpace.Proofs.Source.Word
import Mathlib.Data.List.Chain

/-!
# What parsers take and what they blame

What a parser takes is the front of its tokens. Outside the declarations of a program no two tokens
in a row that are taken start a declaration: a parser that reads the second of them refuses, so no
parser takes it after the first one, whatever comes before. When a parser fails, the fault names a
token of the source together with its line.

Each way to build a parser from smaller ones has a rule here, so that both follow the grammar.
-/

namespace ContentSpace

/-- A fault names a token that passes a test, with its line: a problem names the text of a token, as
it is or as messages describe it, and a table or a parameter is the text of an identifier. -/
inductive Fault.PointsAt (known : Token → Prop) : Fault → Prop where
  /-- A problem with a token, which messages describe. -/
  | described {problem : SyntaxProblem} {token : Token} :
      known token → PointsAt known (.syntaxError problem token.describe token.line)
  /-- A problem with the text of a token. -/
  | spelled {problem : SyntaxProblem} {token : Token} :
      known token → PointsAt known (.syntaxError problem token.text token.line)
  /-- A second declaration or scope. -/
  | duplicateTable {token : Token} : known token → token.kind = .identifier →
      PointsAt known (.duplicateTable token.text token.line)
  /-- A use of a table. -/
  | undeclaredTable {token : Token} : known token → token.kind = .identifier →
      PointsAt known (.undeclaredTable token.text token.line)
  /-- An operation without a table. -/
  | noActiveTable {operation : String} {token : Token} :
      known token → PointsAt known (.noActiveTable operation token.line)
  /-- A declaration that comes too late. -/
  | lateTable {token : Token} : known token → token.kind = .identifier →
      PointsAt known (.lateTable token.text token.line)
  /-- A second parameter. -/
  | duplicateParameter {block : String} {token : Token} : known token → token.kind = .identifier →
      PointsAt known (.duplicateParameter block token.text token.line)

/-- A fault that points at a token has one of six codes. -/
theorem Fault.PointsAt.code_mem {known : Token → Prop} {fault : Fault}
    (points : fault.PointsAt known) :
    fault.code ∈ ["E_SYNTAX", "E_LS_DUPLICATE_ALIAS", "E_LS_UNDECLARED_TABLE",
      "E_LS_MISSING_ACTIVE_TABLE", "E_LS_ORDERING", "E_PARAM_DUPLICATE"] := by
  cases points <;> simp [code]

/-- A fault that points at a token has its line. -/
theorem Fault.PointsAt.exists_line {known : Token → Prop} {fault : Fault}
    (points : fault.PointsAt known) : ∃ token, known token ∧ fault.line? = some token.line := by
  cases points <;> exact ⟨_, ‹_›, rfl⟩

/-- A failure that names no source and whose fault points at a token. -/
def Failure.PointsAt (known : Token → Prop) (failure : Failure) : Prop :=
  failure.origin = none ∧ failure.fault.PointsAt known

namespace Grammar

/-- Two tokens in a row do not start the declaration of a table. -/
def Unpaired (first second : Token) : Prop :=
  ¬ (first.isKeyword "latent" = true ∧ second.isKeyword "table" = true)

/-- No declaration starts among tokens, nor at a token before them that passes a test. -/
def Quiet (prior : Token → Prop) (tokens : List Token) : Prop :=
  ∀ token, prior token → (token :: tokens).IsChain Unpaired

/-- Every token. -/
def afterAny (_ : Token) : Prop := True

/-- Every symbol. -/
def afterSymbol (token : Token) : Prop := token.kind = .symbol

/-- No token. What stands after it may contain declarations. -/
def afterNone (_ : Token) : Prop := False

/-- Only a keyword can be the second token of a declaration. -/
theorem unpaired_of_kind {first second : Token} (other : second.kind ≠ .keyword) :
    Unpaired first second := by
  rintro ⟨-, table⟩
  exact other (Token.kind_of_is table)

/-- Only a certain keyword can be the second token of a declaration. -/
theorem unpaired_of_isKeyword {first second : Token} {word : String}
    (known : second.isKeyword word = true) (other : word ≠ "table") : Unpaired first second := by
  rintro ⟨-, table⟩
  exact other ((Token.text_of_is known).symm.trans (Token.text_of_is table))

/-- Only a keyword can be the first token of a declaration. -/
theorem unpaired_of_symbol {first second : Token} (symbol : first.kind = .symbol) :
    Unpaired first second := by
  rintro ⟨latent, -⟩
  have keyword := symbol.symm.trans (Token.kind_of_is latent)
  cases keyword

namespace Quiet

variable {prior other : Token → Prop} {tokens more : List Token} {token : Token}

/-- No declaration starts among no tokens. -/
theorem nil : Quiet prior [] := fun token _ => .singleton token

/-- A single token that starts no declaration with one before it. -/
theorem singleton (unpaired : ∀ first, prior first → Unpaired first token) :
    Quiet prior [token] :=
  fun first passed => List.isChain_pair.mpr (unpaired first passed)

/-- Fewer tokens may stand before. -/
theorem weaken (quiet : Quiet prior tokens) (fewer : ∀ token, other token → prior token) :
    Quiet other tokens :=
  fun token passed => quiet token (fewer token passed)

/-- Tokens in a row, where the later ones stand after any token. -/
theorem append (quiet : Quiet prior tokens) (quietToo : Quiet afterAny more) :
    Quiet prior (tokens ++ more) := by
  intro token passed
  rw [← List.cons_append, List.isChain_append]
  refine ⟨quiet token passed, (quietToo token trivial).tail, fun last _ next first => ?_⟩
  exact (List.isChain_cons.mp (quietToo last trivial)).1 next first

/-- A token in front of others, which may stand after it. -/
theorem cons (unpaired : ∀ first, prior first → Unpaired first token) (passed : other token)
    (quiet : Quiet other tokens) : Quiet prior (token :: tokens) :=
  fun first member => List.isChain_cons_cons.mpr ⟨unpaired first member, quiet token passed⟩

end Quiet

variable {α β : Type} {known prior : Token → Prop} {property : α → Prop} {later : β → Prop}
  {env : Environment} {source : List Token}

/-- A run took the front of its tokens, which suits what it gives, or it failed in a way that is
foreseen. -/
def Outcome (blamed : Failure → Prop) (took : α → List Token → Prop) (source : List Token) :
    Except Failure (α × List Token) → Prop
  | .ok (value, rest) => ∃ taken, source = taken ++ rest ∧ took value taken
  | .error failure => blamed failure

namespace Outcome

variable {blamed : Failure → Prop} {took : α → List Token → Prop} {tookToo : β → List Token → Prop}

/-- One run after another. -/
theorem bind {first : Except Failure (α × List Token)}
    {next : α × List Token → Except Failure (β × List Token)}
    (outcome : Outcome blamed took source first)
    (outcomeToo : ∀ value taken rest, source = taken ++ rest → first = .ok (value, rest) →
      took value taken →
      Outcome blamed (fun result more => tookToo result (taken ++ more)) rest
        (next (value, rest))) :
    Outcome blamed tookToo source (first >>= next) := by
  match first, outcome with
  | .error failure, failed => exact failed
  | .ok (value, rest), ⟨taken, split, suits⟩ =>
    have outcome := outcomeToo value taken rest split rfl suits
    rw [ok_bind]
    match next (value, rest), outcome with
    | .error failure, failed => exact failed
    | .ok (result, last), ⟨more, splitToo, suits⟩ =>
      exact ⟨taken ++ more, by rw [split, splitToo, List.append_assoc], suits⟩

/-- More can be foreseen. -/
theorem mono {blamedToo : Failure → Prop} {suiting : α → List Token → Prop}
    {run : Except Failure (α × List Token)} (outcome : Outcome blamed took source run)
    (foreseen : ∀ failure, blamed failure → blamedToo failure)
    (suits : ∀ value taken, took value taken → suiting value taken) :
    Outcome blamedToo suiting source run := by
  match run, outcome with
  | .error failure, failed => exact foreseen failure failed
  | .ok (value, rest), ⟨taken, split, holds⟩ => exact ⟨taken, split, suits value taken holds⟩

/-- A run that gives something without taking anything. -/
theorem pure {value : α} (suits : took value []) :
    Outcome blamed took source (.ok (value, source)) :=
  ⟨[], rfl, suits⟩

end Outcome

/-- No declaration starts among what a run took, and its result has a property; or the run failed at
a token. -/
def Traced (known prior : Token → Prop) (property : α → Prop) :
    List Token → Except Failure (α × List Token) → Prop :=
  Outcome (Failure.PointsAt known) fun value taken => property value ∧ Quiet prior taken

/-- All runs of a parser on known tokens are traced. -/
def Parser.Traces (known : Token → Prop) (parser : Parser α) (property : α → Prop) : Prop :=
  ∀ ⦃source : List Token⦄, (∀ token ∈ source, known token) →
    Traced known afterAny property source (parser.run source)

/-- All runs of a consumer on known tokens, after a token that passes a test, are traced. -/
def Consumer.Traces (known prior : Token → Prop) (consumer : Consumer α) (property : α → Prop) :
    Prop :=
  ∀ ⦃source : List Token⦄, (∀ token ∈ source, known token) →
    Traced known prior property source (consumer.run source)

namespace Traced

/-- A run that gives something without taking anything. -/
theorem pure {value : α} (holds : property value) :
    Traced known prior property source (.ok (value, source)) :=
  Outcome.pure ⟨holds, .nil⟩

/-- A run that fails at a token. -/
theorem error {fault : Fault} (points : fault.PointsAt known) :
    Traced known prior property source (.error { fault }) :=
  ⟨rfl, points⟩

/-- One run after another. -/
theorem bind {first : Except Failure (α × List Token)}
    {next : α × List Token → Except Failure (β × List Token)}
    (passed : ∀ token ∈ source, known token) (traced : Traced known prior property source first)
    (tracedToo : ∀ value rest, property value → (∀ token ∈ rest, known token) →
      first = .ok (value, rest) → Traced known afterAny later rest (next (value, rest))) :
    Traced known prior later source (first >>= next) := by
  refine Outcome.bind traced fun value taken rest split ran ⟨holds, quiet⟩ => ?_
  have passed := (List.forall_mem_append.mp (split ▸ passed)).2
  refine (tracedToo value rest holds passed ran).mono (fun _ => id) ?_
  exact fun result more ⟨holds, quietToo⟩ => ⟨holds, quiet.append quietToo⟩

/-- The result of a run has every weaker property, and fewer tokens may stand before. -/
theorem weaken {weaker : α → Prop} {fewer : Token → Prop}
    {run : Except Failure (α × List Token)} (traced : Traced known prior property source run)
    (implies : ∀ value, property value → weaker value)
    (stands : ∀ token, fewer token → prior token) : Traced known fewer weaker source run :=
  Outcome.mono traced (fun _ => id) fun value _ ⟨holds, quiet⟩ =>
    ⟨implies value holds, quiet.weaken stands⟩

/-- A run that never succeeds is traced after all tokens. -/
theorem of_never {run : Except Failure (α × List Token)}
    (traced : Traced known afterNone (fun _ => False) source run) :
    Traced known prior property source run :=
  Outcome.mono traced (fun _ => id) fun _ _ never => never.1.elim

end Traced

namespace Parser

/-- What is given without taking anything. -/
theorem Traces.pure {value : α} (holds : property value) :
    Traces known (Pure.pure value) property :=
  fun _ _ => .pure holds

/-- One parser after another. -/
theorem Traces.bind {parser : Parser α} {next : α → Parser β} (first : parser.Traces known property)
    (second : ∀ value, property value → (next value).Traces known later) :
    Traces known (parser >>= next) later := by
  intro source passed
  rw [run_bind]
  exact .bind passed (first passed) fun value rest holds passed _ => second value holds passed

/-- A refusal that points at a token. -/
theorem Traces.refuse {fault : Fault} (points : fault.PointsAt known) :
    Traces known (Parser.refuse fault : Parser α) property :=
  fun _ _ => .error points

/-- A check that points at a token if it fails. -/
theorem Traces.check {result : Except Fault α}
    (holds : ∀ value, result = .ok value → property value)
    (points : ∀ fault, result = .error fault → fault.PointsAt known) :
    Traces known (liftM result : Parser α) property := by
  intro source _
  rw [run_check]
  cases result with
  | error fault => exact .error (points fault rfl)
  | ok value => exact .pure (holds value rfl)

/-- A consumer as a parser. -/
theorem Traces.consumer {consumer : Consumer α}
    (traces : consumer.Traces known afterAny property) :
    Traces known (liftM consumer : Parser α) property := by
  intro source passed
  rw [run_consumer]
  exact traces passed

/-- A consumer whose result does not matter, and what follows it. -/
theorem Traces.skip {consumer : Consumer α} {next : α → Parser β}
    (first : consumer.Traces known afterAny property)
    (second : ∀ value, (next value).Traces known later) :
    Traces known (liftM consumer >>= next) later :=
  .bind (.consumer first) fun value _ => second value

/-- The next token is known: it is one of the tokens, or the end of the source. -/
theorem known_peek (finish : known env.finish) (passed : ∀ token ∈ source, known token) :
    known (env.peek source) := by
  cases source with
  | nil => exact finish
  | cons next rest => exact passed next (List.mem_cons_self ..)

/-- A choice between two parsers. -/
theorem Traces.ite {condition : Prop} [Decidable condition] {yes no : Parser α}
    (first : yes.Traces known property) (second : no.Traces known property) :
    (if condition then yes else no).Traces known property := by
  split
  · exact first
  · exact second

/-- A choice after a look at the next token, which is known. -/
theorem Traces.peek {next : Token → Parser β} (finish : known env.finish)
    (second : ∀ token, known token → (next token).Traces known later) :
    Traces known (Parser.next env >>= next) later := by
  intro source passed
  rw [run_bind, run_next, ok_bind]
  exact second _ (known_peek finish passed) passed

/-- A run of a parser is traced after some tokens when it is after all. -/
theorem Traces.at {parser : Parser α} (traces : parser.Traces known property)
    (passed : ∀ token ∈ source, known token) :
    Traced known prior property source (parser.run source) :=
  (traces passed).weaken (fun _ => id) fun _ _ => trivial

/-- A failure points at the next token. -/
theorem Traces.fail {problem : SyntaxProblem} (finish : known env.finish) :
    Traces known (Parser.fail env problem : Parser α) property :=
  fun _ passed => .error (.described (known_peek finish passed))

end Parser

namespace Consumer

variable {consumer : Consumer α}

/-- The result has every weaker property, and fewer tokens may stand before. -/
theorem Traces.weaken {weaker : α → Prop} {fewer : Token → Prop}
    (traces : consumer.Traces known prior property)
    (implies : ∀ value, property value → weaker value)
    (stands : ∀ token, fewer token → prior token) : consumer.Traces known fewer weaker :=
  fun _ passed => (traces passed).weaken implies stands

/-- A choice between two consumers. -/
theorem Traces.ite {condition : Prop} [Decidable condition] {no : Consumer α}
    (first : consumer.Traces known prior property) (second : no.Traces known prior property) :
    (if condition then consumer else no).Traces known prior property := by
  split
  · exact first
  · exact second

/-- What the next token selects. -/
theorem Traces.ahead {select : Token → Consumer α}
    (each : ∀ token, (select token).Traces known prior property) :
    (Consumer.ahead env select).Traces known prior property :=
  fun _ passed => each _ passed

/-- Only some of all tokens stand before. -/
theorem Traces.after (traces : consumer.Traces known afterAny property) :
    consumer.Traces known prior property :=
  traces.weaken (fun _ => id) fun _ _ => trivial

/-- A parser after a consumer. -/
theorem Traces.andThen {next : α → Parser β} (first : consumer.Traces known prior property)
    (second : ∀ value, property value → (next value).Traces known later) :
    (consumer.andThen next).Traces known prior later := by
  intro source passed
  rw [run_andThen]
  exact .bind passed (first passed) fun value rest holds passed _ => second value holds passed

/-- A consumer after a parser. -/
theorem Traces.before {parser : Parser α} {next : α → Consumer β}
    (first : parser.Traces known property)
    (second : ∀ value, property value → (next value).Traces known afterAny later) :
    (parser.before next).Traces known afterAny later := by
  intro source passed
  rw [run_before]
  exact .bind passed (first passed) fun value rest holds passed _ => second value holds passed

/-- A failure points at the next token. -/
theorem Traces.fail {problem : SyntaxProblem} (finish : known env.finish) :
    (Consumer.fail env problem : Consumer α).Traces known prior property :=
  fun _ passed => .error (.described (Parser.known_peek finish passed))

/-- What is taken is the same when its tokens are counted. -/
theorem Traces.counted (traces : consumer.Traces known prior property) :
    consumer.counted.Traces known prior fun taken => property taken.1 := by
  intro source passed
  rw [run_counted]
  match consumer.run source, traces passed with
  | .error failure, failed => exact failed
  | .ok (value, rest), traced => exact traced

end Consumer

section

variable (finish : known env.finish)
include finish

/-- The next token is taken if it is the one asked for. -/
theorem outcome_token {asked : Token → Bool} {problem : SyntaxProblem}
    (passed : ∀ token ∈ source, known token) :
    Outcome (Failure.PointsAt known)
      (fun found taken => taken = [found] ∧ found = env.peek source ∧ asked found = true) source
      ((token env asked problem).run source) := by
  cases source with
  | nil => exact ⟨rfl, .described finish⟩
  | cons next rest =>
    rw [run_token_cons]
    split
    case isTrue fits => exact ⟨[next], rfl, rfl, rfl, fits⟩
    case isFalse => exact ⟨rfl, .described (passed next (List.mem_cons_self ..))⟩

/-- What follows the next token, if that is the one asked for. -/
theorem Outcome.token {asked : Token → Bool} {problem : SyntaxProblem}
    {next : Token × List Token → Except Failure (β × List Token)} {took : β → List Token → Prop}
    (passed : ∀ token ∈ source, known token)
    (outcome : ∀ found rest, source = found :: rest → known found →
      (∀ token ∈ rest, known token) → asked found = true →
      Outcome (Failure.PointsAt known) (fun result more => took result (found :: more)) rest
        (next (found, rest))) :
    Outcome (Failure.PointsAt known) took source
      ((Grammar.token env asked problem).run source >>= next) := by
  refine (outcome_token finish passed).bind fun found taken rest split _ ⟨single, _, fits⟩ => ?_
  subst single split
  obtain ⟨here, passed⟩ := List.forall_mem_cons.mp passed
  exact outcome found rest rfl here passed fits

/-- A token that is asked for is known, if it starts no declaration with the token before it. -/
theorem traced_token {asked : Token → Bool} {problem : SyntaxProblem}
    (passed : ∀ token ∈ source, known token)
    (unpaired : ∀ first, prior first → asked (env.peek source) = true →
      Unpaired first (env.peek source)) :
    Traced known prior (fun found => known found ∧ asked found = true) source
      ((token env asked problem).run source) := by
  refine (outcome_token finish passed).mono (fun _ => id) fun found taken ⟨single, next, fits⟩ => ?_
  subst single next
  refine ⟨⟨Parser.known_peek finish passed, fits⟩, .singleton fun first stands => ?_⟩
  exact unpaired first stands fits

/-- Tokens that are asked for are known, if they start no declaration with the token before. -/
theorem token_traces {asked : Token → Bool} {problem : SyntaxProblem}
    (unpaired : ∀ first second, prior first → asked second = true → Unpaired first second) :
    (token env asked problem).Traces known prior fun found => known found ∧ asked found = true :=
  fun _ passed => traced_token finish passed fun first => unpaired first _

/-- A token of a kind other than keywords is known. -/
theorem ofKind_traces {kind : TokenKind} {problem : SyntaxProblem} (other : kind ≠ .keyword) :
    (ofKind env kind problem).Traces known prior
      fun found => known found ∧ found.kind = kind := by
  refine (token_traces finish fun first second _ asked => ?_).weaken ?_ fun _ => id
  · exact unpaired_of_kind (by rwa [eq_of_beq asked])
  · exact fun found ⟨here, asked⟩ => ⟨here, eq_of_beq asked⟩

/-- A symbol is taken. -/
theorem symbol_traces {word : String} :
    (symbol env word).Traces known prior fun found => known found ∧ found.kind = .symbol := by
  refine (token_traces finish fun first second _ asked => ?_).weaken ?_ fun _ => id
  · exact unpaired_of_kind (by rw [Token.kind_of_is asked]; nofun)
  · exact fun found ⟨here, asked⟩ => ⟨here, Token.kind_of_is asked⟩

/-- An operator is taken. -/
theorem operator_traces {word : String} : (operator env word).Traces known prior known := by
  refine (token_traces finish fun first second _ asked => ?_).weaken (fun _ => And.left) fun _ => id
  exact unpaired_of_kind (by rw [Token.kind_of_is asked]; nofun)

/-- A keyword is taken that is not the second of a declaration. -/
theorem keyword_traces {word : String} (other : word ≠ "table") :
    (keyword env word).Traces known prior known :=
  (token_traces finish fun _ _ _ asked => unpaired_of_isKeyword asked other).weaken
    (fun _ => And.left) fun _ => id

/-- After a symbol, a token of any kind is known. -/
theorem ofKind_traces_afterSymbol {kind : TokenKind} {problem : SyntaxProblem} :
    (ofKind env kind problem).Traces known afterSymbol
      fun found => known found ∧ found.kind = kind :=
  (token_traces finish fun _ _ symbol _ => unpaired_of_symbol symbol).weaken
    (fun _ ⟨here, asked⟩ => ⟨here, eq_of_beq asked⟩) fun _ => id

/-- A name is a known identifier. -/
theorem name_traces :
    (name env).Traces known prior fun found => known found ∧ found.kind = .identifier :=
  ofKind_traces finish nofun

/-- A run that is traced after symbols, after a symbol that is taken. -/
theorem Traced.symbol {word : String} {next : Token × List Token → Except Failure (β × List Token)}
    (passed : ∀ token ∈ source, known token)
    (traced : ∀ found rest, (∀ token ∈ rest, known token) → rest.length < source.length →
      Traced known afterSymbol later rest (next (found, rest))) :
    Traced known prior later source ((Grammar.symbol env word).run source >>= next) := by
  refine Outcome.token finish passed fun found rest split _ passed fits => ?_
  have shorter : rest.length < source.length := by simp [split]
  have kind : found.kind = .symbol := Token.kind_of_is fits
  refine (traced found rest passed shorter).mono (fun _ => id) ?_
  refine fun result more ⟨holds, quiet⟩ => ⟨holds, .cons (fun first _ => ?_) kind quiet⟩
  exact unpaired_of_kind (by rw [kind]; nofun)

/-- A symbol, and a parser whose runs are traced after symbols. -/
theorem Parser.Traces.symbol {word : String} {next : Token → Parser β}
    (traced : ∀ found ⦃rest⦄, (∀ token ∈ rest, known token) →
      Traced known afterSymbol later rest ((next found).run rest)) :
    Parser.Traces known (liftM (Grammar.symbol env word) >>= next) later := by
  intro source passed
  rw [Parser.run_bind, Parser.run_consumer]
  exact Traced.symbol finish passed fun found rest passed _ => traced found passed

variable {item : Consumer α} (each : item.Traces known afterSymbol property)
include each

/-- Further items are traced when one is after a symbol. -/
theorem furtherItems_traces :
    (furtherItems env item).Traces known fun items => ∀ found ∈ items, property found := by
  intro source passed
  induction size : source.length using Nat.strongRecOn generalizing source with
  | ind size ih =>
    rw [run_furtherItems]
    split
    · refine Traced.symbol finish passed fun comma more passed shorter => ?_
      refine .bind passed (each passed) fun first rest here passed ran => ?_
      have fewer : rest.length < more.length := Consumer.length_of_run ran
      refine .bind passed (ih _ (by omega) passed rfl) fun others last further _ _ => ?_
      exact .pure (List.forall_mem_cons.mpr ⟨here, further⟩)
    · exact .pure (by simp)

/-- Delimited items are traced when one is after a symbol. -/
theorem delimited_traces {start stop : String} :
    (delimited env start stop item).Traces known prior
      fun items => ∀ found ∈ items, property found := by
  intro source passed
  rw [delimited, Consumer.run_andThen]
  refine Traced.symbol finish passed fun opening rest passed _ => ?_
  rw [Parser.run_bind, Parser.run_next, ok_bind]
  dsimp only
  split
  · have closed : Parser.Traces known (do let _ ← symbol env stop; return ([] : List α))
        fun items => ∀ found ∈ items, property found :=
      .skip (symbol_traces finish) fun _ => .pure (by simp)
    exact closed.at passed
  · rw [Parser.run_bind, Parser.run_consumer]
    refine .bind passed (each passed) fun first rest here passed _ => ?_
    have closed : Parser.Traces known (do
        let others ← furtherItems env item
        let _ ← symbol env stop
        return first :: others) fun items => ∀ found ∈ items, property found :=
      .bind (furtherItems_traces finish each) fun others further =>
        .skip (symbol_traces finish) fun _ => .pure (List.forall_mem_cons.mpr ⟨here, further⟩)
    exact closed passed

omit finish each in
/-- Items up to a symbol are traced when one is. -/
theorem itemsUntil_traces {stop : String} (always : item.Traces known afterAny property) :
    (itemsUntil env stop item).Traces known fun items => ∀ found ∈ items, property found := by
  intro source passed
  induction size : source.length using Nat.strongRecOn generalizing source with
  | ind size ih =>
    rw [run_itemsUntil]
    split
    · exact .pure (by simp)
    · refine .bind passed (always passed) fun first rest here passed ran => ?_
      have fewer := Consumer.length_of_run ran
      refine .bind passed (ih _ (by omega) passed rfl) fun others last further _ _ => ?_
      exact .pure (List.forall_mem_cons.mpr ⟨here, further⟩)

end

end Grammar

end ContentSpace

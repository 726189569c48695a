import ContentSpace.Grammar.Parser

/-!
# What parsers ensure

A parser ensures a property when everything it takes from tokens that pass a test has the property
and the tokens it leaves pass the test as well. Each way to build a parser from smaller ones has a
rule here, so that a property of what a grammar builds follows the grammar.
-/

namespace ContentSpace.Grammar

variable {α β : Type} {test : Token → Prop} {env : Environment}

/-- What is taken from tokens that pass a test has a property, and the tokens left pass the test. -/
def Parser.Ensures (test : Token → Prop) (parser : Parser α) (property : α → Prop) : Prop :=
  ∀ ⦃source : List Token⦄ ⦃parsed : Parsed α source⦄, (∀ token ∈ source, test token) →
    parser source = .ok parsed → property parsed.value ∧ ∀ token ∈ parsed.rest, test token

/-- What is taken from tokens that pass a test has a property, and the tokens left pass the test. -/
def Consumer.Ensures (test : Token → Prop) (consumer : Consumer α) (property : α → Prop) : Prop :=
  ∀ ⦃source : List Token⦄ ⦃consumed : Consumed α source⦄, (∀ token ∈ source, test token) →
    consumer source = .ok consumed → property consumed.value ∧ ∀ token ∈ consumed.rest, test token

/-- What a succeeding composition is made of. -/
theorem ok_of_bind_eq_ok {ε : Type} {first : Except ε α} {next : α → Except ε β} {result : β}
    (run : (first >>= next) = .ok result) :
    ∃ value, first = .ok value ∧ next value = .ok result := by
  cases first with
  | error failure => cases run
  | ok value => exact ⟨value, rfl, run⟩

/-- What succeeds with its failures changed succeeds without. -/
theorem ok_of_mapError_eq_ok {ε δ : Type} {change : ε → δ} {first : Except ε α} {result : α}
    (run : first.mapError change = .ok result) : first = .ok result := by
  cases first with
  | error failure => cases run
  | ok value =>
    cases run
    rfl

/-- What is there without the failure succeeds. -/
theorem ok_of_toOption_eq_some {ε : Type} {first : Except ε α} {result : α}
    (found : first.toOption = some result) : first = .ok result := by
  cases first with
  | error failure => cases found
  | ok value =>
    cases found
    rfl

namespace Parser

variable {parser : Parser α} {property : α → Prop} {later : β → Prop}

/-- What is given without taking anything. -/
theorem Ensures.pure {value : α} (holds : property value) :
    Ensures test (Pure.pure value) property := by
  intro source parsed passed run
  cases run
  exact ⟨holds, passed⟩

/-- One parser after another. -/
theorem Ensures.bind {next : α → Parser β} (first : parser.Ensures test property)
    (second : ∀ value, property value → (next value).Ensures test later) :
    Ensures test (parser >>= next) later := by
  intro source parsed passed run
  obtain ⟨left, runLeft, run⟩ := ok_of_bind_eq_ok run
  obtain ⟨right, runRight, run⟩ := ok_of_bind_eq_ok run
  cases run
  obtain ⟨holds, middle⟩ := first passed runLeft
  have after := second left.value holds middle runRight
  exact after

/-- A refusal ensures everything. -/
theorem Ensures.refuse {fault : Fault} : Ensures test (Parser.refuse fault : Parser α) property :=
  fun _ _ _ run => nomatch run

/-- A failure ensures everything. -/
theorem Ensures.fail {problem : SyntaxProblem} :
    Ensures test (Parser.fail env problem : Parser α) property :=
  fun _ _ _ run => nomatch run

/-- Nothing is asked of tokens and nothing is ensured. -/
theorem Ensures.nothing : parser.Ensures (fun _ => True) fun _ => True :=
  fun _ _ _ _ => ⟨trivial, fun _ _ => trivial⟩

/-- What passed a check. -/
theorem Ensures.check {result : Except Fault α}
    (holds : ∀ value, result = .ok value → property value) :
    Ensures test (liftM result : Parser α) property := by
  intro source parsed passed run
  cases result with
  | error fault => cases run
  | ok value =>
    cases run
    exact ⟨holds value rfl, passed⟩

/-- The next token is told and not taken. -/
theorem Ensures.next : Ensures test (Parser.next env) fun _ => True := by
  intro source parsed passed run
  cases run
  exact ⟨trivial, passed⟩

/-- The tokens ahead are told and not taken. -/
theorem Ensures.ahead : Ensures test Parser.ahead fun _ => True := by
  intro source parsed passed run
  cases run
  exact ⟨trivial, passed⟩

/-- A consumer as a parser. -/
theorem Ensures.consumer {consumer : Consumer α} (ensures : consumer.Ensures test property) :
    Ensures test (liftM consumer : Parser α) property := by
  intro source parsed passed run
  obtain ⟨taken, runTaken, run⟩ := ok_of_bind_eq_ok run
  cases run
  exact ensures passed runTaken

/-- A consumer whose result does not matter, and what follows it. -/
theorem Ensures.skip {consumer : Consumer α} {next : α → Parser β}
    (first : consumer.Ensures test fun _ => True)
    (second : ∀ value, (next value).Ensures test later) :
    Ensures test (liftM consumer >>= next) later :=
  .bind (.consumer first) fun value _ => second value

/-- A choice after a look at the next token. -/
theorem Ensures.peek {next : Token → Parser β} (second : ∀ token, (next token).Ensures test later) :
    Ensures test (Parser.next env >>= next) later :=
  .bind .next fun token _ => second token

end Parser

namespace Consumer

variable {consumer : Consumer α} {property weaker : α → Prop} {later : β → Prop}

/-- What is taken has every weaker property. -/
theorem Ensures.weaken (ensures : consumer.Ensures test property)
    (implies : ∀ value, property value → weaker value) : consumer.Ensures test weaker :=
  fun _ _ passed run =>
    have ⟨holds, rest⟩ := ensures passed run
    ⟨implies _ holds, rest⟩

/-- What is taken, without a property. -/
theorem Ensures.any (ensures : consumer.Ensures test property) :
    consumer.Ensures test fun _ => True :=
  ensures.weaken fun _ _ => trivial

/-- Nothing is asked of tokens and nothing is ensured. -/
theorem Ensures.nothing : consumer.Ensures (fun _ => True) fun _ => True :=
  fun _ _ _ _ => ⟨trivial, fun _ _ => trivial⟩

/-- A parser after a consumer. -/
theorem Ensures.andThen {next : α → Parser β} (first : consumer.Ensures test property)
    (second : ∀ value, property value → (next value).Ensures test later) :
    (consumer.andThen next).Ensures test later := by
  intro source consumed passed run
  obtain ⟨left, runLeft, run⟩ := ok_of_bind_eq_ok run
  obtain ⟨right, runRight, run⟩ := ok_of_bind_eq_ok run
  cases run
  obtain ⟨holds, middle⟩ := first passed runLeft
  have after := second left.value holds middle runRight
  exact after

/-- A consumer after a parser. -/
theorem Ensures.before {parser : Parser α} {next : α → Consumer β}
    (first : parser.Ensures test property)
    (second : ∀ value, property value → (next value).Ensures test later) :
    (parser.before next).Ensures test later := by
  intro source consumed passed run
  obtain ⟨left, runLeft, run⟩ := ok_of_bind_eq_ok run
  obtain ⟨right, runRight, run⟩ := ok_of_bind_eq_ok run
  cases run
  obtain ⟨holds, middle⟩ := first passed runLeft
  have after := second left.value holds middle runRight
  exact after

/-- What the next token selects. -/
theorem Ensures.ahead {select : Token → Consumer α}
    (each : ∀ token, (select token).Ensures test property) :
    (Consumer.ahead env select).Ensures test property :=
  fun _ _ passed run => each _ passed run

/-- A failure ensures everything. -/
theorem Ensures.fail {problem : SyntaxProblem} :
    Ensures test (Consumer.fail env problem : Consumer α) property :=
  fun _ _ _ run => nomatch run

/-- What is taken is the same when its tokens are counted. -/
theorem Ensures.counted (ensures : consumer.Ensures test property) :
    consumer.counted.Ensures test fun taken => property taken.1 := by
  intro source consumed passed run
  obtain ⟨taken, runTaken, run⟩ := ok_of_bind_eq_ok run
  cases run
  exact ensures passed runTaken

/-- What is taken is the same when failures are changed. -/
theorem Ensures.mapFailure {change : Failure → Failure} (ensures : consumer.Ensures test property) :
    (consumer.mapFailure change).Ensures test property := by
  intro source consumed passed run
  exact ensures passed (ok_of_mapError_eq_ok run)

end Consumer

/-- A token that was taken passes the test and was the one asked for. -/
theorem token_ensures {asked : Token → Bool} {problem : SyntaxProblem} :
    (token env asked problem).Ensures test fun found => test found ∧ asked found = true := by
  intro source consumed passed run
  cases source with
  | nil => cases run
  | cons next rest =>
    cases fits : asked next with
    | false => simp [token, fits] at run
    | true =>
      simp only [token, fits, if_true, Except.ok.injEq] at run
      subst run
      rw [List.forall_mem_cons] at passed
      exact ⟨⟨passed.1, fits⟩, passed.2⟩

/-- A token of a certain kind passes the test. -/
theorem ofKind_ensures {kind : TokenKind} {problem : SyntaxProblem} :
    (ofKind env kind problem).Ensures test fun found => test found ∧ found.kind = kind :=
  token_ensures.weaken fun _ ⟨passed, asked⟩ => ⟨passed, by simpa using asked⟩

/-- A symbol is taken. -/
theorem symbol_ensures {word : String} : (symbol env word).Ensures test fun _ => True :=
  token_ensures.any

/-- A keyword is taken. -/
theorem keyword_ensures {word : String} : (keyword env word).Ensures test fun _ => True :=
  token_ensures.any

/-- An operator is taken. -/
theorem operator_ensures {word : String} : (operator env word).Ensures test fun _ => True :=
  token_ensures.any

/-- A name is an identifier that passes the test. -/
theorem name_ensures :
    (name env).Ensures test fun found => test found ∧ found.kind = .identifier :=
  ofKind_ensures

/-- The end of the source is told and not taken. -/
theorem atEnd_ensures : (atEnd env).Ensures test fun _ => True := by
  intro source parsed passed run
  unfold atEnd at run
  split at run
  · cases run
    exact ⟨trivial, passed⟩
  · cases run

section

variable {item : Consumer α} {property : α → Prop} (each : item.Ensures test property)
include each

/-- Further items have the property of one. -/
theorem furtherItems_ensures :
    (furtherItems env item).Ensures test fun items => ∀ found ∈ items, property found := by
  intro source
  induction size : source.length using Nat.strongRecOn generalizing source with
  | ind size ih =>
    intro parsed passed run
    rw [furtherItems] at run
    split at run
    · obtain ⟨first, runFirst, run⟩ := ok_of_bind_eq_ok run
      obtain ⟨others, runOthers, run⟩ := ok_of_bind_eq_ok run
      cases run
      have shorter := first.shorter
      have taken : ((symbol env ",").andThen fun _ => liftM item).Ensures test property :=
        .andThen symbol_ensures fun _ _ => .consumer each
      obtain ⟨here, middle⟩ := taken passed runFirst
      obtain ⟨further, last⟩ := ih first.rest.length (by omega) rfl middle runOthers
      exact ⟨List.forall_mem_cons.mpr ⟨here, further⟩, last⟩
    · cases run
      exact ⟨by simp, passed⟩

/-- Delimited items have the property of one. -/
theorem delimited_ensures {before after : String} :
    (delimited env before after item).Ensures test
      fun items => ∀ found ∈ items, property found := by
  refine .andThen symbol_ensures fun _ _ => .peek fun next => ?_
  split
  · exact .skip symbol_ensures fun _ => .pure (by simp)
  · refine .bind (.consumer each) fun first here => ?_
    refine .bind (furtherItems_ensures each) fun others further => ?_
    exact .skip symbol_ensures fun _ => .pure (List.forall_mem_cons.mpr ⟨here, further⟩)

/-- Items up to a symbol have the property of one. -/
theorem itemsUntil_ensures {after : String} :
    (itemsUntil env after item).Ensures test fun items => ∀ found ∈ items, property found := by
  intro source
  induction size : source.length using Nat.strongRecOn generalizing source with
  | ind size ih =>
    intro parsed passed run
    rw [itemsUntil] at run
    split at run
    · cases run
      exact ⟨by simp, passed⟩
    · obtain ⟨first, runFirst, run⟩ := ok_of_bind_eq_ok run
      obtain ⟨others, runOthers, run⟩ := ok_of_bind_eq_ok run
      cases run
      have shorter := first.shorter
      obtain ⟨here, middle⟩ := each passed runFirst
      obtain ⟨further, last⟩ := ih first.rest.length (by omega) rfl middle runOthers
      exact ⟨List.forall_mem_cons.mpr ⟨here, further⟩, last⟩

end

end ContentSpace.Grammar

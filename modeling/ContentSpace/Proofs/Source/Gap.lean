import ContentSpace.Source.Piece
import Mathlib.Data.List.Infix
import Mathlib.Data.List.TakeWhile

/-!
# Gaps between tokens

What is skipped between tokens are blanks, comments and single characters at which no token starts.
A comment to the end of its line stops before the line break; any other comment stops after its
first end mark, or at the end of the text if it has none.
-/

namespace ContentSpace.Source

variable {settings : Settings} {first : Char} {rest gap more : List Char}

/-- A token starts at a character that has more text after it. A blob starts with a symbol. -/
def StartsToken (first : Char) (rest : List Char) : Prop :=
  first = '"' ∨ first.isDigit = true ∨ first.isAlpha = true ∨ first = '_' ∨ first ∈ symbols ∨
    ∃ operator ∈ operators, operator.toList <+: first :: rest

/-- Text that is skipped where the rest of the source follows it. -/
inductive Skipped : (gap rest : List Char) → Prop where
  /-- There may be nothing to skip. -/
  | nothing {rest : List Char} : Skipped [] rest
  /-- White space is skipped. -/
  | blank {c : Char} {gap rest : List Char} :
      Text.isBlank c = true → Skipped gap rest → Skipped (c :: gap) rest
  /-- A comment to the end of its line is skipped. -/
  | lineComment {body gap rest : List Char} :
      '\n' ∉ body → (∀ c ∈ (gap ++ rest).head?, c = '\n') → Skipped gap rest →
        Skipped ('/' :: '/' :: body ++ gap) rest
  /-- A comment with an end mark is skipped. -/
  | closedComment {body gap rest : List Char} :
      ¬ ['*', '/'] <:+: body → Skipped gap rest →
        Skipped ('/' :: '*' :: body ++ '*' :: '/' :: gap) rest
  /-- A comment without an end mark is skipped up to the end of the source. -/
  | openComment {body : List Char} : ¬ ['*', '/'] <:+: body → Skipped ('/' :: '*' :: body) []
  /-- A character at which no token starts is skipped. -/
  | other {c : Char} {gap rest : List Char} :
      ¬ StartsToken c (gap ++ rest) → Skipped gap rest → Skipped (c :: gap) rest

/-- A comment reaches to its first end mark, or to the end of the text. -/
theorem commentLength_cases (text : List Char) :
    (∃ body more, text = body ++ '*' :: '/' :: more ∧ ¬ ['*', '/'] <:+: body ∧
      commentLength text = body.length + 2) ∨
    (¬ ['*', '/'] <:+: text ∧ commentLength text = text.length) := by
  induction text using commentLength.induct with
  | case1 => exact .inr ⟨by simp, rfl⟩
  | case2 more => exact .inl ⟨[], more, rfl, by simp, rfl⟩
  | case3 c rest unmarked ih =>
    -- No end mark begins with this character, since the one before the rest was ruled out.
    have apart {body tail : List Char} (split : rest = body ++ tail)
        (free : ¬ ['*', '/'] <:+: body) : ¬ ['*', '/'] <:+: c :: body := by
      rw [List.infix_cons_iff]
      rintro (⟨later, starts⟩ | inside)
      · obtain ⟨rfl, rfl⟩ := List.cons.inj starts
        exact unmarked (later ++ tail) rfl split
      · exact free inside
    have next : commentLength (c :: rest) = commentLength rest + 1 := by
      rw [commentLength]
      exact unmarked
    rcases ih with ⟨body, more, split, free, length⟩ | ⟨free, length⟩
    · exact .inl ⟨c :: body, more, by rw [split]; rfl, apart split free, by simp [next, length]⟩
    · exact .inr ⟨apart (List.append_nil rest).symm free, by rw [next, length]; rfl⟩

/-- Text is cut behind its first characters with a property. -/
theorem cut_takeWhile (test : Char → Bool) (text : List Char) :
    text.take (text.takeWhile test).length = text.takeWhile test ∧
      text.drop (text.takeWhile test).length = text.dropWhile test := by
  have first := (List.prefix_iff_eq_take.mp (List.takeWhile_prefix test (l := text))).symm
  have parts := List.take_append_drop (text.takeWhile test).length text
  rw [first] at parts
  exact ⟨first, List.append_cancel_left (parts.trans List.takeWhile_append_dropWhile.symm)⟩

/-- A comment to the end of its line is skipped with what is skipped after it. -/
theorem skipped_lineComment (split : gap ++ more = rest.dropWhile (· != '\n'))
    (skipped : Skipped gap more) :
    Skipped ('/' :: '/' :: rest.takeWhile (· != '\n') ++ gap) more := by
  have body : '\n' ∉ rest.takeWhile (· != '\n') := fun member => by
    simpa using List.mem_takeWhile_imp member
  refine .lineComment body (fun c head => ?_) skipped
  have stops := List.head?_dropWhile_not (· != '\n') rest
  rw [← split, Option.mem_def.mp head] at stops
  simpa using stops

/-- A comment between marks is skipped with what is skipped after it. -/
theorem skipped_comment (split : gap ++ more = rest.drop (commentLength rest))
    (skipped : Skipped gap more) :
    Skipped ('/' :: '*' :: rest.take (commentLength rest) ++ gap) more := by
  rcases commentLength_cases rest with ⟨body, tail, rfl, free, length⟩ | ⟨free, length⟩
  · have raw : (body ++ '*' :: '/' :: tail).take (body.length + 2) = body ++ ['*', '/'] := by
      simp [List.take_append]
    rw [length, raw]
    have closed := Skipped.closedComment free skipped
    simpa using closed
  · rw [length, List.drop_length, List.append_eq_nil_iff] at split
    obtain ⟨rfl, rfl⟩ := split
    rw [length, List.take_length, List.append_nil]
    exact .openComment free

/-- Where no operator is found none begins. -/
theorem operatorExtent_of_token_eq_none (none : (operatorExtent first rest).token = none) :
    (operatorExtent first rest).length = 0 ∧
      ∀ operator ∈ operators, ¬ operator.toList <+: first :: rest := by
  unfold operatorExtent at none ⊢
  split at none
  · cases none
  next missing =>
    refine ⟨rfl, fun operator member begins => ?_⟩
    have different := List.find?_eq_none.mp missing operator member
    exact different (List.isPrefixOf_iff_prefix.mpr begins)

/-- A number is a token. -/
theorem token_numberExtent_ne_none : (numberExtent first rest).token ≠ none := by
  unfold numberExtent
  cases fraction (rest.dropWhile Char.isDigit) <;> simp

/-- A piece that is no token is a blank, a comment, or a character that starts no token. -/
theorem extent_of_token_eq_none {length : Nat}
    (found : extent settings first rest = ⟨length, none⟩) :
    (Text.isBlank first = true ∧ length = 0) ∨
    (∃ tail, first = '/' ∧ rest = '/' :: tail ∧
      length = (tail.takeWhile (· != '\n')).length + 1) ∨
    (∃ tail, first = '/' ∧ rest = '*' :: tail ∧ length = commentLength tail + 1) ∨
    (¬ StartsToken first rest ∧ length = 0) := by
  unfold extent at found
  -- One case for each kind of piece, in the order in which they are looked for.
  split at found
  next blank =>
    cases found
    exact .inl ⟨blank, rfl⟩
  split at found
  next line =>
    obtain ⟨slash, ahead⟩ := line
    obtain ⟨tail, rfl⟩ := List.head?_eq_some_iff.mp ahead
    cases found
    exact .inr (.inl ⟨tail, slash, rfl, by simp⟩)
  split at found
  next block =>
    obtain ⟨slash, ahead⟩ := block
    obtain ⟨tail, rfl⟩ := List.head?_eq_some_iff.mp ahead
    cases found
    exact .inr (.inr (.inl ⟨tail, slash, rfl, Nat.add_comm 1 _⟩))
  split at found
  · cases found
  next noQuote =>
  split at found
  · cases found
  split at found
  · exact absurd (congrArg Extent.token found) token_numberExtent_ne_none
  next noDigit =>
  split at found
  · cases found
  next noLetter =>
  split at found
  · cases found
  next noSymbol =>
  obtain ⟨length, noOperator⟩ := operatorExtent_of_token_eq_none (congrArg Extent.token found)
  rw [found] at length
  refine .inr (.inr (.inr ⟨?_, length⟩))
  simp only [Bool.or_eq_true, beq_iff_eq, not_or] at noLetter
  rintro (quote | digit | letter | score | symbol | ⟨operator, member, begins⟩)
  · exact noQuote quote
  · exact noDigit digit
  · exact noLetter.1 letter
  · exact noLetter.2 score
  · exact noSymbol (List.contains_iff_mem.mpr symbol)
  · exact noOperator operator member begins

/-- A piece that is no token is skipped with what is skipped after it. -/
theorem skipped_of_extent {length : Nat} (found : extent settings first rest = ⟨length, none⟩)
    (split : gap ++ more = rest.drop length) (skipped : Skipped gap more) :
    Skipped (first :: rest.take length ++ gap) more := by
  rcases extent_of_token_eq_none found with ⟨blank, rfl⟩ | ⟨tail, rfl, rfl, rfl⟩ |
    ⟨tail, rfl, rfl, rfl⟩ | ⟨noToken, rfl⟩
  · exact .blank blank skipped
  · obtain ⟨body, left⟩ := cut_takeWhile (· != '\n') tail
    rw [List.drop_succ_cons, left] at split
    rw [List.take_succ_cons, body]
    exact skipped_lineComment split skipped
  · exact skipped_comment split skipped
  · rw [List.drop_zero] at split
    exact .other (split.symm ▸ noToken) skipped

end ContentSpace.Source

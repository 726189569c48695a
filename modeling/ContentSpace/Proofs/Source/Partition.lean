import ContentSpace.Proofs.Source.Spelled
import ContentSpace.Proofs.Text.Boundary

/-!
# Tokens partition the source

Every source falls into tokens and what is skipped between them, with the end of the source as its
last token. The piece that the first character starts is put before what the rest falls into: a
token stands in front of it, and a piece that is no token widens the gap before the first token.
-/

namespace ContentSpace

/-! ## Places -/

/-- Going over two texts in a row is going over one and then over the other. -/
theorem Place.after_append (place : Place) (left right : List Char) :
    place.after (left ++ right) = (place.after left).after right :=
  List.foldl_append

/-- A place counts the bytes before it, the line breaks, and the characters after the last line
break. -/
theorem Place.after_start (text : List Char) :
    Place.after {} text = ⟨Text.byteCount text, 1 + text.count '\n',
      1 + (text.reverse.takeWhile (· != '\n')).length⟩ := by
  induction text using List.reverseRecOn with
  | nil => rfl
  | append_singleton text c ih =>
    rw [after_append, ih]
    show Place.next _ c = _
    unfold Place.next
    by_cases lineBreak : c = '\n'
    · simp [lineBreak, Nat.add_assoc]
    · simp [lineBreak, Nat.add_assoc]

/-! ## Tokens in their places -/

/-- A token takes characters of the source, between the text before it and the text after it. -/
structure Token.Stands (token : Token) (before raw rest : List Char) : Prop where
  /-- Its span starts where the text before it ends. -/
  start : token.span.start = Text.byteCount before
  /-- Its span stops where the text after it starts. -/
  stop : token.span.stop = Text.byteCount (before ++ raw)
  /-- Its line is one more than there are line breaks before it. -/
  line : token.span.line = 1 + before.count '\n'
  /-- Its column is one more than there are characters since the last line break before it. -/
  column : token.span.column = 1 + (before.reverse.takeWhile (· != '\n')).length
  /-- The text of its span are its characters. -/
  text : token.span.text (String.ofList (before ++ raw ++ rest)) = String.ofList raw
  /-- Only the end of the source takes no characters. -/
  empty : raw = [] ↔ token.kind = .finish
  /-- All but strings take the characters of their text. -/
  plain : token.kind ≠ .string → raw = token.text.toList
  /-- A string stands in quotes, the second of which may be missing at the end of the source. -/
  quoted : token.kind = .string →
    raw = '"' :: token.text.toList ++ ['"'] ∨ raw = '"' :: token.text.toList ∧ rest = []

/-- The span between two places of a source has the text between them. -/
theorem Span.text_between (before raw rest : List Char) :
    (Span.between (Place.after {} before) (Place.after {} (before ++ raw))).text
      (String.ofList (before ++ raw ++ rest)) = String.ofList raw := by
  simp only [Place.after_start, Span.between, Span.text, String.toList_ofList, List.append_assoc,
    Text.dropBytes?_append, Text.byteCount_append, Nat.le_add_right, if_true,
    Nat.add_sub_cancel_left, Option.bind_some, Text.takeBytes?_append, Option.elim_some]

namespace Source

variable {settings : Settings} {kind : TokenKind} {text before raw rest : List Char}

/-- A token between two places of a source stands there if it is spelled by the characters between
them. -/
theorem stands_between {text : String} (empty : raw = [] ↔ kind = .finish)
    (plain : kind ≠ .string → raw = text.toList)
    (quoted : kind = .string →
      raw = '"' :: text.toList ++ ['"'] ∨ raw = '"' :: text.toList ∧ rest = []) :
    Token.Stands ⟨kind, text, .between (Place.after {} before) (Place.after {} (before ++ raw))⟩
      before raw rest := by
  refine ⟨?start, ?stop, ?line, ?column, Span.text_between before raw rest, empty, plain, quoted⟩
  all_goals simp only [Span.between, Place.after_start]

/-- Characters that spell a token are a token in its place. -/
theorem Spelled.stands (spelled : Spelled kind text raw rest) (before : List Char)
    (some : raw ≠ []) :
    Token.Stands ⟨kind, String.ofList text,
      .between (Place.after {} before) (Place.after {} (before ++ raw))⟩ before raw rest := by
  refine stands_between (iff_of_false some spelled.unfinished) ?_ ?_
  · simpa using spelled.plain
  · simpa using spelled.quoted

/-- The end of the source is a token without characters. -/
theorem stands_endToken (source : List Char) :
    (endToken (String.ofList source)).Stands source [] [] := by
  have stands : Token.Stands ⟨.finish, "", _⟩ source [] [] :=
    stands_between (iff_of_true rfl rfl) (fun _ => rfl) nofun
  simpa [endToken] using stands

/-- The rest of a source, after the text before it, falls into gaps and tokens. -/
inductive Laid : (before rest : List Char) → List Token → Prop where
  /-- After the last gap the source ends. -/
  | finish {before gap : List Char} {token : Token} :
      Skipped gap [] → token.Stands (before ++ gap) [] [] → Laid before gap [token]
  /-- After any other gap there is a token and more of the source. -/
  | token {before gap raw rest : List Char} {token : Token} {tokens : List Token} :
      Skipped gap (raw ++ rest) → token.Stands (before ++ gap) raw rest → raw ≠ [] →
        Laid (before ++ gap ++ raw) rest tokens → Laid before (gap ++ (raw ++ rest)) (token :: tokens)

/-- What is skipped widens the first gap. -/
theorem Laid.skip {tokens : List Token}
    (wider : ∀ gap more, gap ++ more = rest → Skipped gap more → Skipped (raw ++ gap) more)
    (laid : Laid (before ++ raw) rest tokens) : Laid before (raw ++ rest) tokens := by
  cases laid with
  | finish skipped stands =>
    rw [List.append_assoc] at stands
    exact .finish (wider _ [] (List.append_nil _) skipped) stands
  | token skipped stands some later =>
    rw [← List.append_assoc]
    simp only [List.append_assoc] at stands later
    refine .token (wider _ _ rfl skipped) ?_ some ?_
    · simpa using stands
    · simpa using later

/-- Every source falls into its tokens and what is skipped. -/
theorem laid_tokensOf (settings : Settings) (before rest : List Char) :
    Laid before rest (tokensOf (Place.after {} before) (pieces settings rest) ++
      [endToken (String.ofList (before ++ rest))]) := by
  induction rest using pieces.induct settings generalizing before with
  | case1 =>
    rw [pieces, tokensOf, List.nil_append, List.append_nil]
    refine .finish .nothing ?_
    rw [List.append_nil]
    exact stands_endToken before
  | case2 c rest found ih =>
    have piece : extent settings c rest = found := rfl
    rw [pieces, piece, tokensOf]
    clear_value found
    obtain ⟨length, token⟩ := found
    have whole : (c :: rest.take length) ++ rest.drop length = c :: rest := by simp
    have later := ih (before ++ c :: rest.take length)
    rw [Place.after_append, List.append_assoc, whole] at later
    dsimp only at later ⊢
    cases token with
    | some token =>
      obtain ⟨kind, text⟩ := token
      have some : c :: rest.take length ≠ [] := List.cons_ne_nil _ _
      have stands := (spelled_of_extent piece).stands before some
      have nothing : Skipped [] ((c :: rest.take length) ++ rest.drop length) := .nothing
      rw [← List.append_nil before] at stands
      have laid := Laid.token nothing stands some (List.append_nil before ▸ later)
      rw [List.nil_append, whole] at laid
      simpa [Place.after_append] using laid
    | none =>
      have widened := later.skip fun gap more split => skipped_of_extent piece split
      rw [whole] at widened
      exact widened

/-! ## The partition -/

/-- Tokens and what lies between them make up a source. -/
structure Partitions (source : List Char) (tokens : List Token) : Prop where
  /-- The last token, and no other, is the end of the source, which is placed there. -/
  finish : ∃ others last, tokens = others ++ [last] ∧ last.kind = .finish ∧ last.text = "" ∧
    last.span.start = Text.byteCount source ∧ last.span.stop = Text.byteCount source ∧
      ∀ token ∈ others, token.kind ≠ .finish
  /-- Each token takes the characters of the source that spell it. -/
  stands : ∀ token ∈ tokens, ∃ before raw after, source = before ++ raw ++ after ∧
    token.Stands before raw after
  /-- Tokens are in order and do not overlap. -/
  ordered : tokens.Pairwise fun earlier later => earlier.span.stop ≤ later.span.start
  /-- What lies between two tokens next to each other, or before the first token, is skipped. -/
  gaps : ∀ earlier token later, tokens = earlier ++ token :: later →
    ∃ before gap after, source = before ++ gap ++ after ∧
      (earlier.getLast?.elim 0 fun last => last.span.stop) = Text.byteCount before ∧
        token.span.start = Text.byteCount (before ++ gap) ∧ Skipped gap after

variable {tokens : List Token}

/-- No token starts earlier than the rest of the source. -/
theorem Laid.start_le (laid : Laid before rest tokens) :
    ∀ token ∈ tokens, Text.byteCount before ≤ token.span.start := by
  induction laid with
  | finish skipped stands =>
    simp [stands.start]
  | token skipped stands some later ih =>
    refine List.forall_mem_cons.mpr ⟨by simp [stands.start], fun token member => ?_⟩
    have behind := ih token member
    simp only [Text.byteCount_append] at behind
    omega

/-- Tokens and gaps in a row are in order. -/
theorem Laid.pairwise (laid : Laid before rest tokens) :
    tokens.Pairwise fun earlier later => earlier.span.stop ≤ later.span.start := by
  induction laid with
  | finish skipped stands => exact List.pairwise_singleton _ _
  | token skipped stands some later ih =>
    refine List.pairwise_cons.mpr ⟨fun token member => ?_, ih⟩
    rw [stands.stop]
    exact later.start_le token member

/-- Tokens in a row each take their characters. -/
theorem Laid.stands (laid : Laid before rest tokens) :
    ∀ token ∈ tokens, ∃ front raw after, before ++ rest = front ++ raw ++ after ∧
      token.Stands front raw after := by
  induction laid with
  | finish skipped stands =>
    rw [List.forall_mem_singleton]
    exact ⟨_, [], [], by simp, stands⟩
  | token skipped stands some later ih =>
    refine List.forall_mem_cons.mpr ⟨⟨_, _, _, by simp, stands⟩, fun token member => ?_⟩
    simpa using ih token member

/-- The last of tokens in a row, and no other, is the end of the source. -/
theorem Laid.finish_last (laid : Laid before rest tokens) :
    ∃ others last, tokens = others ++ [last] ∧ last.Stands (before ++ rest) [] [] ∧
      ∀ token ∈ others, token.kind ≠ .finish := by
  induction laid with
  | finish skipped stands => exact ⟨[], _, rfl, stands, nofun⟩
  | token skipped stands some later ih =>
    obtain ⟨others, last, split, finish, unfinished⟩ := ih
    refine ⟨_ :: others, last, by rw [split]; rfl, by simpa using finish, ?_⟩
    exact List.forall_mem_cons.mpr ⟨fun ends => some (stands.empty.mpr ends), unfinished⟩

/-- What lies before each of tokens in a row is skipped. -/
theorem Laid.gaps (laid : Laid before rest tokens) :
    ∀ earlier token later, tokens = earlier ++ token :: later →
      ∃ front gap after, before ++ rest = front ++ gap ++ after ∧
        (earlier.getLast?.elim (Text.byteCount before) fun last => last.span.stop) =
          Text.byteCount front ∧
        token.span.start = Text.byteCount (front ++ gap) ∧ Skipped gap after := by
  induction laid with
  | @finish before gap last skipped stands =>
    intro earlier token later split
    obtain ⟨rfl, same⟩ := List.append_eq_singleton_iff.mp split.symm |>.resolve_right (by simp)
    obtain ⟨rfl, rfl⟩ := List.cons.inj same
    exact ⟨before, gap, [], by simp, rfl, stands.start, skipped⟩
  | @token before gap raw rest first tokens skipped stands some laid ih =>
    intro earlier token later split
    cases earlier with
    | nil =>
      obtain ⟨rfl, rfl⟩ := List.cons.inj split
      exact ⟨before, gap, raw ++ rest, by simp, rfl, stands.start, skipped⟩
    | cons one earlier =>
      obtain ⟨rfl, others⟩ := List.cons.inj split
      obtain ⟨front, between, after, whole, stop, start, skippedToo⟩ := ih earlier token later others
      refine ⟨front, between, after, by simpa using whole, ?_, start, skippedToo⟩
      rw [← stop, List.getLast?_cons, ← stands.stop]
      cases earlier.getLast? <;> rfl

/-- The token for the end of source text is not among its tokens. -/
theorem kind_ne_finish_of_mem_tokens (settings : Settings) (source : String) :
    ∀ token ∈ Source.tokens settings source, token.kind ≠ .finish := by
  obtain ⟨others, last, split, -, unfinished⟩ := (laid_tokensOf settings [] source.toList).finish_last
  have same : Source.tokens settings source = others := (List.append_inj' split rfl).1
  rwa [same]

/-- The tokens of every source, with whatever names are privileged, partition it: in order, without
overlap and up to a single end, each token takes the characters that spell it, at its place, and
only blanks, comments and characters that start no token lie between them. -/
theorem tokens_partition (settings : Settings) (source : String) :
    Partitions source.toList (Source.tokens settings source ++ [endToken source]) := by
  have laid := laid_tokensOf settings [] source.toList
  rw [List.nil_append, String.ofList_toList] at laid
  obtain ⟨others, last, split, finish, unfinished⟩ := laid.finish_last
  refine ⟨⟨others, last, split, ?_⟩, laid.stands, laid.pairwise, laid.gaps⟩
  have empty : last.kind = .finish := finish.empty.mp rfl
  have text : [] = last.text.toList := finish.plain (by rw [empty]; exact nofun)
  refine ⟨empty, String.toList_eq_nil_iff.mp text.symm, finish.start, ?_, unfinished⟩
  simpa using finish.stop

end Source

end ContentSpace

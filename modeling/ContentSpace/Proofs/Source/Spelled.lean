import ContentSpace.Proofs.Source.Gap

/-!
# How tokens are spelled

The text of a token is what stands in the source, but for the quotes of a string. Each scanner takes
as many characters as its token has. A string without a closing quote reaches to the end of the
source.
-/

namespace ContentSpace.Source

variable {settings : Settings} {first : Char} {rest text : List Char} {kind : TokenKind}

/-- Characters of the source, with more text after them, spell a token of a kind with a text. -/
structure Spelled (kind : TokenKind) (text raw rest : List Char) : Prop where
  /-- The end of the source is no such token. -/
  unfinished : kind ≠ .finish
  /-- Only strings differ from their text. -/
  plain : kind ≠ .string → raw = text
  /-- A string stands in quotes, the second of which may be missing at the end of the source. -/
  quoted : kind = .string → raw = '"' :: text ++ ['"'] ∨ raw = '"' :: text ∧ rest = []

/-- Tokens other than strings are spelled as they stand. -/
theorem Spelled.of_eq {raw : List Char} (unfinished : kind ≠ .finish) (unquoted : kind ≠ .string)
    (same : raw = text) : Spelled kind text raw rest :=
  ⟨unfinished, fun _ => same, fun quoted => absurd quoted unquoted⟩

/-- The body of a string stands before its closing quote, or is all there is. -/
theorem stringBody_cases (text : List Char) :
    (∃ more, text = (stringBody text).1 ++ '"' :: more ∧ (stringBody text).2 = true) ∨
      (text = (stringBody text).1 ∧ (stringBody text).2 = false) := by
  induction text using stringBody.induct with
  | case1 => exact .inr ⟨rfl, rfl⟩
  | case2 more => exact .inl ⟨more, rfl, rfl⟩
  | case3 c rest body closed found ih =>
    rw [stringBody]
    rcases ih with ⟨more, split, quoted⟩ | ⟨whole, open'⟩
    · exact .inl ⟨more, congrArg (fun text => '\\' :: c :: text) split, quoted⟩
    · exact .inr ⟨congrArg (fun text => '\\' :: c :: text) whole, open'⟩
  | case4 c rest noQuote noEscape body closed found ih =>
    rw [stringBody]
    · rcases ih with ⟨more, split, quoted⟩ | ⟨whole, unclosed⟩
      · exact .inl ⟨more, congrArg (List.cons c) split, quoted⟩
      · exact .inr ⟨congrArg (List.cons c) whole, unclosed⟩
    · exact noQuote
    · exact noEscape

/-- The digits of a fraction follow a point. -/
theorem exists_of_fraction_ne_nil (some : fraction text ≠ []) : ∃ tail, text = '.' :: tail := by
  unfold fraction at some
  split at some
  next tail => exact ⟨tail, rfl⟩
  · exact absurd rfl some

/-- A number takes its digits, and a point among them. -/
theorem numberExtent_eq {length : Nat}
    (found : numberExtent first rest = ⟨length, some (kind, text)⟩) :
    (kind = .integer ∨ kind = .float) ∧ first :: rest.take length = text := by
  obtain ⟨whole, left⟩ := cut_takeWhile Char.isDigit rest
  unfold numberExtent at found
  dsimp only at found
  split at found
  · cases found
    exact ⟨.inl rfl, congrArg (List.cons first) whole⟩
  next digits some =>
    cases found
    refine ⟨.inr rfl, congrArg (List.cons first) ?_⟩
    obtain ⟨tail, ahead⟩ := exists_of_fraction_ne_nil some
    have behind := (cut_takeWhile Char.isDigit tail).1
    rw [ahead, fraction, Nat.add_assoc, List.take_add, whole, left, ahead, Nat.add_comm 1,
      List.take_succ_cons, behind]
    rfl

/-- A word takes its characters. -/
theorem wordExtent_eq {length : Nat}
    (found : wordExtent settings first rest = ⟨length, some (kind, text)⟩) :
    (kind = .keyword ∨ kind = .identifier) ∧ first :: rest.take length = text := by
  obtain ⟨taken, -⟩ := cut_takeWhile isWordChar rest
  unfold wordExtent at found
  cases found
  refine ⟨?_, congrArg (List.cons first) taken⟩
  split
  · exact .inl rfl
  · exact .inr rfl

/-- An operator takes its characters. -/
theorem operatorExtent_eq {length : Nat}
    (found : operatorExtent first rest = ⟨length, some (kind, text)⟩) :
    kind = .operator ∧ first :: rest.take length = text := by
  unfold operatorExtent at found
  split at found
  next operator chosen =>
    cases found
    refine ⟨rfl, ?_⟩
    have begins : operator.toList.isPrefixOf (first :: rest) = true := by
      simpa using List.find?_some chosen
    rw [List.isPrefixOf_iff_prefix] at begins
    have member := List.mem_of_find?_eq_some chosen
    have named : ∀ operator ∈ operators, operator.toList ≠ [] := by decide
    obtain ⟨head, tail, letters⟩ := List.exists_cons_of_ne_nil (named operator member)
    rw [letters] at begins ⊢
    exact (List.prefix_iff_eq_take.mp begins).symm
  · cases found

/-- A piece that is a token is spelled by its characters. -/
theorem spelled_of_extent {length : Nat}
    (found : extent settings first rest = ⟨length, some (kind, text)⟩) :
    Spelled kind text (first :: rest.take length) (rest.drop length) := by
  unfold extent at found
  -- One case for each kind of piece, in the order in which they are looked for.
  split at found
  · cases found
  split at found
  · cases found
  split at found
  · cases found
  split at found
  next quote =>
    subst quote
    cases found
    refine ⟨nofun, fun unquoted => absurd rfl unquoted, fun _ => ?_⟩
    have scanned := stringBody_cases rest
    generalize stringBody rest = string at scanned
    rcases scanned with ⟨more, rfl, closed⟩ | ⟨rfl, unclosed⟩
    · left
      simp [closed, List.take_append]
    · right
      simp [unclosed]
  split at found
  · cases found
    exact .of_eq nofun nofun rfl
  split at found
  · obtain ⟨rfl | rfl, same⟩ := numberExtent_eq found
    · exact .of_eq nofun nofun same
    · exact .of_eq nofun nofun same
  split at found
  · obtain ⟨rfl | rfl, same⟩ := wordExtent_eq found
    · exact .of_eq nofun nofun same
    · exact .of_eq nofun nofun same
  split at found
  · cases found
    exact .of_eq nofun nofun rfl
  · obtain ⟨rfl, same⟩ := operatorExtent_eq found
    exact .of_eq nofun nofun same

end ContentSpace.Source

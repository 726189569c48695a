import ContentSpace.Source.Piece
import Mathlib.Data.List.TakeWhile

/-!
# Names in source text

An identifier starts with a letter or an underscore and goes on with letters, digits, underscores
and dots.
-/

namespace ContentSpace.Source

variable {settings : Settings} {text : String} {source : String}

/-- A name starts with a letter or an underscore, and only word characters follow. -/
def IsName (name : String) : Prop :=
  ∃ first rest, name.toList = first :: rest ∧ (first.isAlpha || first == '_') = true ∧
    ∀ c ∈ rest, isWordChar c = true

/-- A number is not an identifier. -/
theorem numberExtent_ne_identifier {first : Char} {rest text : List Char} :
    (numberExtent first rest).token ≠ some (.identifier, text) := by
  unfold numberExtent
  cases fraction (rest.dropWhile Char.isDigit) <;> simp

/-- Only words are identifiers. -/
theorem wordExtent_of_identifier {first : Char} {rest text : List Char}
    (found : (extent settings first rest).token = some (.identifier, text)) :
    (first.isAlpha || first == '_') = true ∧
      (wordExtent settings first rest).token = some (.identifier, text) := by
  unfold extent at found
  split at found
  · simp at found
  split at found
  · simp at found
  split at found
  · simp at found
  split at found
  · simp at found
  split at found
  · simp at found
  split at found
  · exact (numberExtent_ne_identifier found).elim
  split at found
  case isTrue start => exact ⟨start, found⟩
  split at found
  · simp at found
  · unfold operatorExtent at found
    split at found <;> simp at found

/-- An identifier is a name that is not reserved. -/
theorem isName_of_extent {first : Char} {rest text : List Char}
    (found : (extent settings first rest).token = some (.identifier, text)) :
    IsName (String.ofList text) ∧ reservedWords.contains (String.ofList text) = false := by
  obtain ⟨start, word⟩ := wordExtent_of_identifier found
  simp only [wordExtent, Option.some.injEq, Prod.mk.injEq] at word
  obtain ⟨kind, rfl⟩ := word
  refine ⟨⟨first, rest.takeWhile isWordChar, String.toList_ofList, start, ?_⟩, ?_⟩
  · exact fun c member => List.mem_takeWhile_imp member
  · by_contra reserved
    rw [Bool.not_eq_false] at reserved
    rw [reserved, Bool.true_or, if_pos rfl] at kind
    cases kind

/-- Every piece is what its first character starts. -/
theorem token_of_mem_pieces {characters : List Char} {piece : Piece}
    (member : piece ∈ pieces settings characters) :
    ∃ first rest, piece.token = (extent settings first rest).token := by
  induction characters using pieces.induct settings with
  | case1 => simp [pieces] at member
  | case2 c rest found ih =>
    rw [pieces, List.mem_cons] at member
    rcases member with rfl | later
    · exact ⟨c, rest, rfl⟩
    · exact ih later

/-- Every token is a piece. -/
theorem piece_of_mem_tokensOf {place : Place} {pieces : List Piece} {token : Token}
    (member : token ∈ tokensOf place pieces) :
    ∃ piece ∈ pieces, ∃ text, piece.token = some (token.kind, text) ∧
      token.text = String.ofList text := by
  induction pieces generalizing place with
  | nil => simp [tokensOf] at member
  | cons piece rest ih =>
    have later {place : Place} (member : token ∈ tokensOf place rest) :
        ∃ found ∈ piece :: rest, ∃ text, found.token = some (token.kind, text) ∧
          token.text = String.ofList text := by
      obtain ⟨found, inside, text, same⟩ := ih member
      exact ⟨found, List.mem_cons_of_mem _ inside, text, same⟩
    unfold tokensOf at member
    dsimp only at member
    split at member
    case h_1 kind text same =>
      rcases List.mem_cons.mp member with rfl | member
      · exact ⟨piece, List.mem_cons_self .., text, same, rfl⟩
      · exact later member
    case h_2 => exact later member

/-- Every identifier of source text is a name that is not reserved. -/
theorem identifier_of_mem_tokens {token : Token} (member : token ∈ tokens settings source)
    (kind : token.kind = .identifier) :
    IsName token.text ∧ reservedWords.contains token.text = false := by
  obtain ⟨piece, inside, text, found, same⟩ := piece_of_mem_tokensOf member
  obtain ⟨first, rest, started⟩ := token_of_mem_pieces inside
  rw [same]
  exact isName_of_extent (by rw [← started, found, kind])

/-- Every identifier of source text is a name. -/
theorem isName_of_mem_tokens {token : Token} (member : token ∈ tokens settings source)
    (kind : token.kind = .identifier) : IsName token.text :=
  (identifier_of_mem_tokens member kind).1

end ContentSpace.Source

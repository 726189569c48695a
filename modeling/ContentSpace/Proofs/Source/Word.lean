import ContentSpace.Proofs.Number.Numeral
import ContentSpace.Proofs.Source.Name

/-!
# Words of source text

A word is a token without its place. Words that are written with spaces between them are read back
as tokens, because a space ends every word that needs an end: a name, a number, or an operator that
longer operators start with.
-/

namespace ContentSpace

/-- A token without its place. -/
structure Word where
  /-- What kind of token it is. -/
  kind : TokenKind
  /-- Its text. -/
  text : String
  deriving DecidableEq

namespace Word

/-- A symbol. -/
def symbol (text : String) : Word := ⟨.symbol, text⟩

/-- An operator. -/
def operator (text : String) : Word := ⟨.operator, text⟩

/-- A name. -/
def identifier (text : String) : Word := ⟨.identifier, text⟩

/-- The digits of a number. -/
def digits (n : Nat) : Word := ⟨.integer, String.ofList (Numeral.digits n)⟩

/-- Words between parentheses. -/
def parenthesized (words : List Word) : List Word := symbol "(" :: words ++ [symbol ")"]

/-- Items with commas between them. -/
def separated (items : List (List Word)) : List Word := [symbol ","].intercalate items

/-- Items with commas between them are the first one and the others, each after a comma. -/
theorem separated_cons (first : List Word) (others : List (List Word)) :
    separated (first :: others) = first ++ others.flatMap fun item => symbol "," :: item := by
  induction others generalizing first with
  | nil => simp [separated]
  | cons next others ih =>
    rw [separated, List.intercalate_cons_cons, ← separated, ih, List.flatMap_cons]
    simp

/-- Words as text, with a space between them. -/
def spaced (words : List Word) : String := " ".intercalate (words.map text)

end Word

/-- The word that a token is. -/
def Token.word (token : Token) : Word := ⟨token.kind, token.text⟩

/-- A token has a kind and a text when it is the word of both. -/
theorem Token.is_iff {token : Token} {kind : TokenKind} {text : String} :
    token.is kind text = true ↔ token.word = ⟨kind, text⟩ := by
  simp [Token.is, Token.word]

/-- A token that has a kind and a text is of that kind. -/
theorem Token.kind_of_is {token : Token} {kind : TokenKind} {text : String}
    (found : token.is kind text = true) : token.kind = kind :=
  congrArg Word.kind (Token.is_iff.mp found)

/-- A token that has a kind and a text has that text. -/
theorem Token.text_of_is {token : Token} {kind : TokenKind} {text : String}
    (found : token.is kind text = true) : token.text = text :=
  congrArg Word.text (Token.is_iff.mp found)

/-- A token is its word at a place. -/
theorem Token.exists_of_word {token : Token} {kind : TokenKind} {text : String}
    (known : token.word = ⟨kind, text⟩) : ∃ span, token = ⟨kind, text, span⟩ := by
  obtain ⟨_, _, span⟩ := token
  obtain ⟨rfl, rfl⟩ := Word.mk.inj known
  exact ⟨span, rfl⟩

namespace Source

variable {settings : Settings}

/-- A name that is no keyword and has no dot. -/
structure IsPlainName (name : String) : Prop where
  /-- It is a name. -/
  isName : IsName name
  /-- It has no dot. -/
  dotless : '.' ∉ name.toList
  /-- It is not reserved. -/
  free : reservedWords.contains name = false

/-- A word that is read as a token when a space or nothing follows it. -/
def StandsAlone (settings : Settings) (word : Word) : Prop :=
  ∃ first others, word.text.toList = first :: others ∧
    ∀ rest, (rest = [] ∨ ∃ more, rest = ' ' :: more) →
      extent settings first (others ++ rest) =
        ⟨others.length, some (word.kind, first :: others)⟩

/-- The first characters with a property end where a space follows, if a space does not have it. -/
theorem takeWhile_append_space {test : Char → Bool} {text rest : List Char}
    (all : ∀ c ∈ text, test c = true) (space : test ' ' = false)
    (ends : rest = [] ∨ ∃ more, rest = ' ' :: more) :
    (text ++ rest).takeWhile test = text ∧ (text ++ rest).dropWhile test = rest := by
  have none : rest.takeWhile test = [] ∧ rest.dropWhile test = rest := by
    rcases ends with rfl | ⟨more, rfl⟩ <;> simp [space]
  rw [List.takeWhile_append_of_pos all, List.dropWhile_append_of_pos all, none.1, none.2]
  simp

/-- Letters are below 128. -/
theorem toNat_of_isAlpha {c : Char} (letter : c.isAlpha = true) : c.toNat < 128 := by
  have range : (decide (c.val ≥ 'A'.val ∧ c.val ≤ 'Z'.val) ||
      (decide (c.val ≥ 'a'.val) && decide (c.val ≤ 'z'.val))) = true := letter
  simp [UInt32.le_iff_toNat_le] at range
  omega

/-- A letter starts a word and nothing else. -/
theorem extent_letter {first : Char} (letter : (first.isAlpha || first == '_') = true)
    (rest : List Char) : extent settings first rest = wordExtent settings first rest := by
  have small : first.toNat < 128 := by
    rw [Bool.or_eq_true] at letter
    rcases letter with letter | score
    · exact toNat_of_isAlpha letter
    · rw [eq_of_beq score]
      decide
  have all : ∀ n < 128, ((Char.ofNat n).isAlpha || Char.ofNat n == '_') = true →
      Text.isBlank (Char.ofNat n) = false ∧ Char.ofNat n ≠ '/' ∧ Char.ofNat n ≠ '"' ∧
        Char.ofNat n ≠ '\x7b' ∧ (Char.ofNat n).isDigit = false := by
    decide
  obtain ⟨blank, slash, quote, brace, digit⟩ := by
    simpa only [Char.ofNat_toNat] using all first.toNat small (by rwa [Char.ofNat_toNat])
  simp [extent, blank, slash, quote, brace, digit, letter]

/-- A digit starts a number and nothing else. -/
theorem extent_digit {first : Char} (digital : first.isDigit = true) (rest : List Char) :
    extent settings first rest = numberExtent first rest := by
  have bounds := Numeral.toNat_of_isDigit digital
  have all : ∀ n < 58, 48 ≤ n → Text.isBlank (Char.ofNat n) = false ∧ Char.ofNat n ≠ '/' ∧
      Char.ofNat n ≠ '"' ∧ Char.ofNat n ≠ '\x7b' := by
    decide
  obtain ⟨blank, slash, quote, brace⟩ := by
    simpa only [Char.ofNat_toNat] using all first.toNat (by omega) bounds.1
  simp [extent, blank, slash, quote, brace, digital]

/-- A plain name stands alone, unless some names without a dot are privileged. -/
theorem standsAlone_identifier {name : String} (plain : IsPlainName name)
    (dotted : ∀ start ∈ settings.privileged, '.' ∈ start.toList) :
    StandsAlone settings (.identifier name) := by
  obtain ⟨first, others, characters, letter, inside⟩ := plain.isName
  refine ⟨first, others, characters, fun rest ends => ?_⟩
  have word := (takeWhile_append_space inside (by decide) ends).1
  have whole : String.ofList (first :: others) = name := by rw [← characters, String.ofList_toList]
  have common : settings.isPrivileged name = false := by
    rw [Settings.isPrivileged, List.any_eq_false]
    intro start member begins
    rw [List.isPrefixOf_iff_prefix] at begins
    exact plain.dotless (begins.subset (dotted start member))
  rw [extent_letter letter, wordExtent, word, whole, plain.free, common]
  rfl

/-- Digits stand alone. -/
theorem standsAlone_integer {digits : String} (numeral : Numeral.isNumeral digits.toList = true) :
    StandsAlone settings ⟨.integer, digits⟩ := by
  obtain ⟨nonempty, digital⟩ := Numeral.isNumeral_iff.mp numeral
  obtain ⟨first, others, characters⟩ := List.exists_cons_of_ne_nil nonempty
  rw [characters] at digital
  refine ⟨first, others, characters, fun rest ends => ?_⟩
  have inside (c : Char) (member : c ∈ others) := digital c (List.mem_cons_of_mem _ member)
  obtain ⟨taken, left⟩ := takeWhile_append_space inside (by decide) ends
  have whole : fraction rest = [] := by
    rcases ends with rfl | ⟨more, rfl⟩ <;> rfl
  rw [extent_digit (digital first (List.mem_cons_self ..)), numberExtent, taken, left, whole]

/-- The digits of a number stand alone. -/
theorem standsAlone_digits (n : Nat) : StandsAlone settings (.digits n) :=
  standsAlone_integer (by rw [String.toList_ofList, Numeral.isNumeral_digits])

/-- Brackets, commas and dots stand alone. -/
theorem standsAlone_symbol {text : String} (member : text ∈ ["(", ")", "[", "]", ",", "."]) :
    StandsAlone settings (.symbol text) := by
  simp only [List.mem_cons, List.not_mem_nil, or_false] at member
  rcases member with rfl | rfl | rfl | rfl | rfl | rfl <;>
    exact ⟨_, [], rfl, fun _ _ => rfl⟩

/-- Operators stand alone: with a space after it, an operator is no part of a longer one and starts
no comment. -/
theorem standsAlone_operator {text : String} (member : text ∈ operators) :
    StandsAlone settings (.operator text) := by
  simp only [operators, List.mem_cons, List.not_mem_nil, or_false] at member
  rcases member with rfl | rfl | rfl | rfl | rfl | rfl | rfl | rfl | rfl | rfl | rfl | rfl | rfl |
    rfl | rfl | rfl | rfl <;>
    refine ⟨_, _, rfl, fun rest ends => ?_⟩ <;> rcases ends with rfl | ⟨more, rfl⟩ <;> rfl

/-- The word that a piece is, if it is one. -/
def Piece.word? (piece : Piece) : Option Word :=
  piece.token.map fun (kind, text) => ⟨kind, String.ofList text⟩

/-- The words of the tokens among pieces are those that pieces are. -/
theorem map_word_tokensOf (place : Place) (pieces : List Piece) :
    (tokensOf place pieces).map Token.word = pieces.filterMap Piece.word? := by
  induction pieces generalizing place with
  | nil => rfl
  | cons piece rest ih =>
    rw [tokensOf, List.filterMap_cons, Piece.word?]
    cases piece.token with
    | none => exact ih _
    | some found => exact congrArg (List.cons _) (ih _)

/-- A word before a space or the end is a piece. -/
theorem pieces_word {word : Word} (alone : StandsAlone settings word) {rest : List Char}
    (ends : rest = [] ∨ ∃ more, rest = ' ' :: more) :
    pieces settings (word.text.toList ++ rest) =
      ⟨word.text.toList, some (word.kind, word.text.toList)⟩ :: pieces settings rest := by
  obtain ⟨first, others, characters, found⟩ := alone
  rw [characters, List.cons_append, pieces, found rest ends]
  simp

/-- A space is a piece that is no word. -/
theorem pieces_space (rest : List Char) :
    pieces settings (' ' :: rest) = ⟨[' '], none⟩ :: pieces settings rest := by
  rw [pieces]
  rfl

/-- Words with spaces between them are read back. -/
theorem map_word_tokens_spaced {words : List Word}
    (alone : ∀ word ∈ words, StandsAlone settings word) :
    (tokens settings (Word.spaced words)).map Token.word = words := by
  rw [tokens, map_word_tokensOf, Word.spaced, String.toList_intercalate, List.map_map]
  show (pieces settings ([' '].intercalate (words.map (String.toList ∘ Word.text)))).filterMap _ = _
  have itself (word : Word) :
      Piece.word? ⟨word.text.toList, some (word.kind, word.text.toList)⟩ = some word := by
    simp [Piece.word?]
  induction words with
  | nil => simp [pieces]
  | cons word words ih =>
    obtain ⟨here, later⟩ := List.forall_mem_cons.mp alone
    have ih := ih later
    cases words with
    | nil =>
      have last := pieces_word here (.inl rfl)
      rw [List.append_nil] at last
      simp [last, itself, pieces]
    | cons next words =>
      rw [List.map_cons, List.map_cons, List.intercalate_cons_cons, List.append_assoc]
      rw [Function.comp_apply, List.singleton_append, pieces_word here (.inr ⟨_, rfl⟩),
        pieces_space, List.filterMap_cons_some (itself word), List.filterMap_cons_none rfl]
      exact congrArg (List.cons word) ih

end Source

end ContentSpace

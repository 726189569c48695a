import ContentSpace.Proofs.Source.Partition
import ContentSpace.Proofs.Source.Word

/-!
# Blanks between tokens

The scanners look beyond the piece they find: for the dot of a number, a longer operator, the start
of a comment, the colon of a blob. A blank is none of these. So a piece that ends before a token is
found as well when blanks stand between it and the token, and blanks before a token change no word.
-/

namespace ContentSpace.Source

variable {settings : Settings} {first blank : Char} {inside after more : List Char}

/-! ## Blank characters -/

/-- A blank character is no word character. -/
theorem isWordChar_of_isBlank (white : Text.isBlank blank = true) : isWordChar blank = false := by
  by_contra word
  rw [Bool.not_eq_false, isWordChar, Bool.or_eq_true, Bool.or_eq_true, Char.isAlphanum,
    Bool.or_eq_true] at word
  have small : blank.toNat < 128 := by
    rcases word with ((letter | digit) | score) | dot
    · exact toNat_of_isAlpha letter
    · have bounds := Numeral.toNat_of_isDigit digit
      omega
    · rw [eq_of_beq score]
      decide
    · rw [eq_of_beq dot]
      decide
  have all : ∀ n < 128, Text.isBlank (Char.ofNat n) = true → isWordChar (Char.ofNat n) = false := by
    decide
  have none := all blank.toNat small (by rwa [Char.ofNat_toNat])
  simp [Char.ofNat_toNat, isWordChar, Char.isAlphanum] at none
  simp [none] at word

/-- A blank character is no digit. -/
theorem isDigit_of_isBlank (white : Text.isBlank blank = true) : blank.isDigit = false := by
  have word := isWordChar_of_isBlank white
  simp only [isWordChar, Char.isAlphanum, Bool.or_eq_false_iff] at word
  exact word.1.1.2

/-- A blank character differs from a character that is not blank. -/
theorem ne_of_isBlank (white : Text.isBlank blank = true) {c : Char}
    (visible : Text.isBlank c = false) : blank ≠ c := by
  rintro rfl
  rw [white] at visible
  cases visible

/-! ## What scanners see -/

/-- Characters with a property that end inside a text are found whatever comes after it. -/
theorem takeWhile_append_of_dropWhile_ne_nil {test : Char → Bool}
    (ends : inside.dropWhile test ≠ []) (after : List Char) :
    (inside ++ after).takeWhile test = inside.takeWhile test ∧
      (inside ++ after).dropWhile test = inside.dropWhile test ++ after := by
  have short : (inside.takeWhile test).length ≠ inside.length := by
    have parts := congrArg List.length (List.takeWhile_append_dropWhile (p := test) (l := inside))
    rw [List.length_append] at parts
    have positive := List.length_pos_of_ne_nil ends
    omega
  rw [List.takeWhile_append, if_neg short, List.dropWhile_append, if_neg (by simpa using ends)]
  exact ⟨rfl, rfl⟩

/-- Characters with a property that reach no further than a text are those of the text. -/
theorem takeWhile_append_of_length_le {test : Char → Bool}
    (fits : ((inside ++ after).takeWhile test).length ≤ inside.length) :
    (inside ++ after).takeWhile test = inside.takeWhile test ∧
      (inside ++ after).dropWhile test = inside.dropWhile test ++ after := by
  by_cases ends : inside.dropWhile test = []
  · have all : ∀ c ∈ inside, test c = true := List.dropWhile_eq_nil_iff.mp ends
    rw [List.takeWhile_append_of_pos all, List.dropWhile_append_of_pos all,
      List.takeWhile_eq_self_iff.mpr all, ends]
    rw [List.takeWhile_append_of_pos all, List.length_append] at fits
    have none : after.takeWhile test = [] := List.eq_nil_of_length_eq_zero (by omega)
    have whole := List.takeWhile_append_dropWhile (p := test) (l := after)
    rw [none] at whole
    exact ⟨by rw [none, List.append_nil], whole⟩
  · exact takeWhile_append_of_dropWhile_ne_nil ends after

/-- Characters with a property end where a character without it follows. -/
theorem takeWhile_append_cons {test : Char → Bool} (stops : test blank = false) :
    (inside ++ blank :: more).takeWhile test = inside.takeWhile test ∧
      (inside ++ blank :: more).dropWhile test = inside.dropWhile test ++ blank :: more := by
  apply takeWhile_append_of_length_le
  rw [List.takeWhile_append]
  split
  · simp [stops]
  · exact (List.takeWhile_prefix test).length_le

/-- A character that is neither a quote nor a backslash is in a string. -/
theorem stringBody_cons {c : Char} (noQuote : c ≠ '"') (noEscape : c ≠ '\\') (rest : List Char) :
    stringBody (c :: rest) = (c :: (stringBody rest).1, (stringBody rest).2) := by
  rw [stringBody]
  · exact noQuote
  · exact fun _ _ escape _ => noEscape escape

/-- A string that is closed inside a text is closed there whatever comes after it. -/
theorem stringBody_append {body : List Char} (closed : stringBody (inside ++ after) = (body, true))
    (fits : body.length + 1 ≤ inside.length) (other : List Char) :
    stringBody (inside ++ other) = (body, true) := by
  induction inside using stringBody.induct generalizing body with
  | case1 => cases fits
  | case2 rest => simpa [stringBody] using closed
  | case3 c rest _ _ _ ih =>
    simp only [List.cons_append, stringBody, Prod.mk.injEq] at closed ⊢
    obtain ⟨rfl, closed⟩ := closed
    have shorter : (stringBody (rest ++ after)).1.length + 1 ≤ rest.length := by
      rw [List.length_cons, List.length_cons, List.length_cons, List.length_cons] at fits
      omega
    have same := ih (Prod.ext rfl closed) shorter
    simp [same]
  | case4 c rest noQuote noEscape _ _ _ ih =>
    by_cases escape : c = '\\'
    · -- A backslash at the end of the text keeps a character after it in the string.
      have last : rest = [] := by
        cases rest with
        | nil => rfl
        | cons head tail => exact (noEscape head tail escape rfl).elim
      subst escape last
      cases after with
      | nil => simp [stringBody] at closed
      | cons d after =>
        simp only [List.cons_append, List.nil_append, stringBody, Prod.mk.injEq] at closed
        obtain ⟨rfl, -⟩ := closed
        simp at fits
    · rw [List.cons_append, stringBody_cons noQuote escape, Prod.mk.injEq] at closed
      obtain ⟨rfl, closed⟩ := closed
      have same := ih (Prod.ext rfl closed) (by simpa using fits)
      rw [List.cons_append, stringBody_cons noQuote escape, same]

/-- A string that ends inside a text before more text ends there whatever comes after it. -/
theorem string_append {next : Char} (fits : (stringBody (inside ++ next :: after)).1.length +
      (if (stringBody (inside ++ next :: after)).2 then 1 else 0) ≤ inside.length)
    (other : List Char) :
    stringBody (inside ++ other) = stringBody (inside ++ next :: after) := by
  rcases stringBody_cases (inside ++ next :: after) with ⟨-, -, closed⟩ | ⟨whole, -⟩
  · have body : stringBody (inside ++ next :: after) = (_, true) := Prod.ext rfl closed
    rw [closed, if_pos rfl] at fits
    exact (stringBody_append body fits other).trans body.symm
  · -- Without a closing quote the string would reach beyond the text.
    have length := congrArg List.length whole
    rw [List.length_append, List.length_cons] at length
    omega

/-- A comment has characters as long as there is text. -/
theorem commentLength_pos {text : List Char} (some : text ≠ []) : 0 < commentLength text := by
  induction text using commentLength.induct with
  | case1 => exact absurd rfl some
  | case2 => simp [commentLength]
  | case3 c rest unmarked =>
    rw [commentLength]
    · exact Nat.succ_pos _
    · exact unmarked

/-- A comment that ends inside a text ends there whatever comes after it. -/
theorem commentLength_append (some : after ≠ [])
    (fits : commentLength (inside ++ after) ≤ inside.length) (other : List Char) :
    commentLength (inside ++ other) = commentLength (inside ++ after) := by
  induction inside using commentLength.induct with
  | case1 => exact absurd fits (Nat.not_le_of_lt (commentLength_pos some))
  | case2 rest => simp [commentLength]
  | case3 c rest unmarked ih =>
    cases rest with
    | nil =>
      have longer : 1 < commentLength (c :: after) := by
        unfold commentLength
        split
        next none => cases none
        · exact Nat.one_lt_two
        next same =>
          obtain ⟨rfl, rfl⟩ := List.cons.inj same
          exact Nat.succ_lt_succ (commentLength_pos some)
      exact absurd fits (Nat.not_le_of_lt longer)
    | cons d rest =>
      have next (other : List Char) :
          commentLength (c :: d :: rest ++ other) = commentLength (d :: rest ++ other) + 1 := by
        rw [List.cons_append, commentLength]
        intro tail star slash
        obtain ⟨rfl, -⟩ := List.cons.inj slash
        exact unmarked rest star rfl
      rw [next] at fits ⊢
      rw [next, ih (by simpa using fits)]

/-- A comment that ends inside a text that starts with the second character of its mark ends there
whatever comes after it. -/
theorem comment_append {next : Char} (fits : 1 + commentLength (inside ++ next :: after).tail ≤
      inside.length) (other : List Char) :
    commentLength (inside ++ other).tail = commentLength (inside ++ next :: after).tail := by
  cases inside with
  | nil =>
    rw [List.length_nil] at fits
    omega
  | cons c rest =>
    rw [List.cons_append, List.tail_cons] at fits
    refine commentLength_append (List.cons_ne_nil next after) ?_ other
    rw [List.length_cons] at fits
    omega

/-- A blob has characters as long as there is text. -/
theorem blobLength_pos {depth : Nat} {quoted : Bool} {text : List Char} (some : text ≠ []) :
    0 < blobLength depth quoted text := by
  unfold blobLength
  split
  · exact absurd rfl some
  · exact Nat.succ_pos _
  · exact Nat.succ_pos _
  · split_ifs <;> exact Nat.succ_pos _

/-- A blob that ends inside a text ends there whatever comes after it. -/
theorem blobLength_append {depth : Nat} {quoted : Bool} (some : after ≠ [])
    (fits : blobLength depth quoted (inside ++ after) ≤ inside.length) (other : List Char) :
    blobLength depth quoted (inside ++ other) = blobLength depth quoted (inside ++ after) := by
  induction depth, quoted, inside using blobLength.induct with
  | case1 => exact absurd fits (Nat.not_le_of_lt (blobLength_pos some))
  | case2 depth head rest ih =>
    simp only [List.cons_append, blobLength, List.length_cons, Nat.add_le_add_iff_right] at fits ⊢
    rw [ih (by omega)]
  | case3 depth c rest noEscape ih =>
    by_cases escape : c = '\\'
    · have last : rest = [] := List.eq_nil_iff_forall_not_mem.mpr fun d member => by
        obtain ⟨head, tail, same⟩ := List.exists_cons_of_ne_nil (List.ne_nil_of_mem member)
        exact noEscape head tail escape same
      subst escape last
      obtain ⟨d, after, rfl⟩ := List.exists_cons_of_ne_nil some
      simp [blobLength] at fits
    · have next (other : List Char) : blobLength depth true (c :: rest ++ other) =
          blobLength depth (c != '"') (rest ++ other) + 1 := by
        rw [List.cons_append, blobLength]
        exact fun _ _ same _ => escape same
      rw [next] at fits ⊢
      rw [next, ih (by simpa using fits)]
  | case4 depth rest ih =>
    simp only [List.cons_append, blobLength, if_true, List.length_cons,
      Nat.add_le_add_iff_right] at fits ⊢
    rw [ih fits]
  | case5 depth rest noQuote ih =>
    simp only [List.cons_append, blobLength, if_neg noQuote, if_true, List.length_cons,
      Nat.add_le_add_iff_right] at fits ⊢
    rw [ih fits]
  | case6 depth rest least noQuote noBrace =>
    simp only [List.cons_append, blobLength, if_neg noQuote, if_neg noBrace, if_true, if_pos least]
  | case7 depth rest more noQuote noBrace ih =>
    simp only [List.cons_append, blobLength, if_neg noQuote, if_neg noBrace, if_true, if_neg more,
      List.length_cons, Nat.add_le_add_iff_right] at fits ⊢
    rw [ih fits]
  | case8 depth c rest noQuote noBrace noEnd ih =>
    simp only [List.cons_append, blobLength, if_neg noQuote, if_neg noBrace, if_neg noEnd,
      List.length_cons, Nat.add_le_add_iff_right] at fits ⊢
    rw [ih fits]

/-- Digits after an opening brace are part of a blob. -/
theorem blobLength_digits {depth : Nat} {digits : List Char}
    (digital : ∀ c ∈ digits, c.isDigit = true) (rest : List Char) :
    blobLength depth false (digits ++ rest) = digits.length + blobLength depth false rest := by
  induction digits with
  | nil => simp
  | cons c digits ih =>
    rw [List.forall_mem_cons] at digital
    have bounds := Numeral.toNat_of_isDigit digital.1
    have quote : c ≠ '"' := by rintro rfl; cases digital.1
    have brace : c ≠ '\x7b' := by rintro rfl; cases digital.1
    have ends : c ≠ '\x7d' := by rintro rfl; cases digital.1
    rw [List.cons_append, blobLength, if_neg quote, if_neg brace, if_neg ends, ih digital.2,
      List.length_cons]
    omega

/-- Text after an opening brace makes it a blob with a blank in the text just if it does without the
blank, where the blob ends before the blank. -/
theorem startsBlob_append (white : Text.isBlank blank = true) (some : after ≠ [])
    (fits : startsBlob (inside ++ after) = true →
      blobLength 1 false (inside ++ after) ≤ inside.length) :
    startsBlob (inside ++ blank :: more) = startsBlob (inside ++ after) := by
  have digit := isDigit_of_isBlank white
  by_cases ends : inside.dropWhile Char.isDigit = []
  · -- All of the text is digits, so that the blob reaches beyond it.
    have digits : ∀ c ∈ inside, c.isDigit = true := List.dropWhile_eq_nil_iff.mp ends
    have unblobbed : startsBlob (inside ++ after) = false := by
      by_contra starts
      have short := fits (Bool.not_eq_false _ ▸ starts)
      rw [blobLength_digits digits] at short
      have positive := @blobLength_pos 1 false after some
      omega
    have colon : blank ≠ ':' := ne_of_isBlank white rfl
    obtain ⟨-, left⟩ := @takeWhile_append_cons blank inside more _ digit
    rw [unblobbed, startsBlob, left, ends]
    simp [colon]
  · obtain ⟨taken, left⟩ := takeWhile_append_of_dropWhile_ne_nil ends after
    obtain ⟨takenToo, leftToo⟩ := takeWhile_append_of_dropWhile_ne_nil ends (blank :: more)
    obtain ⟨c, rest, same⟩ := List.exists_cons_of_ne_nil ends
    simp [startsBlob, taken, left, takenToo, leftToo, same]

/-- The digits after a point that end inside a text end there when a blank comes after the text. -/
theorem fraction_append (white : Text.isBlank blank = true)
    (fits : fraction (inside ++ after) ≠ [] →
      (fraction (inside ++ after)).length + 1 ≤ inside.length) :
    fraction (inside ++ blank :: more) = fraction (inside ++ after) := by
  cases inside with
  | nil =>
    have none : fraction after = [] := by
      by_contra some
      exact absurd (fits some) (Nat.not_succ_le_zero _)
    have point : blank ≠ '.' := ne_of_isBlank white rfl
    rw [List.nil_append, List.nil_append, none, fraction]
    rintro rest ⟨⟩
    exact point rfl
  | cons c inside =>
    by_cases point : c = '.'
    · subst point
      have short : ((inside ++ after).takeWhile Char.isDigit).length ≤ inside.length := by
        by_cases none : (inside ++ after).takeWhile Char.isDigit = []
        · simp [none]
        · exact Nat.le_of_succ_le_succ (fits none)
      show (inside ++ blank :: more).takeWhile _ = (inside ++ after).takeWhile _
      rw [(takeWhile_append_of_length_le short).1,
        (takeWhile_append_cons (isDigit_of_isBlank white)).1]
    · have none (rest : List Char) : fraction (c :: rest) = [] := by
        rw [fraction]
        rintro rest ⟨⟩
        exact point rfl
      rw [List.cons_append, List.cons_append, none, none]

/-- A number goes on with its digits, and with a point if there are digits after it. -/
theorem length_numberExtent (first : Char) (rest : List Char) :
    (numberExtent first rest).length = (rest.takeWhile Char.isDigit).length +
      if fraction (rest.dropWhile Char.isDigit) = [] then 0
      else (fraction (rest.dropWhile Char.isDigit)).length + 1 := by
  rw [numberExtent]
  cases decimals : fraction (rest.dropWhile Char.isDigit) with
  | nil => rfl
  | cons c others => simp; omega

/-- A number that ends inside a text ends there when a blank comes after the text. -/
theorem numberExtent_append (white : Text.isBlank blank = true)
    (fits : (numberExtent first (inside ++ after)).length ≤ inside.length) :
    numberExtent first (inside ++ blank :: more) = numberExtent first (inside ++ after) := by
  rw [length_numberExtent] at fits
  obtain ⟨whole, left⟩ := takeWhile_append_of_length_le (Nat.le_of_add_right_le fits)
  obtain ⟨wholeToo, leftToo⟩ :=
    @takeWhile_append_cons blank inside more _ (isDigit_of_isBlank white)
  rw [whole, left] at fits
  have parts := congrArg List.length
    (List.takeWhile_append_dropWhile (p := Char.isDigit) (l := inside))
  rw [List.length_append] at parts
  have decimals : fraction (inside.dropWhile Char.isDigit ++ blank :: more) =
      fraction (inside.dropWhile Char.isDigit ++ after) := by
    refine fraction_append white fun some => ?_
    rw [if_neg some] at fits
    omega
  rw [numberExtent, numberExtent, wholeToo, whole, leftToo, left, decimals]

/-- A word that ends inside a text ends there when a blank comes after the text. -/
theorem wordExtent_append (white : Text.isBlank blank = true)
    (fits : (wordExtent settings first (inside ++ after)).length ≤ inside.length) :
    wordExtent settings first (inside ++ blank :: more) =
      wordExtent settings first (inside ++ after) := by
  have word : (inside ++ after).takeWhile isWordChar = inside.takeWhile isWordChar :=
    (takeWhile_append_of_length_le (by simpa [wordExtent] using fits)).1
  rw [wordExtent, wordExtent, word, (takeWhile_append_cons (isWordChar_of_isBlank white)).1]

/-- An operator that begins before a blank ends before it. -/
theorem isPrefix_of_operator (white : Text.isBlank blank = true) {operator : String}
    (member : operator ∈ operators) (begins : operator.toList <+: inside ++ blank :: more) :
    operator.toList <+: inside := by
  have visible : (operators.all fun operator => operator.toList.all (!Text.isBlank ·)) = true := by
    decide
  refine List.prefix_of_prefix_length_le begins (List.prefix_append ..) ?_
  by_contra longer
  have reaches : inside ++ [blank] <+: operator.toList := by
    refine List.prefix_of_prefix_length_le ?_ begins (by simp; omega)
    exact (List.prefix_append_right_inj inside).mpr ⟨more, rfl⟩
  have absent := List.all_eq_true.mp (List.all_eq_true.mp visible operator member) blank
    (reaches.subset (by simp))
  rw [white] at absent
  cases absent

/-- What is found first among more is found first among less, if it is there. -/
theorem find?_of_imp {α : Type} {test testToo : α → Bool} {items : List α}
    (fewer : ∀ item ∈ items, testToo item = true → test item = true)
    (kept : ∀ item, items.find? test = some item → testToo item = true) :
    items.find? testToo = items.find? test := by
  induction items with
  | nil => rfl
  | cons item items ih =>
    rw [List.forall_mem_cons] at fewer
    by_cases passes : test item = true
    · rw [List.find?_cons_of_pos passes] at kept ⊢
      exact List.find?_cons_of_pos (kept item rfl)
    · rw [List.find?_cons_of_neg passes] at kept ⊢
      rw [List.find?_cons_of_neg fun passesToo => passes (fewer.1 passesToo)]
      exact ih fewer.2 kept

/-- An operator that ends inside a text ends there when a blank comes after the text. -/
theorem operatorExtent_append (white : Text.isBlank blank = true)
    (fits : (operatorExtent first (inside ++ after)).length ≤ inside.length) :
    operatorExtent first (inside ++ blank :: more) = operatorExtent first (inside ++ after) := by
  have same : (operators.find? fun operator =>
        operator.toList.isPrefixOf (first :: (inside ++ blank :: more))) =
      operators.find? fun operator =>
        operator.toList.isPrefixOf (first :: (inside ++ after)) := by
    refine find?_of_imp (fun operator member begins => ?_) (fun operator found => ?_)
    · rw [List.isPrefixOf_iff_prefix] at begins ⊢
      rw [← List.cons_append] at begins ⊢
      exact (isPrefix_of_operator white member begins).trans (List.prefix_append ..)
    · have begins : operator.toList.isPrefixOf (first :: (inside ++ after)) = true :=
        List.find?_some (p := fun operator : String => operator.toList.isPrefixOf _) found
      unfold operatorExtent at fits
      rw [found] at fits
      rw [List.isPrefixOf_iff_prefix] at begins ⊢
      rw [← List.cons_append] at begins ⊢
      have within : operator.toList <+: first :: inside :=
        List.prefix_of_prefix_length_le begins (List.prefix_append ..) (by simp at fits ⊢; omega)
      exact within.trans (List.prefix_append ..)
  rw [operatorExtent, operatorExtent, same]

/-- A comment to the end of its line that ends inside a text before a token ends there whatever
comes after it. -/
theorem lineComment_append {next : Char} (visible : Text.isBlank next = false)
    (fits : ((inside ++ next :: after).takeWhile (· != '\n')).length ≤ inside.length)
    (other : List Char) :
    (inside ++ other).takeWhile (· != '\n') = (inside ++ next :: after).takeWhile (· != '\n') := by
  obtain ⟨taken, left⟩ := takeWhile_append_of_length_le fits
  have ends : inside.dropWhile (· != '\n') ≠ [] := by
    intro none
    -- The comment would end at the token, which is no line break.
    have stops := List.head?_dropWhile_not (· != '\n') (inside ++ next :: after)
    rw [left, none] at stops
    simp only [List.nil_append, List.head?_cons, bne_eq_false_iff_eq] at stops
    rw [stops] at visible
    cases visible
  rw [taken, (takeWhile_append_of_dropWhile_ne_nil ends other).1]

/-! ## Pieces before blanks -/

/-- What a text starts with is no matter of what comes after it, unless the text is empty. -/
theorem head?_append_blank (white : Text.isBlank blank = true) {next mark : Char}
    (visible : Text.isBlank mark = false)
    (some : (inside ++ next :: after).head? = some mark → inside ≠ []) :
    (inside ++ blank :: more).head? = .some mark ↔
      (inside ++ next :: after).head? = .some mark := by
  cases inside with
  | nil =>
    have different : blank ≠ mark := ne_of_isBlank white visible
    exact iff_of_false (by simpa using different) fun ahead => some ahead rfl
  | cons c rest => rfl

/-- Two choices between pieces are equal when the pieces of the one that is short are. -/
theorem ite_of_fits {condition : Prop} [Decidable condition] {yes yesToo no noToo : Extent}
    {room : Nat} (fits : (if condition then yes else no).length ≤ room)
    (same : yes.length ≤ room → yesToo = yes) (sameToo : no.length ≤ room → noToo = no) :
    (if condition then yesToo else noToo) = if condition then yes else no := by
  split at fits
  next holds => rw [if_pos holds, if_pos holds, same fits]
  next fails => rw [if_neg fails, if_neg fails, sameToo fits]

/-- A piece that ends inside a text before a token ends there when a blank comes after the text. -/
theorem extent_append_blank (white : Text.isBlank blank = true) {next : Char}
    (visible : Text.isBlank next = false)
    (fits : (extent settings first (inside ++ next :: after)).length ≤ inside.length) :
    extent settings first (inside ++ blank :: more) =
      extent settings first (inside ++ next :: after) := by
  have line : first = '/' ∧ (inside ++ blank :: more).head? = some '/' ↔
      first = '/' ∧ (inside ++ next :: after).head? = some '/' := by
    refine and_congr_right fun slash => head?_append_blank white rfl fun ahead => ?_
    rintro rfl
    obtain rfl := Option.some.inj ahead
    simp [extent, slash, show Text.isBlank '/' = false from rfl] at fits
  have block : first = '/' ∧ (inside ++ blank :: more).head? = some '*' ↔
      first = '/' ∧ (inside ++ next :: after).head? = some '*' := by
    refine and_congr_right fun slash => head?_append_blank white rfl fun ahead => ?_
    rintro rfl
    obtain rfl := Option.some.inj ahead
    simp [extent, slash, show Text.isBlank '/' = false from rfl] at fits
  have blob : first = '\x7b' ∧ startsBlob (inside ++ blank :: more) = true ↔
      first = '\x7b' ∧ startsBlob (inside ++ next :: after) = true := by
    refine and_congr_right fun brace => ?_
    rw [startsBlob_append white (List.cons_ne_nil next after) fun starts => ?_]
    simpa [extent, brace, starts, show Text.isBlank '\x7b' = false from rfl] using fits
  unfold extent at fits ⊢
  simp only [line, block, blob]
  -- One step for each kind of piece, in the order in which they are looked for.
  refine ite_of_fits fits (fun _ => rfl) fun fits => ?_
  refine ite_of_fits fits (fun fits => ?_) fun fits => ?_
  · rw [lineComment_append visible fits]
  refine ite_of_fits fits (fun fits => ?_) fun fits => ?_
  · rw [comment_append fits]
  refine ite_of_fits fits (fun fits => ?_) fun fits => ?_
  · rw [string_append fits]
  refine ite_of_fits fits (fun fits => ?_) fun fits => ?_
  · have length := blobLength_append (List.cons_ne_nil next after) fits (blank :: more)
    simp only [length, List.take_append_of_le_length fits]
  refine ite_of_fits fits (numberExtent_append white) fun fits => ?_
  refine ite_of_fits fits (wordExtent_append white) fun fits => ?_
  exact ite_of_fits fits (fun _ => rfl) (operatorExtent_append white)

/-- Pieces before a token stay what they are when blanks come between them and the token. -/
theorem pieces_append_blank (white : Text.isBlank blank = true) {next : Char}
    (visible : Text.isBlank next = false) {front : List Piece}
    (split : pieces settings (front.flatMap Piece.raw ++ next :: after) =
      front ++ pieces settings (next :: after)) (more : List Char) :
    pieces settings (front.flatMap Piece.raw ++ blank :: more) =
      front ++ pieces settings (blank :: more) := by
  induction front with
  | nil => rfl
  | cons piece front ih =>
    rw [List.flatMap_cons] at split ⊢
    cases text : piece.raw ++ front.flatMap Piece.raw ++ next :: after with
    | nil => simp at text
    | cons c rest =>
      rw [text, pieces, List.cons_append] at split
      obtain ⟨rfl, later⟩ := List.cons.inj split
      dsimp only at text ⊢
      -- What the first piece leaves is where the others start.
      have cut : rest.drop (extent settings c rest).length =
          front.flatMap Piece.raw ++ next :: after := by
        rw [List.cons_append, List.cons_append, List.cons.injEq, List.append_assoc] at text
        exact (List.append_cancel_left (text.2.trans
          (List.take_append_drop (extent settings c rest).length rest).symm)).symm
      have whole : rest.take (extent settings c rest).length ++ front.flatMap Piece.raw ++
          next :: after = rest := by
        rw [List.append_assoc, ← cut, List.take_append_drop]
      have length : (rest.take (extent settings c rest).length).length =
          (extent settings c rest).length := by
        have some := congrArg List.length cut
        rw [List.length_drop, List.length_append, List.length_cons] at some
        rw [List.length_take]
        omega
      have found : extent settings c (rest.take (extent settings c rest).length ++
          front.flatMap Piece.raw ++ blank :: more) = extent settings c rest := by
        refine (extent_append_blank white visible ?_).trans (congrArg _ whole)
        rw [whole, List.length_append, length]
        exact Nat.le_add_right _ _
      rw [List.cons_append, List.cons_append, pieces, found, List.append_assoc,
        List.take_left' length, List.drop_left' length, ih (cut ▸ later), List.cons_append]

/-- Blanks are no words. -/
theorem words_blanks {blanks : List Char} (white : ∀ c ∈ blanks, Text.isBlank c = true)
    (rest : List Char) :
    (pieces settings (blanks ++ rest)).filterMap Piece.word? =
      (pieces settings rest).filterMap Piece.word? := by
  induction blanks with
  | nil => rfl
  | cons c blanks ih =>
    rw [List.forall_mem_cons] at white
    have found : extent settings c (blanks ++ rest) = ⟨0, none⟩ := if_pos white.1
    rw [List.cons_append, pieces, found]
    exact ih white.2

/-- Blanks between pieces and a token change no words. -/
theorem words_append_blanks {next : Char} (visible : Text.isBlank next = false)
    {front : List Piece}
    (split : pieces settings (front.flatMap Piece.raw ++ next :: after) =
      front ++ pieces settings (next :: after))
    {blanks : List Char} (white : ∀ c ∈ blanks, Text.isBlank c = true) :
    (pieces settings (front.flatMap Piece.raw ++ (blanks ++ next :: after))).filterMap Piece.word? =
      (pieces settings (front.flatMap Piece.raw ++ next :: after)).filterMap Piece.word? := by
  cases blanks with
  | nil => rfl
  | cons blank blanks =>
    have parts := pieces_append_blank (white blank List.mem_cons_self) visible split
      (blanks ++ next :: after)
    rw [List.cons_append, parts, split, List.filterMap_append, List.filterMap_append,
      ← List.cons_append, words_blanks white]

/-- The pieces from one on are the pieces of what they are made of. -/
theorem pieces_of_append {text : List Char} {front back : List Piece}
    (split : pieces settings text = front ++ back) :
    pieces settings (back.flatMap Piece.raw) = back := by
  induction front generalizing text with
  | nil =>
    rw [List.nil_append] at split
    rw [← split, flatMap_raw_pieces]
  | cons piece front ih =>
    cases text with
    | nil => simp [pieces] at split
    | cons c rest =>
      rw [pieces, List.cons_append] at split
      exact ih (List.cons.inj split).2

/-- A token is a piece that starts where the pieces before it end. -/
theorem exists_front_of_mem_tokensOf {place : Place} {all : List Piece} {token : Token}
    (member : token ∈ tokensOf place all) :
    ∃ front piece back, all = front ++ piece :: back ∧ piece.token ≠ none ∧
      token.span.start = (place.after (front.flatMap Piece.raw)).offset := by
  induction all generalizing place with
  | nil => cases member
  | cons piece rest ih =>
    have later {place : Place} (member : token ∈ tokensOf (place.after piece.raw) rest) :
        ∃ front found back, piece :: rest = front ++ found :: back ∧ found.token ≠ none ∧
          token.span.start = (place.after (front.flatMap Piece.raw)).offset := by
      obtain ⟨front, found, back, split, some, start⟩ := ih member
      refine ⟨piece :: front, found, back, by rw [split]; rfl, some, ?_⟩
      rw [start, List.flatMap_cons, Place.after_append]
    unfold tokensOf at member
    dsimp only at member
    split at member
    next kind text known =>
      rcases List.mem_cons.mp member with rfl | member
      · exact ⟨[], piece, rest, rfl, by simp [known], rfl⟩
      · exact later member
    next => exact later member

/-- Blanks before a token change no word of a source. -/
theorem map_word_tokens_blanks {before after blanks : String} {token : Token}
    (member : token ∈ tokens settings (before ++ after))
    (start : token.span.start = Text.byteCount before.toList)
    (white : ∀ c ∈ blanks.toList, Text.isBlank c = true) :
    (tokens settings (before ++ blanks ++ after)).map Token.word =
      (tokens settings (before ++ after)).map Token.word := by
  obtain ⟨front, piece, back, split, some, offset⟩ := exists_front_of_mem_tokensOf member
  have raw := flatMap_raw_pieces settings (before ++ after).toList
  rw [split, List.flatMap_append, String.toList_append] at raw
  rw [offset, Place.after_start] at start
  -- The pieces before the token make up the text before it.
  have same : front.flatMap Piece.raw = before.toList := by
    have left :=
      Text.takeBytes?_append (front.flatMap Piece.raw) ((piece :: back).flatMap Piece.raw)
    rw [raw, show Text.byteCount (front.flatMap Piece.raw) = _ from start,
      Text.takeBytes?_append] at left
    exact (Option.some.inj left).symm
  have rest : (piece :: back).flatMap Piece.raw = after.toList :=
    List.append_cancel_left ((congrArg (· ++ _) same).symm.trans raw)
  have later := pieces_of_append split
  rw [rest] at later
  cases characters : after.toList with
  | nil =>
    rw [characters] at later
    simp [pieces] at later
  | cons next others =>
    rw [characters] at later
    have visible : Text.isBlank next = false := by
      by_contra space
      rw [Bool.not_eq_false] at space
      rw [pieces, extent, if_pos space] at later
      obtain ⟨rfl, -⟩ := List.cons.inj later
      exact some rfl
    rw [String.toList_append, characters, ← same, ← later] at split
    rw [tokens, tokens, map_word_tokensOf, map_word_tokensOf]
    simp only [String.toList_append, List.append_assoc, characters, ← same]
    exact words_append_blanks visible split white

end ContentSpace.Source

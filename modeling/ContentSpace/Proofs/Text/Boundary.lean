import ContentSpace.Source.Span

/-!
# Boundaries between characters

An offset into text counts bytes; text can only be cut where one character ends and the next one
begins. What ends a text begins at such a boundary, and cutting at a boundary gives back the parts.
-/

namespace ContentSpace.Text

variable {text front back : List Char} {offset : Nat}

/-- An offset at which no character of a text is cut. -/
def IsBoundary (text : List Char) (offset : Nat) : Prop :=
  ∃ front back, front ++ back = text ∧ byteCount front = offset

/-- A boundary lies inside the text or at its end. -/
theorem IsBoundary.le (boundary : IsBoundary text offset) : offset ≤ byteCount text := by
  obtain ⟨front, back, rfl, rfl⟩ := boundary
  simp

/-- Text takes bytes unless it is empty. -/
theorem byteCount_pos (some : text ≠ []) : 0 < byteCount text := by
  cases text with
  | nil => exact absurd rfl some
  | cons c rest => exact Nat.add_pos_left c.utf8Size_pos _

/-- What ends a text begins at a boundary. -/
theorem isBoundary_of_suffix (suffix : back <:+ text) :
    IsBoundary text (byteCount text - byteCount back) := by
  obtain ⟨front, rfl⟩ := suffix
  exact ⟨front, back, rfl, by simp⟩

/-- The end of a text takes no more bytes than the text. -/
theorem byteCount_le_of_suffix (suffix : back <:+ text) : byteCount back ≤ byteCount text := by
  obtain ⟨front, rfl⟩ := suffix
  simp

/-- Dropping the bytes of the first part leaves the second part. -/
theorem dropBytes?_append (front back : List Char) :
    Span.dropBytes? (byteCount front) (front ++ back) = some back := by
  induction front with
  | nil => simp [Span.dropBytes?]
  | cons c rest ih =>
    have size := c.utf8Size_pos
    obtain ⟨count, more⟩ : ∃ count, byteCount (c :: rest) = count + 1 :=
      ⟨byteCount (c :: rest) - 1, by simp only [byteCount_cons]; omega⟩
    rw [more, List.cons_append, Span.dropBytes?, ← more, byteCount_cons,
      if_pos (Nat.le_add_right _ _), Nat.add_sub_cancel_left, ih]

/-- Taking the bytes of the first part gives the first part. -/
theorem takeBytes?_append (front back : List Char) :
    Span.takeBytes? (byteCount front) (front ++ back) = some front := by
  induction front with
  | nil => simp [Span.takeBytes?]
  | cons c rest ih =>
    have size := c.utf8Size_pos
    obtain ⟨count, more⟩ : ∃ count, byteCount (c :: rest) = count + 1 :=
      ⟨byteCount (c :: rest) - 1, by simp only [byteCount_cons]; omega⟩
    rw [more, List.cons_append, Span.takeBytes?, ← more, byteCount_cons,
      if_pos (Nat.le_add_right _ _), Nat.add_sub_cancel_left, ih]
    rfl

end ContentSpace.Text

import ContentSpace.Proofs.CanonicalText.Stream
import ContentSpace.Proofs.CanonicalText.Cursor.Agreement

/-!
# Cursors are safe on any text

Requests for the next value can go on after refusals, from wherever a refusal left the cursor. Each
request keeps the cursor at a safe moment and moves it forward unless it is at the end. So all
requests are safe, on any text and with any limit, and the end is found after at most as many of
them as there are characters.
-/

namespace ContentSpace.CanonicalText

open Stateful

variable {text : List Char} {limit : Nat}

/-! ## One request to a stream -/

namespace Stream

variable {stream : Stream}

/-- Requests leave the text and the limit as they are. -/
theorem next_keeps (stream : Stream) :
    stream.next.2.text = stream.text ∧ stream.next.2.limit = stream.limit := by
  unfold next
  split
  · exact ⟨rfl, rfl⟩
  · split <;> exact ⟨rfl, rfl⟩

/-- A request before the end takes the next character at least. -/
theorem next_suffix {c : Char} {rest : List Char} (ahead : stream.unread = c :: rest) :
    stream.next.2.unread <:+ rest := by
  simp only [next, ahead]
  split
  next taken found => exact taken.suffix
  next refusal found => exact (within_readFrom (congrArg run found)).left

/-- A request before the end does not find it. -/
theorem next_ne_none {c : Char} {rest : List Char} (ahead : stream.unread = c :: rest) :
    stream.next.1 ≠ .ok none := by
  simp only [next, ahead]
  split <;> simp

/-- A fault blames a place between what a request leaves and where it began. -/
theorem next_blames {fault : Fault} (refused : stream.next.1 = .error fault) :
    ∃ defect blamed,
      fault = .malformed defect (Text.byteCount stream.text - Text.byteCount blamed) ∧
        blamed <:+ stream.unread ∧ stream.next.2.unread <:+ blamed := by
  unfold next at refused ⊢
  split at refused
  · cases refused
  next c rest ahead =>
    split at refused
    · cases refused
    next refusal found =>
      have within := within_readFrom (congrArg run found)
      rw [ahead]
      exact ⟨refusal.defect, refusal.blamed, (Except.error.inj refused).symm, within.blamed,
        within.unread⟩

end Stream

/-! ## One request to a cursor -/

namespace Cursor

variable {cursor : Cursor} {stream : Stream}

/-- A cursor that stands where a stream does answers a request like the stream, and stands where it
does again. -/
theorem next_agrees (whole : stream.text = text) (bound : stream.limit = limit)
    (before : cursor.Before text stream.unread stream.depth) :
    (cursor.next text limit).1 = stream.next.1.mapError .refused ∧
      (cursor.next text limit).2.Before text stream.next.2.unread stream.next.2.depth := by
  obtain ⟨given, unread, depth, most⟩ := stream
  obtain rfl : text = given := whole.symm
  obtain rfl : limit = most := bound.symm
  dsimp only at before ⊢
  have ends := before.byteCount_le_iff
  have shorter := before.suffix.length_le
  cases unread with
  | nil =>
    have ran : (nextValue text limit).run cursor = .ok none cursor := by
      rw [nextValue, run_bind_of_ok run_position, if_pos (ends.mpr rfl)]
      rfl
    simp only [Cursor.next, ran]
    exact ⟨rfl, before⟩
  | cons c rest =>
    have inside : ¬ Text.byteCount text ≤ cursor.now.position := by simp [ends]
    have follows : Follows text depth ((nextValue text limit).run cursor)
        ((run (readValue limit depth (c :: rest))).map fun taken => (some taken.1, taken.2)) := by
      rw [nextValue, run_bind_of_ok run_position, if_neg inside]
      exact (follows_value before (Nat.lt_succ_of_le (Nat.mul_le_mul_left 2 shorter))).map some
    rw [run_readValue] at follows
    dsimp only at follows
    simp only [Cursor.next, Stream.next]
    generalize (nextValue text limit).run cursor = result at follows ⊢
    cases found : readFrom limit depth c rest with
    | ok taken =>
      rw [found] at follows
      cases follows with
      | took later => exact ⟨rfl, later⟩
    | error refusal =>
      rw [found] at follows
      cases follows with
      | refused later => exact ⟨rfl, later⟩

end Cursor

/-! ## All requests -/

/-- The stream over a text after a number of requests for the next value. -/
def Stream.requested (limit : Nat) (text : List Char) : (requests : Nat) → Stream
  | 0 => ofText limit text
  | requests + 1 => (requested limit text requests).next.2

/-- The cursor on a text after a number of requests for the next value. -/
def Cursor.requested (limit : Nat) (text : List Char) : (requests : Nat) → Cursor
  | 0 => {}
  | requests + 1 => ((requested limit text requests).next text limit).2

/-- No request changes the text or the limit. -/
theorem Stream.requested_keeps (limit : Nat) (text : List Char) (requests : Nat) :
    (requested limit text requests).text = text ∧
      (requested limit text requests).limit = limit := by
  induction requests with
  | zero => exact ⟨rfl, rfl⟩
  | succ requests ih =>
    have kept := (requested limit text requests).next_keeps
    exact ⟨kept.1.trans ih.1, kept.2.trans ih.2⟩

/-- Cursor and stream stand at the same place after as many requests. -/
theorem Cursor.before_requested (limit : Nat) (text : List Char) (requests : Nat) :
    (requested limit text requests).Before text (Stream.requested limit text requests).unread
      (Stream.requested limit text requests).depth := by
  induction requests with
  | zero => exact .split [] [] rfl (Nat.zero_le _) nofun
  | succ requests ih =>
    obtain ⟨whole, bound⟩ := Stream.requested_keeps limit text requests
    exact (next_agrees whole bound ih).2

/-- Each request leaves one character less, as long as there are any. -/
theorem Stream.length_requested (limit : Nat) (text : List Char) (requests : Nat) :
    (requested limit text requests).unread.length ≤ text.length - requests := by
  induction requests with
  | zero => exact Nat.le_refl _
  | succ requests ih =>
    rw [requested]
    cases ahead : (requested limit text requests).unread with
    | nil => simp [next, ahead]
    | cons c rest =>
      have left := (next_suffix ahead).length_le
      rw [ahead, List.length_cons] at ih
      omega

/-- What holds of a request for the next value by a cursor on a text, beside the same request to a
stream. -/
structure Cursor.Sound (limit : Nat) (text : List Char) (cursor : Cursor) (stream : Stream) :
    Prop where
  /-- Both stand at the same place. -/
  stands : cursor.now = ⟨stream.position, stream.depth⟩
  /-- Both give the same answer, so the cursor never halts without a fault of the text. -/
  answers : (cursor.next text limit).1 = stream.next.1.mapError .refused
  /-- At every moment up to the answer, the text is cut between characters and no more arrays and
  objects are open than were opened in what was read. -/
  safe : ∀ moment ∈ (cursor.next text limit).2.moments, moment.Safe text
  /-- The end is found where the text ends. -/
  ends : stream.next.1 = .ok none ↔ stream.position = Text.byteCount text
  /-- Before the end, each request moves forward. -/
  forward : stream.next.1 ≠ .ok none → stream.position < stream.next.2.position
  /-- What a fault blames lies between two characters that the request has come past. -/
  blames : ∀ fault, stream.next.1 = .error fault → ∃ defect offset,
    fault = .malformed defect offset ∧ Text.IsBoundary text offset ∧
      stream.position ≤ offset ∧ offset ≤ stream.next.2.position

namespace Cursor

variable {cursor : Cursor} {stream : Stream}

/-- A request is sound wherever cursor and stream stand together. -/
theorem sound_of_before (whole : stream.text = text) (bound : stream.limit = limit)
    (before : cursor.Before text stream.unread stream.depth) : cursor.Sound limit text stream := by
  have part : stream.unread <:+ text := before.suffix
  have fits := Text.byteCount_le_of_suffix part
  have keeps : stream.next.2.text = text := stream.next_keeps.1.trans whole
  have agree := next_agrees whole bound before
  have position : stream.position = Text.byteCount text - Text.byteCount stream.unread := by
    rw [Stream.position, whole]
  have later : stream.next.2.position =
      Text.byteCount text - Text.byteCount stream.next.2.unread := by
    rw [Stream.position, keeps]
  refine ⟨?stands, agree.1, agree.2.safe, ?ends, ?forward, ?blames⟩
  case stands =>
    rw [position, ← before.position_eq, ← before.depth_eq]
  case ends =>
    cases ahead : stream.unread with
    | nil => simp [position, ahead, Stream.next_of_nil ahead]
    | cons c rest =>
      have size := Text.byteCount_pos (List.cons_ne_nil c rest)
      rw [ahead] at position fits
      exact iff_of_false (Stream.next_ne_none ahead) (by omega)
  case forward =>
    intro more
    cases ahead : stream.unread with
    | nil => exact absurd (congrArg Prod.fst (Stream.next_of_nil ahead)) more
    | cons c rest =>
      have size := c.utf8Size_pos
      have left := Text.byteCount_le_of_suffix (Stream.next_suffix ahead)
      rw [ahead, Text.byteCount_cons] at position fits
      omega
  case blames =>
    intro fault refused
    obtain ⟨defect, blamed, rfl, begins, leaves⟩ := Stream.next_blames refused
    have least := Text.byteCount_le_of_suffix leaves
    have most := Text.byteCount_le_of_suffix begins
    rw [whole]
    exact ⟨defect, _, rfl, Text.isBoundary_of_suffix (begins.trans part), by omega, by omega⟩

/-- Requests for the next value are safe on every text, with every limit, and go on after refusals
as they do after values. No request cuts the text inside a character, leaves more arrays and objects
than were opened or goes on forever. A request before the end moves forward, so after as many
requests as there are characters the end is found. -/
theorem requested_sound (limit : Nat) (text : List Char) (requests : Nat) :
    (requested limit text requests).Sound limit text (Stream.requested limit text requests) ∧
      (text.length ≤ requests → (Stream.requested limit text requests).next.1 = .ok none) := by
  obtain ⟨whole, bound⟩ := Stream.requested_keeps limit text requests
  refine ⟨sound_of_before whole bound (before_requested limit text requests), fun enough => ?_⟩
  have none := Stream.length_requested limit text requests
  rw [Nat.sub_eq_zero_of_le enough, Nat.le_zero, List.length_eq_zero_iff] at none
  rw [Stream.next_of_nil none]

/-- Two marks of arrays are one too many for the limit. The refusal leaves both open, the next
request goes on with the character after them, and the third of the requests finds the end. -/
theorem requested_sound_too_deep :
    let text := "⟦⟦x".toList
    (requested 1 text 1).now = ⟨6, 2⟩ ∧ (requested 1 text 2).now = ⟨7, 2⟩ ∧
      (requested 1 text 1).Sound 1 text (Stream.requested 1 text 1) ∧
      text.length ≤ 3 ∧ (Stream.requested 1 text 3).next.1 = .ok none := by
  intro text
  have three : text.length ≤ 3 := by decide
  exact ⟨by decide +kernel, by decide +kernel, (requested_sound 1 text 1).1, three,
    (requested_sound 1 text 3).2 three⟩

end Cursor

end ContentSpace.CanonicalText

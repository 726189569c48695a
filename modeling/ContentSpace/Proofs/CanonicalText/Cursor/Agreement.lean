import ContentSpace.Proofs.CanonicalText.Cursor.Basic
import ContentSpace.Proofs.CanonicalText.Refusal
import ContentSpace.Proofs.Stateful
import ContentSpace.Proofs.Text.Boundary

/-!
# Cursors follow readers

A cursor that stands at the start of a source does what the reader of this source does: it gives the
same value and stands at the same rest, or is refused for the same defect at the same place. On the
way it never halts for another reason. Each step keeps that the text is cut between characters and
that no more arrays and objects are open than were opened, so this holds of every moment.
-/

namespace ContentSpace.CanonicalText

open Stateful

variable {α β : Type} {text source : List Char} {depth : Nat} {cursor : Cursor}

/-- How often arrays and objects are opened in a text. -/
def opened (text : List Char) : Nat := text.countP fun c => c = arrayOpen ∨ c = objectOpen

/-- At a safe moment no character is cut, and no more is open than was opened before. -/
def Moment.Safe (text : List Char) (moment : Moment) : Prop :=
  ∃ front back, front ++ back = text ∧ Text.byteCount front = moment.position ∧
    moment.depth ≤ opened front

/-- A cursor stands before a part of a text that was not read yet, at a certain depth, and all its
moments were safe. -/
inductive Cursor.Before (text unread : List Char) (depth : Nat) : Cursor → Prop where
  /-- The text falls into what was read and what was not. -/
  | split (front : List Char) (past : List Moment) :
      front ++ unread = text → depth ≤ opened front → (∀ moment ∈ past, moment.Safe text) →
        Before text unread depth ⟨⟨Text.byteCount front, depth⟩, past⟩

/-- Steps of a cursor do what a reader does. -/
inductive Follows (text : List Char) (depth : Nat) :
    EStateM.Result Halt Cursor α → Except Refusal (α × List Char) → Prop where
  /-- Both take the same and leave the same. -/
  | took {value : α} {rest : List Char} {cursor : Cursor} :
      cursor.Before text rest depth → Follows text depth (.ok value cursor) (.ok (value, rest))
  /-- Both are refused for the same. -/
  | refused {refusal : Refusal} {cursor : Cursor} :
      cursor.Before text refusal.unread refusal.depth →
        Follows text depth (.error (.refused (refusal.fault text)) cursor) (.error refusal)

namespace Cursor

/-- Asking for the position takes nothing. -/
@[simp] theorem run_position : position.run cursor = .ok cursor.now.position cursor := rfl

/-- The cursor with one more array or object open. -/
def entered (cursor : Cursor) : Cursor :=
  ⟨{ cursor.now with depth := cursor.now.depth + 1 }, cursor.moments⟩

namespace Before

/-- The present moment is safe as well. -/
theorem safe (before : cursor.Before text source depth) :
    ∀ moment ∈ cursor.moments, moment.Safe text := by
  obtain ⟨front, past, split, bounded, safe⟩ := before
  exact List.forall_mem_cons.mpr ⟨⟨front, source, split, rfl, bounded⟩, safe⟩

/-- What was not read ends the text. -/
theorem suffix (before : cursor.Before text source depth) : source <:+ text := by
  obtain ⟨front, past, split, bounded, safe⟩ := before
  exact ⟨front, split⟩

/-- The depth is the one that the cursor counts. -/
theorem depth_eq (before : cursor.Before text source depth) : cursor.now.depth = depth := by
  obtain ⟨front, past, split, bounded, safe⟩ := before
  rfl

/-- The position is the number of bytes before what was not read. -/
theorem position_eq (before : cursor.Before text source depth) :
    cursor.now.position = Text.byteCount text - Text.byteCount source := by
  obtain ⟨front, past, rfl, bounded, safe⟩ := before
  simp

/-- The cursor is at the end of the text when nothing is left unread. -/
theorem byteCount_le_iff (before : cursor.Before text source depth) :
    Text.byteCount text ≤ cursor.now.position ↔ source = [] := by
  obtain ⟨front, past, rfl, bounded, safe⟩ := before
  rw [Text.byteCount_append]
  refine ⟨fun ends => ?_, fun none => by simp [none]⟩
  cases source with
  | nil => rfl
  | cons c rest =>
    have more := Text.byteCount_pos (List.cons_ne_nil c rest)
    dsimp only at ends
    omega

/-- Text can be cut where the cursor stands. -/
theorem run_unread (before : cursor.Before text source depth) :
    (unread text).run cursor = .ok source cursor := by
  obtain ⟨front, past, rfl, bounded, safe⟩ := before
  rw [unread, run_get_bind]
  dsimp only
  rw [Text.dropBytes?_append]
  rfl

/-- Going forward over what was read keeps every moment safe. After an opening mark there is one
more array or object that can be entered. -/
theorem run_advance (read : List Char) {rest : List Char}
    (before : cursor.Before text (read ++ rest) depth) :
    ∃ after, (advance (Text.byteCount read)).run cursor = .ok () after ∧
      after.Before text rest depth ∧
        (opened read ≠ 0 → after.entered.Before text rest (depth + 1)) := by
  have safe := before.safe
  obtain ⟨front, past, rfl, bounded, -⟩ := before
  have more : opened (front ++ read) = opened front + opened read := by simp [opened]
  have here : Before (front ++ (read ++ rest)) rest depth
      ⟨⟨Text.byteCount (front ++ read), depth⟩, ⟨Text.byteCount front, depth⟩ :: past⟩ :=
    .split _ _ (by simp) (by omega) safe
  have deeper (opens : opened read ≠ 0) : Before (front ++ (read ++ rest)) rest (depth + 1)
      (entered ⟨⟨Text.byteCount (front ++ read), depth⟩, ⟨Text.byteCount front, depth⟩ :: past⟩) :=
    .split _ _ (by simp) (by omega) here.safe
  rw [Text.byteCount_append] at here deeper
  exact ⟨_, rfl, here, deeper⟩

/-- No character is read at the end. -/
theorem run_bump_nil (before : cursor.Before text [] depth) :
    (bump text).run cursor = .ok none cursor := by
  rw [bump, run_bind_of_ok before.run_unread]
  rfl

/-- The first character of what was not read is read. -/
theorem run_bump_cons {c : Char} {rest : List Char}
    (before : cursor.Before text (c :: rest) depth) :
    ∃ after, (bump text).run cursor = .ok (some c) after ∧ after.Before text rest depth ∧
      (c = arrayOpen ∨ c = objectOpen → after.entered.Before text rest (depth + 1)) := by
  obtain ⟨after, ran, later, opens⟩ := run_advance [c] before
  refine ⟨after, ?_, later, fun marked => opens (by simp [opened, marked])⟩
  rw [bump, run_bind_of_ok before.run_unread]
  exact run_bind_of_ok ran

/-- A character that does not come next is not read. -/
theorem run_eat_ne {expected : Char} (before : cursor.Before text source depth)
    (other : source.head? ≠ some expected) :
    (eat text expected).run cursor = .ok false cursor := by
  rw [eat, run_bind_of_ok before.run_unread, if_neg other]
  rfl

/-- A character that comes next is read. -/
theorem run_eat_cons {expected : Char} {rest : List Char}
    (before : cursor.Before text (expected :: rest) depth) :
    ∃ after, (eat text expected).run cursor = .ok true after ∧ after.Before text rest depth := by
  obtain ⟨after, ran, later, -⟩ := run_advance [expected] before
  refine ⟨after, ?_, later⟩
  rw [eat, run_bind_of_ok before.run_unread, List.head?_cons, if_pos rfl]
  exact run_bind_of_ok ran

/-- What was entered can be left. -/
theorem run_leave (before : cursor.Before text source (depth + 1)) :
    ∃ after, leave.run cursor = .ok () after ∧ after.Before text source depth := by
  have safe := before.safe
  obtain ⟨front, past, split, bounded, -⟩ := before
  exact ⟨_, rfl, .split front _ split (by omega) safe⟩

end Before

end Cursor

open Cursor

/-- Steps in a row follow readers in a row. -/
theorem Follows.bind {inner : Nat} {walk : Walk α} {next : α → Walk β}
    {outcome : Except Refusal (α × List Char)}
    {later : α × List Char → Except Refusal (β × List Char)}
    (first : Follows text inner (walk.run cursor) outcome)
    (second : ∀ value rest after, outcome = .ok (value, rest) → after.Before text rest inner →
      Follows text depth ((next value).run after) (later (value, rest))) :
    Follows text depth ((walk >>= next).run cursor) (outcome >>= later) := by
  generalize ran : walk.run cursor = result at first
  cases first with
  | took before =>
    rw [run_bind_of_ok ran]
    exact second _ _ _ rfl before
  | refused before =>
    rw [run_bind_of_error ran]
    exact .refused before

/-- What was taken is changed by a function. -/
theorem Follows.map {walk : Walk α} {outcome : Except Refusal (α × List Char)}
    (follows : Follows text depth (walk.run cursor) outcome) (f : α → β) :
    Follows text depth ((walk >>= fun value => pure (f value)).run cursor)
      (outcome.map fun taken => (f taken.1, taken.2)) := by
  generalize ran : walk.run cursor = result at follows
  cases follows with
  | took before =>
    rw [run_bind_of_ok ran]
    exact .took before
  | refused before =>
    rw [run_bind_of_error ran]
    exact .refused before

/-- Steps after a certain character, or else without it, follow a reader. -/
theorem Cursor.Before.eat {expected : Char} {yes no : Walk α}
    {outcome : Except Refusal (α × List Char)} (before : cursor.Before text source depth)
    (taken : ∀ rest after, source = expected :: rest → after.Before text rest depth →
      Follows text depth (yes.run after) outcome)
    (left : source.head? ≠ some expected → Follows text depth (no.run cursor) outcome) :
    Follows text depth
      ((Cursor.eat text expected >>= fun found => if found then yes else no).run cursor)
      outcome := by
  by_cases comes : source.head? = some expected
  · obtain ⟨rest, rfl⟩ := List.head?_eq_some_iff.mp comes
    obtain ⟨after, ran, later⟩ := before.run_eat_cons
    rw [run_bind_of_ok ran]
    exact taken rest after rfl later
  · rw [run_bind_of_ok (before.run_eat_ne comes)]
    exact left comes

/-- A refusal at the place to blame. -/
theorem follows_refuse (refusal : Refusal) {offset : Nat}
    (before : cursor.Before text refusal.unread refusal.depth)
    (place : offset = Text.byteCount text - Text.byteCount refusal.blamed) :
    Follows text depth ((refuse refusal.defect offset : Walk α).run cursor) (.error refusal) := by
  subst place
  exact .refused before

/-! ## Text and numbers -/

/-- The characters of text are followed up to their closing quote. -/
theorem follows_chars {opening : List Char} {start steps : Nat}
    (place : start = Text.byteCount text - Text.byteCount opening)
    (before : cursor.Before text source depth) (enough : source.length < steps) :
    Follows text depth ((chars text start steps).run cursor)
      (run (readChars opening depth source)) := by
  induction steps generalizing source cursor with
  | zero => omega
  | succ steps ih =>
    rw [run_readChars, chars, run_bind_of_ok run_position]
    cases source with
    | nil =>
      rw [run_bind_of_ok before.run_bump_nil]
      exact follows_refuse ⟨.unterminatedString, opening, [], depth⟩ before place
    | cons c rest =>
      obtain ⟨after, ran, later, -⟩ := before.run_bump_cons
      rw [run_bind_of_ok ran]
      dsimp only
      split
      · exact .took later
      split
      · cases rest with
        | nil =>
          rw [run_bind_of_ok later.run_bump_nil]
          exact follows_refuse ⟨.unterminatedString, opening, [], depth⟩ later place
        | cons d rest =>
          obtain ⟨last, ranToo, latest, -⟩ := later.run_bump_cons
          rw [run_bind_of_ok ranToo]
          dsimp only
          split
          · exact (ih latest (by simp at enough; omega)).map (d :: ·)
          · exact follows_refuse ⟨.invalidEscape, c :: d :: rest, rest, depth⟩ latest
              before.position_eq
      · exact (ih later (by simp at enough; omega)).map (c :: ·)

/-- A string is followed up to its closing quote. -/
theorem follows_string {opening : List Char} {start steps : Nat}
    (place : start = Text.byteCount text - Text.byteCount opening)
    (before : cursor.Before text source depth) (enough : source.length < steps) :
    Follows text depth ((string text start steps).run cursor)
      (run (readString opening depth source)) := by
  rw [run_readString]
  exact (follows_chars place before enough).map String.ofList

/-- What is done with a number and the place where it begins follows when it does for the number. -/
theorem follows_number {next : List Char × Nat → Walk β}
    {later : List Char × List Char → Except Refusal (β × List Char)}
    (before : cursor.Before text source depth)
    (second : ∀ digits rest after, after.Before text rest depth →
      Follows text depth
        ((next (digits, Text.byteCount text - Text.byteCount source)).run after)
        (later (digits, rest))) :
    Follows text depth ((number text >>= next).run cursor)
      (run (readNumber depth source) >>= later) := by
  rw [number, bind_assoc, run_bind_of_ok run_position, bind_assoc,
    run_bind_of_ok before.run_unread, run_readNumber]
  have whole := List.takeWhile_append_dropWhile (p := (· != numberEnd)) (l := source)
  have mark := List.head?_dropWhile_not (· != numberEnd) source
  cases found : source.dropWhile (· != numberEnd) with
  | nil =>
    have refused : Follows text depth
        ((refuse .unterminatedNumber cursor.now.position : Walk β).run cursor)
        (.error ⟨.unterminatedNumber, source, source, depth⟩) :=
      follows_refuse ⟨.unterminatedNumber, source, source, depth⟩ before before.position_eq
    exact refused
  | cons c rest =>
    rw [found] at whole mark
    have isEnd : c = numberEnd := by simpa using mark
    subst isEnd
    have split : source = (source.takeWhile (· != numberEnd) ++ [numberEnd]) ++ rest := by
      rw [List.append_assoc]
      exact whole.symm
    have start := before.position_eq
    rw [split] at before
    obtain ⟨after, ran, latest, -⟩ := before.run_advance _
    have bytes : Text.byteCount (source.takeWhile (· != numberEnd) ++ [numberEnd]) =
        Text.byteCount (source.takeWhile (· != numberEnd)) + numberEnd.utf8Size := by simp
    rw [bytes] at ran
    dsimp only
    rw [bind_assoc, run_bind_of_ok ran, start]
    exact second _ _ _ latest

/-- An integer is followed up to its end mark. -/
theorem follows_integer (before : cursor.Before text source depth) :
    Follows text depth ((integer text).run cursor) (run (readInteger depth source)) := by
  rw [integer, run_readInteger]
  refine follows_number before fun digits rest after later => ?_
  dsimp only
  split
  · split
    · exact .took later
    · exact follows_refuse ⟨.integerOutOfRange (String.ofList digits), source, rest, depth⟩ later rfl
  · exact follows_refuse ⟨.nonCanonicalInteger (String.ofList digits), source, rest, depth⟩ later rfl

/-- A double is followed up to its end mark. -/
theorem follows_float (before : cursor.Before text source depth) :
    Follows text depth ((float text).run cursor) (run (readFloat depth source)) := by
  rw [float, run_readFloat]
  refine follows_number before fun digits rest after later => ?_
  dsimp only
  cases (Double.ofText? digits).filter fun x => x.text == digits with
  | some x => exact .took later
  | none =>
    exact follows_refuse ⟨.malformedFloat (String.ofList digits), source, rest, depth⟩ later rfl

/-! ## Values -/

variable {limit : Nat}

/-- What is between the marks of an array or object is followed one level deeper. Its depth is
counted before it is compared with the limit, so a refusal leaves it counted. -/
theorem follows_enclosed {first : Char} {rest : List Char} {start : Nat} {walk : Walk α}
    (reader : Nat → Except Refusal (α × List Char)) (f : α → β)
    (place : start = Text.byteCount text - Text.byteCount (first :: rest))
    (opens : cursor.entered.Before text rest (depth + 1))
    (inside : Follows text (depth + 1) (walk.run cursor.entered) (reader (depth + 1))) :
    Follows text depth
      ((do Cursor.enter limit start; let value ← walk; leave; return f value).run cursor)
      (CanonicalText.enter limit depth (first :: rest) rest >>= fun inner =>
        (reader inner).map fun taken => (f taken.1, taken.2)) := by
  have counted : cursor.entered.now.depth = depth + 1 := opens.depth_eq
  have entering : (Cursor.enter limit start).run cursor =
      (if limit < cursor.entered.now.depth then refuse (.tooDeep limit) start
        else pure () : Walk Unit).run cursor.entered := rfl
  rw [counted] at entering
  unfold CanonicalText.enter
  by_cases room : depth < limit
  · rw [if_neg (by omega)] at entering
    have changed : (reader (depth + 1)).map (fun taken => (f taken.1, taken.2)) =
        reader (depth + 1) >>= fun taken => .ok (f taken.1, taken.2) := by
      cases reader (depth + 1) <;> rfl
    rw [if_pos room, run_bind_of_ok entering]
    show Follows text depth _ ((reader (depth + 1)).map fun taken => (f taken.1, taken.2))
    rw [changed]
    refine inside.bind fun value rest after took later => ?_
    obtain ⟨last, left, closed⟩ := later.run_leave
    rw [run_bind_of_ok left]
    exact .took closed
  · rw [if_pos (by omega)] at entering
    rw [if_neg room, run_bind_of_error entering]
    exact follows_refuse ⟨.tooDeep limit, first :: rest, rest, depth + 1⟩ opens place

mutual

/-- A value is followed to its end. -/
theorem follows_value {source : List Char} {depth steps : Nat} {cursor : Cursor}
    (before : cursor.Before text source depth) (enough : 2 * source.length < steps) :
    Follows text depth ((value text limit steps).run cursor)
      (run (readValue limit depth source)) := by
  match steps with
  | 0 => omega
  | steps + 1 =>
    rw [run_readValue, value, run_bind_of_ok run_position]
    cases source with
    | nil =>
      rw [run_bind_of_ok before.run_bump_nil]
      exact follows_refuse ⟨.endOfText, [], [], depth⟩ before before.position_eq
    | cons c rest =>
      obtain ⟨after, ran, later, opens⟩ := before.run_bump_cons
      have place := before.position_eq
      simp only [List.length_cons] at enough
      rw [run_bind_of_ok ran]
      dsimp only
      rw [run_readFrom]
      -- One case for each mark that starts a value.
      split
      · exact .took later
      split
      · exact .took later
      split
      · exact .took later
      split
      · exact follows_integer later
      split
      · exact follows_float later
      split
      · exact (follows_string place later (by omega)).map Value.string
      split
      next isOpen =>
        have inside := opens (.inl isOpen)
        exact follows_enclosed (fun inner => run (readItems limit inner rest))
          Value.array place inside (follows_items inside (by omega))
      split
      next isOpen =>
        have inside := opens (.inr isOpen)
        exact follows_enclosed (fun inner => run (readFields limit inner none rest))
          Value.object place inside (follows_fields inside (by omega))
      · exact follows_refuse ⟨.unexpected c, c :: rest, rest, depth⟩ later place
termination_by steps

/-- Items are followed up to the closing mark. -/
theorem follows_items {source : List Char} {depth steps : Nat} {cursor : Cursor}
    (before : cursor.Before text source depth) (enough : 2 * source.length + 1 < steps) :
    Follows text depth ((items text limit steps).run cursor)
      (run (readItems limit depth source)) := by
  match steps with
  | 0 => omega
  | steps + 1 =>
    rw [run_readItems, items]
    refine before.eat ?_ fun inside => ?_
    · rintro rest after rfl later
      rw [List.head?_cons, if_pos rfl]
      exact .took later
    · rw [if_neg inside]
      refine (follows_value before (by omega)).bind fun item rest after took later => ?_
      have shorter := length_of_run_readValue took
      refine (follows_items later (by omega)).bind fun others rest after took later => ?_
      exact .took later
termination_by steps

/-- Fields are followed up to the closing mark. -/
theorem follows_fields {source : List Char} {depth steps : Nat} {cursor : Cursor}
    {previous : Option String} (before : cursor.Before text source depth)
    (enough : 2 * source.length + 1 < steps) :
    Follows text depth ((fields text limit previous steps).run cursor)
      (run (readFields limit depth previous source)) := by
  match steps with
  | 0 => omega
  | steps + 1 =>
    have place := before.position_eq
    rw [run_readFields, fields]
    refine before.eat ?_ fun unclosed => ?_
    · rintro rest after rfl later
      exact .took later
    rw [run_bind_of_ok run_position]
    refine before.eat ?_ fun unquoted => ?_
    · rintro rest after rfl later
      simp only [List.length_cons] at enough
      have other : quote ≠ objectClose := by decide
      dsimp only
      rw [if_neg other, if_pos rfl]
      refine (follows_string place later (by omega)).bind fun name rest after took later => ?_
      have named : rest.length ≤ _ := (suffix_of_run took).length_le
      split
      · exact follows_refuse ⟨.unsortedKeys, quote :: _, rest, depth⟩ later place
      · refine (follows_value later (by omega)).bind fun item rest after took later => ?_
        have shorter := length_of_run_readValue took
        refine (follows_fields later (by omega)).bind fun others rest after took later => ?_
        exact .took later
    rw [run_bind_of_ok run_position]
    cases source with
    | nil =>
      rw [if_pos (before.byteCount_le_iff.mpr rfl)]
      exact follows_refuse ⟨.endOfText, [], [], depth⟩ before place
    | cons c rest =>
      have inside : ¬ Text.byteCount text ≤ cursor.now.position := by
        simp [before.byteCount_le_iff]
      have unclosed : c ≠ objectClose := by simpa using unclosed
      have unquoted : c ≠ quote := by simpa using unquoted
      dsimp only
      rw [if_neg inside, if_neg unclosed, if_neg unquoted]
      exact follows_refuse ⟨.expectedKey, c :: rest, c :: rest, depth⟩ before place
termination_by steps

end

end ContentSpace.CanonicalText

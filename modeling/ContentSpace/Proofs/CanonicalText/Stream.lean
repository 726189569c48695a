import ContentSpace.CanonicalText.Stream
import ContentSpace.Proofs.CanonicalText.Canonicity

/-!
# Texts in a row

Canonical texts that follow one another are read back value by value: each request gives the next
value and moves the position by its text, and the request after the last value finds the end. In
turn only such a row of texts gives values up to the end. Both directions go through the stream
request by request; what one request does in front of any further text is already known.
-/

namespace ContentSpace.CanonicalText.Stream

variable {stream : Stream}

/-- The position is the extent of what was read. -/
theorem position_of_append (stream : Stream) {front : List Char}
    (split : stream.text = front ++ stream.unread) : stream.position = Text.byteCount front := by
  rw [position, split, Text.byteCount_append, Nat.add_sub_cancel_right]

/-- Nothing changes at the end of the text. -/
theorem next_of_nil (ends : stream.unread = []) : stream.next = (.ok none, stream) := by
  rw [next, ends]

/-- A value that its reader takes is the answer to a request, and the stream goes on after it. -/
theorem next_of_reads {c : Char} {source rest : List Char} {value : Value}
    (ahead : stream.unread = c :: source)
    (read : Reads (readFrom stream.limit stream.depth c source) value rest) :
    stream.next = (.ok (some value), { stream with unread := rest }) := by
  obtain ⟨suffix, found⟩ := read
  simp only [next, ahead, found]

/-- A value that stands in front of any further text is the answer to a request. -/
theorem next_of_encode {value : Value} {rest : List Char} (ordered : value.Ordered)
    (fits : stream.depth + value.depth ≤ stream.limit)
    (ahead : stream.unread = encode value ++ rest) :
    stream.next = (.ok (some value.unified), { stream with unread := rest }) := by
  have read := reads_encode value ordered stream.limit stream.depth fits rest
  obtain ⟨c, body, cons, -⟩ := encode_cons value
  rw [cons, List.cons_append] at ahead read
  exact next_of_reads ahead (reads_readValue_cons.mp read)

/-- Only at the end of the text a request finds the end. -/
theorem unread_of_next_eq_none (answer : stream.next.1 = .ok none) : stream.unread = [] := by
  unfold next at answer
  split at answer
  next ends => exact ends
  next => split at answer <;> cases answer

/-- A value that answers a request stood in front of what is left. -/
theorem unread_of_next_eq_some {value : Value} (answer : stream.next.1 = .ok (some value)) :
    stream.unread = encode value ++ stream.next.2.unread := by
  unfold next at answer ⊢
  split at answer
  next => cases answer
  next c source ahead =>
    split at answer
    next taken found =>
      cases answer
      exact ahead.trans (encode_of_reads_from ⟨taken.suffix, found⟩).1
    next => cases answer

/-- Values whose texts stand in a row up to the end are the answers to as many requests, each with
the extent of what was read so far, and the next request finds the end. -/
theorem answers_of_encodings (stream : Stream) (values : List Value) (front : List Char)
    (fits : ∀ value ∈ values, value.Ordered ∧ stream.depth + value.depth ≤ stream.limit)
    (whole : stream.text = front ++ values.flatMap encode)
    (ahead : stream.unread = values.flatMap encode) :
    answers (values.length + 1) stream =
      (values.map Value.unified).mapIdx (fun i value => (.ok (some value),
        Text.byteCount (front ++ (values.take (i + 1)).flatMap encode))) ++
      [(.ok none, Text.byteCount stream.text)] := by
  induction values generalizing stream front with
  | nil =>
    have split : stream.text = front ++ stream.unread := by rw [whole, ahead]
    have position := position_of_append stream split
    simp only [answers, next_of_nil ahead, position, whole, List.flatMap_nil, List.append_nil]
    rfl
  | cons value values ih =>
    obtain ⟨⟨ordered, room⟩, later⟩ := List.forall_mem_cons.mp fits
    rw [List.flatMap_cons] at whole ahead
    have answer := next_of_encode ordered room ahead
    -- The text of the first value now belongs to what was read.
    have split : stream.text = (front ++ encode value) ++ values.flatMap encode := by
      rw [whole, List.append_assoc]
    have others := ih { stream with unread := values.flatMap encode } (front ++ encode value) later
      split rfl
    have position := position_of_append { stream with unread := values.flatMap encode } split
    simp only [List.length_cons, answers, answer, others, position]
    simp [List.mapIdx_cons, List.append_assoc]

/-- A stream over the texts of values within the limit gives the values and then its end. -/
theorem answers_ofText {limit : Nat} {values : List Value}
    (fits : ∀ value ∈ values, value.Ordered ∧ value.depth ≤ limit) :
    answers (values.length + 1) (ofText limit (values.flatMap encode)) =
      (values.map Value.unified).mapIdx (fun i value => (.ok (some value),
        Text.byteCount ((values.take (i + 1)).flatMap encode))) ++
      [(.ok none, Text.byteCount (values.flatMap encode))] := by
  refine answers_of_encodings _ values [] (fun value member => ?_) rfl rfl
  show value.Ordered ∧ 0 + value.depth ≤ limit
  rw [Nat.zero_add]
  exact fits value member

/-- Requests that are answered with values and then with the end have read the texts of these values
and nothing else. -/
theorem unread_of_answers (stream : Stream) (values : List Value)
    (answered : (answers (values.length + 1) stream).map Prod.fst =
      values.map (fun value => .ok (some value)) ++ [.ok none]) :
    stream.unread = values.flatMap encode := by
  induction values generalizing stream with
  | nil =>
    simp only [List.length_nil, answers, List.map_cons, List.map_nil, List.nil_append,
      List.cons.injEq, and_true] at answered
    exact unread_of_next_eq_none answered
  | cons value values ih =>
    rw [List.length_cons, answers] at answered
    simp only [List.map_cons, List.cons_append, List.cons.injEq] at answered
    rw [List.flatMap_cons, ← ih stream.next.2 answered.2]
    exact unread_of_next_eq_some answered.1

/-- Canonical texts need no separators. The texts of values in a row, none of which nests deeper
than the limit, are read back as the same values in order; the position after each value is the
extent of the texts up to it, and the next request finds the end. In turn a text that is read as
values up to its end, without a fault, is the row of their canonical texts. -/
theorem answers_encodings (limit : Nat) :
    (∀ values : List Value, (∀ value ∈ values, value.Ordered ∧ value.depth ≤ limit) →
      ∃ read : List Value, List.Forall₂ (fun again value => (again == value) = true) read values ∧
        answers (values.length + 1) (ofText limit (values.flatMap encode)) =
          read.mapIdx (fun i value => (.ok (some value),
            Text.byteCount ((values.take (i + 1)).flatMap encode))) ++
          [(.ok none, Text.byteCount (values.flatMap encode))]) ∧
    (∀ (text : List Char) (values : List Value),
      (answers (values.length + 1) (ofText limit text)).map Prod.fst =
        values.map (fun value => .ok (some value)) ++ [.ok none] →
      text = values.flatMap encode) := by
  refine ⟨fun values fits => ⟨values.map Value.unified, ?_, answers_ofText fits⟩, ?_⟩
  · rw [List.forall₂_map_left_iff, List.forall₂_same]
    exact fun value _ => value.unified_beq
  · exact fun text values answered => unread_of_answers (ofText limit text) values answered

/-- An array, a quote as text and a truth value in a row are read at the nesting limit of one, with
their ends at the bytes 9, 13 and 16; a row that is read as these values is their row of texts. -/
theorem answers_encodings_three_values :
    let values : List Value := [.array [.null], .string "\"", .bool true]
    let text := "⟦∅⟧\"\\\"\"⊤".toList
    (∀ value ∈ values, value.Ordered ∧ value.depth ≤ 1) ∧
      (∃ first second third, (first == .array [.null]) = true ∧ (second == .string "\"") = true ∧
        (third == .bool true) = true ∧ answers 4 (ofText 1 text) =
          [(.ok (some first), 9), (.ok (some second), 13), (.ok (some third), 16),
            (.ok none, 16)]) ∧
      (answers 4 (ofText 1 text)).map Prod.fst =
        values.map (fun value => .ok (some value)) ++ [.ok none] ∧
      text = values.flatMap encode := by
  intro values text
  have fits : ∀ value ∈ values, value.Ordered ∧ value.depth ≤ 1 := by
    simp [values, Value.Ordered, Value.OrderedItems, Value.depth, Value.depthItems]
  have row : values.flatMap encode = text := by decide
  obtain ⟨read, same, answered⟩ := (answers_encodings 1).1 values fits
  have plain : (answers 4 (ofText 1 text)).map Prod.fst =
      values.map (fun value => .ok (some value)) ++ [.ok none] := by
    rw [← row]
    exact congrArg (List.map Prod.fst) (answers_ofText fits)
  refine ⟨fits, ?_, plain, (answers_encodings 1).2 text values plain⟩
  rw [row] at answered
  obtain ⟨first, _, isArray, others, rfl⟩ := List.forall₂_cons_right_iff.mp same
  obtain ⟨second, _, isText, last, rfl⟩ := List.forall₂_cons_right_iff.mp others
  obtain ⟨third, _, isTruth, none, rfl⟩ := List.forall₂_cons_right_iff.mp last
  obtain rfl := List.forall₂_nil_right_iff.mp none
  exact ⟨first, second, third, isArray, isText, isTruth, answered⟩

end ContentSpace.CanonicalText.Stream

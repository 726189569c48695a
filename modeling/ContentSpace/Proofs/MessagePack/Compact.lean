import ContentSpace.MessagePack.Compact
import ContentSpace.Proofs.MessagePack.Head

/-!
# What the compact library keeps

Truth values, integers and doubles come back from their items whatever they are. A text comes back
when its bytes can be counted in four bytes, and so do arrays and maps when their items and pairs
can. Nothing has a marker of its own, so it starts no text and no record. These are the promises
that are asked of a library.
-/

namespace ContentSpace.MessagePack

variable {α : Type}

/-! ## Typed items -/

/-- A truth value is read back. -/
theorem reads_readBool (b : Bool) : Reads readBool (writeBool b) b := by
  intro rest
  simp only [readBool, reads_writeBool b rest, bind, Option.bind]

/-- An integer of 64 bits is read back, whatever the width of its item. -/
theorem reads_readInt (n : Int64) : Reads readInt (writeInt n.toInt) n := by
  intro rest
  have low : -0x8000000000000000 ≤ n.toInt := Int64.le_toInt n
  have high : n.toInt < 0x8000000000000000 := Int64.toInt_lt n
  by_cases natural : 0 ≤ n.toInt
  · obtain ⟨k, equal⟩ := Int.eq_ofNat_of_zero_le natural
    have small : k < 0x8000000000000000 := by omega
    have whole : Int64.ofNat k = n := by
      rw [← Int64.ofInt_toInt n, equal]
      rfl
    rw [readInt, equal, reads_writeInt_natCast (by omega) rest]
    simp only [bind, Option.bind, if_pos small, whole]
  · rw [readInt, reads_writeInt_of_neg (by omega) low rest]
    simp only [bind, Option.bind, Int64.ofInt_toInt]

/-- A double is read back with all its bits. -/
theorem reads_readDouble (x : Double) : Reads readDouble (writeDouble x) x := by
  intro rest
  simp only [readDouble, reads_writeDouble x rest, bind, Option.bind]

/-- The bytes of a text spell it. -/
theorem textOfBytes?_utf8 (text : String) : textOfBytes? (Text.utf8 text.toList) = some text := by
  have bytes : ByteArray.mk (Text.utf8 text.toList).toArray = text.toByteArray := by
    have encoded : text.toByteArray = text.toList.utf8Encode := by
      rw [← String.toByteArray_ofList, String.ofList_toList]
    rw [encoded, List.utf8Encode]
    exact ByteArray.ext List.data_toByteArray.symm
  rw [textOfBytes?, bytes, String.fromUTF8?, dif_pos text.isValidUTF8]
  rfl

/-- A short text is read back. -/
theorem reads_readText {text : String} (short : ShortText text) :
    Reads readText (writeText text) text := by
  intro rest
  simp only [readText, reads_head_writeText short rest, bind, Option.bind, textOfBytes?_utf8,
    Option.map_some]

/-- A name is found by its place. -/
theorem nameOf?_text (names : List String) (name : String) :
    nameOf? names (.text (Text.utf8 name.toList)) = some (names.idxOf? name) := by
  rw [nameOf?, textOfBytes?_utf8, Option.bind_some]

/-- What nothing stands for is read as an absence, and what starts otherwise as present. -/
theorem reads_readOptional {item : Reader α} {bytes : List UInt8} {thing : Option α}
    (reads : Library.compact.ReadsOptional item bytes thing) :
    Reads (readOptional item) bytes thing := by
  intro rest
  cases thing with
  | none =>
    rw [Library.ReadsOptional] at reads
    rw [reads]
    rfl
  | some found =>
    obtain ⟨read, present⟩ := reads
    rw [readOptional]
    split
    next after starts =>
      have front := eq_of_readHead_nothing starts
      exact absurd ⟨after, front.symm⟩ (present rest)
    next => rw [read rest, Option.map_some]

/-! ## Several things -/

/-- Things in a row are written and read back when each of them is. -/
theorem reads_many {item : Format α} {things : List α}
    (each : ∀ thing ∈ things, item.KeepsAt thing) :
    ∃ bytes, writeMany item.write things = .ok bytes ∧
      Reads (readMany item.read things.length) bytes things := by
  induction things with
  | nil => exact ⟨[], rfl, fun _ => rfl⟩
  | cons first others ih =>
    obtain ⟨here, later⟩ := List.forall_mem_cons.mp each
    obtain ⟨head, wroteHead, readHead⟩ := here
    obtain ⟨rest, wroteRest, readRest⟩ := ih later
    refine ⟨head ++ rest, ?_, ?_⟩
    · simp only [writeMany, wroteHead, wroteRest, bind, Except.bind]
    · intro more
      simp only [List.length_cons, readMany, List.append_assoc, readHead _, readRest _, bind,
        Option.bind]

/-- A name and a thing are written and read back when both are. -/
theorem keepsAt_pair {item : Format α} {field : String × α}
    (name : Library.compact.KeepsText field.1) (kept : item.KeepsAt field.2) :
    Format.KeepsAt ⟨writePair item.write, readPair readText item.read⟩ field := by
  obtain ⟨_, ⟨⟩, readName⟩ := name
  obtain ⟨content, wrote, readContent⟩ := kept
  refine ⟨writeText field.1 ++ content, ?_, ?_⟩
  · simp only [writePair, wrote, bind, Except.bind]
  · intro rest
    have first : readText (writeText field.1 ++ (content ++ rest)) = _ := readName _
    simp only [readPair, List.append_assoc, first, readContent _, bind, Option.bind]

/-! ## The library -/

namespace Library

/-- A short text is kept. -/
theorem compact_keepsText {text : String} (short : ShortText text) : compact.KeepsText text :=
  ⟨writeText text, rfl, reads_readText short⟩

/-- Arrays of so many things are kept when their count can be written in four bytes. -/
theorem compact_keepsArray {count : Nat} (short : count < 0x100000000) :
    compact.KeepsArray count := by
  intro α item things same each
  obtain ⟨items, wrote, read⟩ := reads_many each
  refine ⟨writeArrayHead things.length ++ items, ?_, ?_⟩
  · simp only [array, compact, wrote, bind, Except.bind]
  · intro rest
    have head := reads_writeArrayHead things.length (items ++ rest)
    rw [same, Nat.mod_eq_of_lt short] at head
    rw [same] at read ⊢
    simp only [array, compact, MessagePack.readArray, List.append_assoc, head, read _, bind,
      Option.bind, Nat.one_ne_zero, if_false]

/-- Maps of so many things are kept when their count can be written in four bytes. -/
theorem compact_keepsMap {count : Nat} (short : count < 0x100000000) : compact.KeepsMap count := by
  intro α item fields same each
  obtain ⟨pairs, wrote, read⟩ := reads_many fun field member =>
    keepsAt_pair (each field member).1 (each field member).2
  refine ⟨writeMapHead fields.length ++ pairs, ?_, ?_⟩
  · simp only [map, compact, wrote, bind, Except.bind]
  · intro rest
    have head := reads_writeMapHead fields.length (pairs ++ rest)
    rw [same, Nat.mod_eq_of_lt short] at head
    rw [same] at read ⊢
    simp only [map, compact, MessagePack.readMap, List.append_assoc, head, read _, bind,
      Option.bind, Nat.one_ne_zero, if_false]

/-- What starts with another head than nothing is present. -/
theorem compact_present {bytes : List UInt8}
    (starts : ∀ rest, ∃ head after, readHead (bytes ++ rest) = some (head, after) ∧
      head ≠ .nothing) : compact.Present bytes := by
  rintro rest ⟨after, same⟩
  obtain ⟨head, tail, read, other⟩ := starts rest
  rw [← same] at read
  cases read
  exact other rfl

/-- The contents of a record are written after their names. -/
theorem compact_writeRecord (fields : List (String × List UInt8)) :
    compact.writeRecord fields = .ok (writeMapHead fields.length ++
      fields.flatMap fun field => writeText field.1 ++ field.2) := by
  have pairs : writeMany (writePair .ok) fields =
      .ok (fields.flatMap fun field => writeText field.1 ++ field.2) := by
    induction fields with
    | nil => rfl
    | cons field rest ih =>
      simp only [writeMany, writePair, ih, bind, Except.bind, List.flatMap_cons]
  simp only [compact, pairs, bind, Except.bind]

/-- The compact library does what is documented of a library. -/
theorem compact_documented : compact.Documented where
  keeps_bool b := ⟨_, rfl, reads_readBool b⟩
  keeps_int n := ⟨_, rfl, reads_readInt n⟩
  keeps_double x := ⟨_, rfl, reads_readDouble x⟩
  writes_record fields := ⟨_, compact_writeRecord fields⟩
  text_present := by
    rintro text _ ⟨⟩
    exact compact_present fun rest => ⟨_, _, readHead_writeText rfl rest, nofun⟩
  record_present := by
    intro fields bytes wrote
    rw [compact_writeRecord] at wrote
    cases wrote
    apply compact_present
    intro rest
    rw [List.append_assoc]
    exact ⟨_, _, reads_writeMapHead fields.length _, nofun⟩

end Library

end ContentSpace.MessagePack

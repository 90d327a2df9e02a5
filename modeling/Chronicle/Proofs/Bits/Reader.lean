import Chronicle.Bits.Buffer
import Mathlib.Algebra.GroupWithZero.Nat

/-!
Bits read by their place: in which byte a bit stands, and how far from the top. What a reader
has left to read is the stream of its bytes behind that place, and to read a bit, a field or any
row of them is to read that stream. Where the bytes end the count stops.
-/

namespace Chronicle

namespace BitReader

open BitStream

def left (reader : BitReader) : BitStream :=
  (BitBuffer.ofBytes reader.bytes).stream.drop reader.position

theorem advance_advance (reader : BitReader) (count more : Nat) :
    (reader.advance count).advance more = reader.advance (count + more) := by
  simp only [advance, Nat.add_assoc]

theorem stream_of_bytes (bytes : List UInt8) :
    (BitBuffer.ofBytes bytes).stream = bytes.flatMap fun byte => field byte.toNat 8 := by
  rw [BitBuffer.stream, BitBuffer.ofBytes, Trail.toList_ofList]

/-- A place in a stream of bytes is one of eight places in one of the bytes. -/
theorem stream_of_bytes_get? (bytes : List UInt8) (place : Nat) :
    (BitBuffer.ofBytes bytes).stream[place]? =
      bytes[place / 8]?.map fun byte => byte.toNat.testBit (7 - place % 8) := by
  rw [stream_of_bytes]
  induction bytes generalizing place with
  | nil => simp
  | cons byte rest ih =>
      rw [List.flatMap_cons]
      by_cases inside : place < 8
      · have first : place / 8 = 0 := by omega
        have same : place % 8 = place := by omega
        rw [List.getElem?_append_left (by rwa [field_length]), field_get?, if_pos inside, first,
          same]
        rfl
      · have later : place / 8 = (place - 8) / 8 + 1 := by omega
        have same : place % 8 = (place - 8) % 8 := by omega
        rw [List.getElem?_append_right (by rw [field_length]; omega), field_length, ih, later,
          same]
        rfl

theorem shifted_bit (byte : UInt8) (place : Nat) (inside : place < 8) :
    (byte >>> UInt8.ofNat place &&& 1 == 1) = byte.toNat.testBit place := by
  have amount : (UInt8.ofNat place).toNat % 8 = place := by
    rw [UInt8.toNat_ofNat']
    omega
  have shifted : (byte >>> UInt8.ofNat place &&& 1).toNat = byte.toNat >>> place % 2 := by
    rw [UInt8.toNat_and, UInt8.toNat_shiftRight, amount, UInt8.toNat_one, Nat.and_one_is_mod]
  rw [Nat.testBit_eq_decide_div_mod_eq, ← Nat.shiftRight_eq_div_pow, ← shifted]
  exact decide_eq_decide.mpr UInt8.toNat_inj.symm

theorem left_advance (reader : BitReader) (count : Nat) :
    (reader.advance count).left = reader.left.drop count := by
  rw [left, left, List.drop_drop]
  rfl

theorem length_left (reader : BitReader) :
    reader.left.length = 8 * reader.bytes.length - reader.position := by
  rw [left, List.length_drop, BitBuffer.stream_length]
  rfl

theorem read_bit_nil {reader : BitReader} (ended : reader.left = []) :
    reader.readBit = (.error (.damaged .bitStreamTruncated), reader) := by
  have missing : reader.left.head? = none := by rw [ended]; rfl
  rw [left, List.head?_drop, stream_of_bytes_get?, Option.map_eq_none_iff] at missing
  rw [readBit, missing]

theorem read_bit_cons {reader : BitReader} {bit : Bool} {rest : BitStream}
    (more : reader.left = bit :: rest) : reader.readBit = (.ok bit, reader.advance 1) := by
  have found : reader.left.head? = some bit := by rw [more]; rfl
  rw [left, List.head?_drop, stream_of_bytes_get?, Option.map_eq_some_iff] at found
  obtain ⟨byte, present, same⟩ := found
  rw [readBit, present]
  simp only [shifted_bit byte _ (show 7 - reader.position % 8 < 8 by omega), same]

theorem read_bit_eq (reader : BitReader) :
    reader.readBit.1 = (BitStream.readBit reader.left).map Prod.fst ∧
      reader.readBit.2 = reader.advance (min 1 reader.left.length) := by
  cases more : reader.left with
  | nil =>
      rw [read_bit_nil more]
      exact ⟨rfl, rfl⟩
  | cons bit rest =>
      rw [read_bit_cons more, List.length_cons, Nat.min_eq_left (Nat.succ_le_succ (Nat.zero_le _))]
      exact ⟨rfl, rfl⟩

theorem read_onto_enough (taken : UInt64) (width : Nat) {reader : BitReader}
    (enough : width ≤ reader.left.length) : ∃ value,
      BitStream.readOnto taken width reader.left = .ok (value, reader.left.drop width) ∧
        reader.readOnto taken width = (.ok value, reader.advance width) := by
  induction width generalizing taken reader with
  | zero => exact ⟨taken, rfl, rfl⟩
  | succ width ih =>
      cases more : reader.left with
      | nil => simp [more] at enough
      | cons bit rest =>
          have behind : (reader.advance 1).left = rest := by rw [left_advance, more]; rfl
          have shorter : width ≤ (reader.advance 1).left.length := by
            rw [more, List.length_cons] at enough
            rw [behind]
            omega
          obtain ⟨value, parsed, read⟩ := ih (taken <<< 1 ||| (if bit then 1 else 0)) shorter
          refine ⟨value, ?_, ?_⟩
          · rw [behind] at parsed
            exact parsed
          · rw [readOnto, read_bit_cons more]
            simp only [read, advance_advance, Nat.add_comm 1]

/-- A field that the bytes do not hold uses up all that is left of them. -/
theorem read_onto_short (taken : UInt64) (width : Nat) {reader : BitReader}
    (short : reader.left.length < width) : reader.readOnto taken width =
      (.error (.damaged .bitStreamTruncated), reader.advance reader.left.length) := by
  induction width generalizing taken reader with
  | zero => omega
  | succ width ih =>
      cases more : reader.left with
      | nil => rw [readOnto, read_bit_nil more]; rfl
      | cons bit rest =>
          have behind : (reader.advance 1).left = rest := by rw [left_advance, more]; rfl
          have shorter : (reader.advance 1).left.length < width := by
            rw [more, List.length_cons] at short
            rw [behind]
            omega
          rw [readOnto, read_bit_cons more]
          simp only [ih _ shorter, behind, advance_advance, List.length_cons, Nat.add_comm 1]

theorem read_field_eq (width : Nat) (reader : BitReader) :
    (reader.readField width).1 = (BitStream.readField width reader.left).map Prod.fst ∧
      (reader.readField width).2 = reader.advance (min width reader.left.length) := by
  by_cases enough : width ≤ reader.left.length
  · obtain ⟨value, parsed, read⟩ := read_onto_enough 0 width enough
    rw [readField, BitStream.readField, parsed, read, Nat.min_eq_left enough]
    exact ⟨rfl, rfl⟩
  · have short := Nat.lt_of_not_le enough
    rw [readField, BitStream.readField, BitStream.read_onto_short 0 width reader.left short,
      read_onto_short 0 width short, Nat.min_eq_right (Nat.le_of_lt short)]
    exact ⟨rfl, rfl⟩

theorem answer_eq (reader : BitReader) (request : Request) :
    (reader.answer request).1 = (BitStream.answer request reader.left).1 ∧
      (reader.answer request).2 = reader.advance (min request.width reader.left.length) ∧
      (BitStream.answer request reader.left).2 =
        reader.left.drop (min request.width reader.left.length) := by
  cases request with
  | bit =>
      cases more : reader.left with
      | nil =>
          rw [answer, read_bit_nil more]
          exact ⟨rfl, rfl, rfl⟩
      | cons bit rest =>
          rw [answer, read_bit_cons more]
          simp [BitStream.answer, BitStream.readBit, Except.map, Request.width]
  | field width =>
      obtain ⟨same, behind⟩ := read_field_eq width reader
      rw [answer, same, behind]
      by_cases enough : width ≤ reader.left.length
      · obtain ⟨value, parsed, _⟩ := read_onto_enough 0 width enough
        simp [BitStream.answer, BitStream.readField, parsed, Except.map, Request.width, enough]
      · have short := Nat.lt_of_not_le enough
        simp [BitStream.answer, BitStream.readField, BitStream.read_onto_short 0 width _ short,
          Except.map, Request.width, Nat.le_of_lt short]

/-- Requests are answered from bytes as they are from the stream of their bits. -/
theorem answers_eq (reader : BitReader) (requests : List Request) :
    (reader.answers requests).1 = BitStream.answers requests reader.left := by
  induction requests generalizing reader with
  | nil => rfl
  | cons request later ih =>
      obtain ⟨same, moved, behind⟩ := answer_eq reader request
      simp only [answers, BitStream.answers, same, ih, moved, behind, left_advance]

theorem answer_ok_iff (reader : BitReader) (request : Request) :
    (reader.answer request).1.isOk = true ↔ request.width ≤ reader.left.length := by
  cases request with
  | bit =>
      cases more : reader.left with
      | nil => simp [answer, read_bit_nil more, Except.map, Except.isOk, Except.toBool,
          Request.width]
      | cons bit rest => simp [answer, read_bit_cons more, Except.map, Except.isOk, Except.toBool,
          Request.width]
  | field width =>
      rw [answer, Request.width]
      by_cases enough : width ≤ reader.left.length
      · obtain ⟨value, _, read⟩ := read_onto_enough 0 width enough
        simp [readField, read, enough, Except.map, Except.isOk, Except.toBool]
      · have short := read_onto_short 0 width (Nat.lt_of_not_le enough)
        simp [readField, short, enough, Except.map, Except.isOk, Except.toBool]

theorem answers_ok_iff (reader : BitReader) (requests : List Request) :
    (∀ reading ∈ (reader.answers requests).1, reading.isOk = true) ↔
      (requests.map Request.width).sum ≤ reader.left.length := by
  induction requests generalizing reader with
  | nil => simp [answers]
  | cons request later ih =>
      obtain ⟨_, moved, _⟩ := answer_eq reader request
      simp only [answers, List.forall_mem_cons, ih, answer_ok_iff, moved, left_advance,
        List.length_drop, List.map_cons, List.sum_cons]
      omega

/-- All in all a reader reads what it is asked for, up to the end of its bytes. -/
theorem position_answers (reader : BitReader) (requests : List Request) :
    (reader.answers requests).2 =
      reader.advance (min (requests.map Request.width).sum reader.left.length) := by
  induction requests generalizing reader with
  | nil => simp [answers, advance]
  | cons request later ih =>
      obtain ⟨_, moved, _⟩ := answer_eq reader request
      simp only [answers, ih, moved, left_advance, List.length_drop, advance_advance,
        List.map_cons, List.sum_cons]
      congr 1
      omega

end BitReader

end Chronicle

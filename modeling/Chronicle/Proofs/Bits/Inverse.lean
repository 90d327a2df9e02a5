import Chronicle.Proofs.Bits.Field
import Chronicle.Proofs.Bits.Reader

/-!
Bits written and read back. Whatever single bits and fields are written, and wherever their
ends fall within the bytes, a buffer is the packing of one row of bits and of nothing else: it
has the bytes that this row needs, and a reader of these bytes that is asked for the same
widths is answered with what was written.
-/

namespace Chronicle

namespace BitStream

/-- A field is a field of its upper bits and one of its lower bits behind it. -/
theorem field_halves (value high low : Nat) :
    field value (high + low) = field (value >>> low) high ++ field value low := by
  induction high with
  | zero => simp [field]
  | succ high ih =>
      rw [Nat.succ_add, field, field, ih, Nat.testBit_shiftRight, Nat.add_comm low]
      rfl

theorem field_places (value width : Nat) :
    field value width = (List.range width).reverse.map value.testBit := by
  induction width with
  | zero => rfl
  | succ width ih =>
      rw [field, ih, List.range_succ, List.reverse_append, List.reverse_singleton,
        List.singleton_append, List.map_cons]

end BitStream

namespace BitBuffer

open BitStream

theorem shift_amount {place : Nat} (inside : place < 64) :
    (UInt64.ofNat place).toNat % 64 = place := by
  rw [UInt64.toNat_ofNat']
  omega

theorem mask_toNat {width : Nat} (short : width < 64) :
    (1 <<< UInt64.ofNat width - 1).toNat = 2 ^ width - 1 := by
  have below := Nat.pow_lt_pow_right (by decide : 1 < 2) short
  have power : (1 <<< UInt64.ofNat width).toNat = 2 ^ width := by
    rw [UInt64.toNat_shiftLeft, shift_amount short, UInt64.toNat_one, Nat.one_shiftLeft,
      Nat.mod_eq_of_lt below]
  rw [UInt64.toNat_sub_of_le, power, UInt64.toNat_one]
  rw [UInt64.le_iff_toNat_le, power, UInt64.toNat_one]
  exact Nat.one_le_two_pow

theorem lowest_toNat (value : UInt64) (width : Fin 65) :
    (lowest value width).toNat = value.toNat % 2 ^ width.val := by
  unfold lowest
  by_cases short : width.val < 64
  · rw [if_pos short, UInt64.toNat_and, mask_toNat short, Nat.and_two_pow_sub_one_eq_mod]
  · have full : width.val = 64 := by omega
    rw [if_neg short, full, Nat.mod_eq_of_lt value.toNat_lt]

theorem shifted_bit (word : UInt64) (place : Nat) (inside : place < 64) :
    (word >>> UInt64.ofNat place &&& 1 == 1) = word.toNat.testBit place := by
  have shifted : (word >>> UInt64.ofNat place &&& 1).toNat = word.toNat >>> place % 2 := by
    rw [UInt64.toNat_and, UInt64.toNat_shiftRight, shift_amount inside, UInt64.toNat_one,
      Nat.and_one_is_mod]
  rw [Nat.testBit_eq_decide_div_mod_eq, ← Nat.shiftRight_eq_div_pow, ← shifted]
  exact decide_eq_decide.mpr UInt64.toNat_inj.symm

/-- A field has no more bits than its width, and they stand in the order of their places. -/
theorem push_places_eq (buffer : BitBuffer) (value : UInt64) (width : Fin 65) :
    buffer.pushPlaces value width = buffer.pushField value width := by
  have places : (List.range width).reverse.map
      (fun place => lowest value width >>> UInt64.ofNat place &&& 1 == 1) =
        field value.toNat width := by
    rw [← field_mod, ← lowest_toNat, field_places]
    apply List.map_congr_left
    intro place member
    have inside := List.mem_range.mp (List.mem_reverse.mp member)
    exact shifted_bit _ place (by omega)
  rw [pushPlaces, pushField, word_field_of_fits value width (by omega), ← places, pushAll,
    List.foldl_map]

/-- What may be written to a buffer: a bit, or so many of the lowest bits of a word. -/
inductive Push where
  | bit (value : Bool)
  | field (value : UInt64) (width : Fin 65)

namespace Push

def onto (buffer : BitBuffer) : Push → BitBuffer
  | .bit value => buffer.pushBit value
  | .field value width => buffer.pushField value width

def request : Push → Request
  | .bit _ => .bit
  | .field _ width => .field width

/-- What a reader then answers. A word has lost its bits above the width. -/
def reading : Push → Reading
  | .bit value => .bit value
  | .field value width => .word (UInt64.ofNat (value.toNat % 2 ^ width.val))

def bits : Push → BitStream
  | .bit value => [value]
  | .field value width => BitStream.field value.toNat width

/-- A field in two, the one with the lower bits last. -/
def halves (value : UInt64) (width : Fin 65) (low : Fin (width.val + 1)) : List Push :=
  [.field (value >>> UInt64.ofNat low) ⟨width - low, by omega⟩, .field value ⟨low, by omega⟩]

theorem length_bits (push : Push) : push.bits.length = push.request.width := by
  cases push with
  | bit value => rfl
  | field value width => exact field_length value.toNat width

theorem onto_eq (buffer : BitBuffer) (push : Push) :
    push.onto buffer = buffer.pushAll push.bits := by
  cases push with
  | bit value => rfl
  | field value width => rw [onto, bits, pushField, word_field_of_fits value width (by omega)]

theorem answer_bits (push : Push) (rest : BitStream) :
    answer push.request (push.bits ++ rest) = (.ok push.reading, rest) := by
  cases push with
  | bit value => rfl
  | field value width => simp only [request, bits, reading, answer, read_field_field]

theorem bits_halves (value : UInt64) (width : Fin 65) (low : Fin (width.val + 1)) :
    (halves value width low).flatMap bits = (field value width).bits := by
  have parts := field_halves value.toNat (width - low) low
  rw [Nat.sub_add_cancel (by omega)] at parts
  simp only [halves, List.flatMap_cons, List.flatMap_nil, List.append_nil, bits, parts]
  by_cases whole : low.val = 64
  · -- a shift by the whole width is none, but then the upper field has no bits
    have none : width.val - low.val = 0 := by omega
    rw [none]
    rfl
  · rw [UInt64.toNat_shiftRight, shift_amount (by omega)]

end Push

def written (pushes : List Push) : BitBuffer := pushes.foldl Push.onto .empty

theorem pushes_onto (buffer : BitBuffer) (pushes : List Push) :
    pushes.foldl Push.onto buffer = buffer.pushAll (pushes.flatMap Push.bits) := by
  induction pushes generalizing buffer with
  | nil => rfl
  | cons push later ih =>
      rw [List.foldl_cons, ih, Push.onto_eq, List.flatMap_cons, pushAll, pushAll, pushAll,
        List.foldl_append]

theorem holds_written (pushes : List Push) :
    (written pushes).Holds (pushes.flatMap Push.bits) := by
  rw [written, pushes_onto]
  exact holds_push_all holds_empty _

theorem length_pushes (pushes : List Push) :
    (pushes.flatMap Push.bits).length = (pushes.map (·.request.width)).sum := by
  rw [List.length_flatMap]
  simp only [Push.length_bits]

/-- A buffer holds one row of bits and no other. -/
theorem holds_unique {buffer : BitBuffer} {bits others : BitStream} (holds : buffer.Holds bits)
    (held : buffer.Holds others) : bits = others := by
  obtain ⟨used, padding, short, stream⟩ := holds
  obtain ⟨taken, zeros, few, row⟩ := held
  have whole := stream.symm.trans row
  have lengths := congrArg List.length whole
  simp only [List.length_append, List.length_replicate] at lengths
  exact (List.append_inj whole (by omega)).1

/-- Buffers are the same that were given the same bits, however these were cut, and no
others. -/
theorem written_eq_iff (pushes others : List Push) :
    written pushes = written others ↔ pushes.flatMap Push.bits = others.flatMap Push.bits := by
  constructor
  · intro same
    exact holds_unique (holds_written pushes) (same ▸ holds_written others)
  · intro same
    rw [written, written, pushes_onto, pushes_onto, same]

/-- The bytes of a buffer say all that is written there, however far the last one is taken. -/
theorem stream_bytes (buffer : BitBuffer) :
    (ofBytes buffer.bytes.toList).stream = buffer.stream := by
  rw [ofBytes, Trail.ofList_toList]
  rfl

/-- The bits of the last byte that nothing was written to are zeros. -/
theorem unused_zero {buffer : BitBuffer} {bits : BitStream} (holds : buffer.Holds bits)
    {last : UInt8} (filled : buffer.bytes.toList.getLast? = some last) {place : Nat}
    (unused : place < 8 * buffer.byteLength - bits.length) : last.toNat.testBit place = false := by
  obtain ⟨_, padding, short, stream⟩ := holds
  have count : buffer.bytes.toList.length = buffer.byteLength := Trail.length_toList _
  have length := congrArg List.length stream
  rw [stream_length, List.length_append, List.length_replicate] at length
  rw [List.getLast?_eq_getElem?, count] at filled
  have found := BitReader.stream_of_bytes_get? buffer.bytes.toList
    (8 * buffer.byteLength - 1 - place)
  have byte : (8 * buffer.byteLength - 1 - place) / 8 = buffer.byteLength - 1 := by omega
  have bit : 7 - (8 * buffer.byteLength - 1 - place) % 8 = place := by omega
  rw [byte, filled, bit, stream_bytes, stream, List.getElem?_append_right (by omega),
    List.getElem?_replicate, if_pos (by omega)] at found
  exact (Option.some.inj found).symm

theorem answers_bits (pushes : List Push) (rest : BitStream) :
    answers (pushes.map Push.request) (pushes.flatMap Push.bits ++ rest) =
      pushes.map fun push => .ok push.reading := by
  induction pushes with
  | nil => rfl
  | cons push later ih =>
      simp only [List.map_cons, List.flatMap_cons, List.append_assoc, answers, Push.answer_bits,
        ih]

/-- Whatever is written to an empty buffer takes no more bytes than it needs, the rest of the
last one being zeros, and is read back by the same widths. No more than the bytes hold can be
read, and how the bits were cut into fields, or a field into places, leaves no trace. -/
theorem fields_read_back (pushes : List Push) :
    let buffer := written pushes
    let total := (pushes.map (·.request.width)).sum
    let reader := BitReader.ofBytes buffer.bytes.toList
    buffer.byteLength = (total + 7) / 8 ∧
      (∀ last, buffer.bytes.toList.getLast? = some last →
        ∀ place < 8 * buffer.byteLength - total, last.toNat.testBit place = false) ∧
      (reader.answers (pushes.map Push.request)).1 = pushes.map (fun push => .ok push.reading) ∧
      (∀ requests,
        (reader.answers requests).2.position =
          min (requests.map Request.width).sum (8 * buffer.byteLength) ∧
        ((∀ reading ∈ (reader.answers requests).1, reading.isOk = true) ↔
          (requests.map Request.width).sum ≤ 8 * buffer.byteLength)) ∧
      (∀ others, written others = buffer ↔
        others.flatMap Push.bits = pushes.flatMap Push.bits) ∧
      (∀ value width low before after,
        written (before ++ Push.halves value width low ++ after) =
          written (before ++ .field value width :: after)) ∧
      ∀ (before : BitBuffer) value (width : Fin 65),
        before.pushField value width = before.pushPlaces value width := by
  intro buffer total reader
  have holds := holds_written pushes
  have length := length_pushes pushes
  have left : reader.left = buffer.stream := stream_bytes buffer
  have room : reader.left.length = 8 * buffer.byteLength := by rw [left, stream_length]
  refine ⟨?_, ?_, ?_, ?_, fun others => written_eq_iff others pushes, ?_,
    fun before value width => (push_places_eq before value width).symm⟩
  · rw [byte_length_of_holds holds, length]
  · intro last filled place unused
    exact unused_zero holds filled (length ▸ unused)
  · obtain ⟨_, padding, _, stream⟩ := holds
    rw [BitReader.answers_eq, left, stream]
    exact answers_bits pushes _
  · intro requests
    rw [BitReader.position_answers, ← room]
    exact ⟨Nat.zero_add _, BitReader.answers_ok_iff reader requests⟩
  · intro value width low before after
    rw [written_eq_iff]
    simp only [List.flatMap_append, List.flatMap_cons, Push.bits_halves, List.append_assoc]

theorem fields_read_back_seventy :
    let buffer := written [.bit true, .field 0x1FF 5, .field 0xDEADBEEFCAFEF00D 64]
    buffer.bytes.toList.getLast? = some 52 ∧ buffer.byteLength = 9 ∧
      (52 : UInt8).toNat.testBit 1 = false := by
  refine ⟨by decide +kernel, by decide +kernel, ?_⟩
  exact (fields_read_back [.bit true, .field 0x1FF 5, .field 0xDEADBEEFCAFEF00D 64]).2.1 52
    (by decide +kernel) 1 (by decide +kernel)

end BitBuffer

end Chronicle

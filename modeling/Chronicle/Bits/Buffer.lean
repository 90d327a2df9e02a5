import Chronicle.Bits.Stream
import Chronicle.Trail

/-!
Packing a bit stream into bytes, the first bit of the stream in the highest bit of
the first byte. The buffer also remembers how many bits of its last byte are taken,
so that writing can go on where it stopped. Writing appends to the stream a buffer holds,
and it takes no more bytes than it needs.
-/

namespace Chronicle

/-- Bytes being filled from the top bit down. `used` counts the taken bits of the
last byte; it is zero when that byte is full or there is none. -/
structure BitBuffer where
  bytes : Trail UInt8
  used : UInt8
deriving DecidableEq, Inhabited

namespace BitBuffer

open BitStream

def empty : BitBuffer := ⟨.empty, 0⟩

def byteLength (buffer : BitBuffer) : Nat := buffer.bytes.size

def pushBit (buffer : BitBuffer) (bit : Bool) : BitBuffer :=
  let opened := if buffer.used = 0 then buffer.bytes.push 0 else buffer.bytes
  let mask : UInt8 := if bit then 1 <<< (7 - buffer.used) else 0
  { bytes := opened.modifyLast (· ||| mask)
    used := (buffer.used + 1) % 8 }

def pushAll (buffer : BitBuffer) (stream : BitStream) : BitBuffer :=
  stream.foldl pushBit buffer

def pushField (buffer : BitBuffer) (value : UInt64) (width : Nat) : BitBuffer :=
  buffer.pushAll (BitStream.wordField value width)

def lowest (value : UInt64) (width : Fin 65) : UInt64 :=
  if width.val < 64 then value &&& ((1 <<< UInt64.ofNat width) - 1) else value

/-- Writes the lowest bits of a word, from the highest of their places down. -/
def pushPlaces (buffer : BitBuffer) (value : UInt64) (width : Fin 65) : BitBuffer :=
  (List.range width).reverse.foldl
    (fun buffer place => buffer.pushBit (lowest value width >>> UInt64.ofNat place &&& 1 == 1))
    buffer

/-- All eight bits of every byte, unused ones of the last byte included. -/
def stream (buffer : BitBuffer) : BitStream :=
  buffer.bytes.toList.flatMap (fun byte => BitStream.field byte.toNat 8)

def ofBytes (bytes : List UInt8) : BitBuffer := ⟨.ofList bytes, 0⟩

theorem stream_length (buffer : BitBuffer) :
    buffer.stream.length = 8 * buffer.byteLength := by
  unfold stream byteLength
  rw [← Trail.length_toList]
  induction buffer.bytes.toList with
  | nil => rfl
  | cons byte rest ih =>
      simp only [List.flatMap_cons, List.length_append, BitStream.field_length, ih,
        List.length_cons]
      omega

/-- That a stream is what was written to a buffer: it stands at the front of the buffer's
bits, and zeros fill the last byte. -/
def Holds (buffer : BitBuffer) (written : BitStream) : Prop :=
  buffer.used.toNat = written.length % 8 ∧
    ∃ padding, padding < 8 ∧ buffer.stream = written ++ List.replicate padding false

theorem holds_empty : Holds empty [] := ⟨rfl, 0, by decide, rfl⟩

theorem test_mask (used : UInt8) (index : Nat) (taken : used.toNat < 8) (inside : index < 8) :
    ((1 : UInt8) <<< (7 - used)).toNat.testBit (7 - index) = decide (index = used.toNat) := by
  have fits : used ≤ 7 := UInt8.le_iff_toNat_le.mpr (by simpa using Nat.le_of_lt_succ taken)
  have shift : (7 - used).toNat = 7 - used.toNat := UInt8.toNat_sub_of_le _ _ fits
  generalize used.toNat = place at *
  have cases : ∀ place < 8, ∀ index < 8,
      ((1 <<< ((7 - place) % 8) % 256).testBit (7 - index)) = decide (index = place) := by decide
  rw [UInt8.toNat_shiftLeft, shift]
  exact cases place taken index inside

/-- Masking a byte sets one of its bits. -/
theorem field_mask (byte used : UInt8) (taken : used.toNat < 8) :
    field (byte ||| 1 <<< (7 - used)).toNat 8 = (field byte.toNat 8).set used.toNat true := by
  apply List.ext_getElem?
  intro index
  rw [field_get?, List.getElem?_set, field_get?, field_length]
  by_cases inside : index < 8
  · have mask := test_mask used index taken inside
    simp only [inside, if_true, UInt8.toNat_or, Nat.testBit_or, mask]
    by_cases same : used.toNat = index
    · simp [same, inside]
    · simp [same, Ne.symm same]
  · simp [inside]
    omega

theorem stream_mask_last (init : Trail UInt8) (last mask used other : UInt8) :
    stream ⟨(init.push last).modifyLast (· ||| mask), used⟩ =
      stream ⟨init, other⟩ ++ field (last ||| mask).toNat 8 := by
  simp only [stream, Trail.toList_modifyLast_push, List.flatMap_append,
    List.flatMap_singleton]

/-- The next free bit of a byte takes the bit that is written. -/
theorem field_mask_bit (byte used : UInt8) (padding : Nat) (front : BitStream) (bit : Bool)
    (taken : used.toNat < 8) (front_length : front.length = used.toNat)
    (zeros : field byte.toNat 8 = front ++ List.replicate (padding + 1) false) :
    field (byte ||| (if bit then 1 <<< (7 - used) else 0)).toNat 8 =
      front ++ bit :: List.replicate padding false := by
  cases bit with
  | false => simpa [List.replicate_succ] using zeros
  | true =>
      rw [if_pos rfl, field_mask byte used taken, zeros, ← front_length,
        List.set_append_right _ _ (Nat.le_refl _)]
      simp [List.replicate_succ]

/-- Writing a bit appends it to the stream that a buffer holds. -/
theorem holds_push_bit {buffer : BitBuffer} {written : BitStream} (holds : Holds buffer written)
    (bit : Bool) : Holds (buffer.pushBit bit) (written ++ [bit]) := by
  obtain ⟨taken, padding, short, whole⟩ := holds
  have small : buffer.used.toNat < 8 := by omega
  have used : (buffer.pushBit bit).used.toNat = (written ++ [bit]).length % 8 := by
    simp only [pushBit, UInt8.toNat_mod, UInt8.toNat_add, UInt8.reduceToNat,
      List.length_append, List.length_singleton]
    omega
  refine ⟨used, ?_⟩
  have length := congrArg List.length whole
  simp only [stream_length, List.length_append, List.length_replicate] at length
  by_cases closed : buffer.used = 0
  · have full : padding = 0 := by
      simp only [closed, UInt8.reduceToNat] at taken
      omega
    subst full
    refine ⟨7, by decide, ?_⟩
    have fresh := field_mask_bit 0 buffer.used 7 [] bit small (by simp [closed]) (by decide)
    simp only [pushBit, if_pos closed]
    rw [stream_mask_last buffer.bytes 0 _ _ buffer.used, fresh, whole]
    simp
  · have positive : buffer.used.toNat ≠ 0 := fun zero => closed (UInt8.toNat_inj.mp zero)
    obtain ⟨rest, rfl⟩ : ∃ rest, padding = rest + 1 := ⟨padding - 1, by omega⟩
    have filled : 0 < buffer.bytes.size := by
      simp only [byteLength] at length
      omega
    obtain ⟨init, last, parts⟩ := Trail.exists_push_of_size_pos filled
    have bytes : buffer.stream = stream ⟨init, 0⟩ ++ field last.toNat 8 := by
      simp [stream, parts, Trail.toList_push]
    have before := stream_length ⟨init, 0⟩
    simp only [byteLength, parts, Trail.push] at length before
    have written_length :
        written.length = (stream ⟨init, 0⟩).length + buffer.used.toNat := by omega
    rw [bytes] at whole
    have front := congrArg (List.take written.length) whole
    have back := congrArg (List.drop written.length) whole
    rw [List.take_left, written_length, List.take_length_add_append] at front
    rw [List.drop_left, written_length, List.drop_length_add_append] at back
    have zeros := (List.take_append_drop buffer.used.toNat (field last.toNat 8)).symm
    rw [back] at zeros
    have changed := field_mask_bit last buffer.used rest _ bit small (by
      rw [List.length_take, field_length]
      omega) zeros
    refine ⟨rest, by omega, ?_⟩
    simp only [pushBit, if_neg closed, parts]
    rw [stream_mask_last init last _ _ 0, changed, ← front]
    simp

theorem holds_push_all {buffer : BitBuffer} {written : BitStream} (holds : Holds buffer written)
    (stream : BitStream) : Holds (buffer.pushAll stream) (written ++ stream) := by
  induction stream generalizing buffer written with
  | nil => simpa [pushAll] using holds
  | cons bit stream ih =>
      have := ih (holds_push_bit holds bit)
      rwa [List.append_assoc, List.singleton_append] at this

theorem byte_length_of_holds {buffer : BitBuffer} {written : BitStream}
    (holds : Holds buffer written) : buffer.byteLength = (written.length + 7) / 8 := by
  obtain ⟨_, padding, short, whole⟩ := holds
  have length := congrArg List.length whole
  simp only [stream_length, List.length_append, List.length_replicate] at length
  omega

end BitBuffer

end Chronicle

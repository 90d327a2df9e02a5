import Chronicle.Envelope
import Mathlib.Algebra.Group.Nat.Defs

/-!
What a checksum tells apart. Taking a bit out of the remainder can be undone, so two
remainders that differ once differ for good. Up to four bytes enter the remainder like one
word of as many bits, so byte strings that differ in a few neighbouring bytes, and nowhere
else, differ in their checksums.
-/

namespace Chronicle

namespace Bytes

theorem to_number_lt (bytes : Bytes) : toNumber bytes < 2 ^ (8 * bytes.length) := by
  induction bytes with
  | nil => simp [toNumber]
  | cons byte bytes ih =>
      have bound := byte.toNat_lt
      rw [toNumber, List.length_cons, Nat.mul_succ, Nat.pow_add]
      omega

theorem to_number_inj {left right : Bytes} (length : left.length = right.length)
    (same : toNumber left = toNumber right) : left = right := by
  induction left generalizing right with
  | nil => exact (List.length_eq_zero_iff.mp length.symm).symm
  | cons byte left ih =>
      obtain ⟨other, right, rfl⟩ := List.exists_cons_of_length_eq_add_one length.symm
      simp only [toNumber] at same
      have bound := byte.toNat_lt
      have otherBound := other.toNat_lt
      have first : byte = other := UInt8.toNat_inj.mp (by omega)
      have later := ih (Nat.succ.inj length) (by omega)
      rw [first, later]

end Bytes

namespace Checksum

theorem odd_iff (word : UInt32) : word % 2 = 1 ↔ word.toNat % 2 = 1 := by
  rw [← UInt32.toNat_inj, UInt32.toNat_mod]
  rfl

theorem shift_right_one (word : UInt32) : (word >>> 1).toNat = word.toNat / 2 := by
  rw [UInt32.toNat_shiftRight, Nat.shiftRight_eq_div_pow]
  rfl

theorem eq_of_halves {left right : UInt32} (halves : left >>> 1 = right >>> 1)
    (parity : left % 2 = 1 ↔ right % 2 = 1) : left = right := by
  have halvesNat := congrArg UInt32.toNat halves
  rw [shift_right_one, shift_right_one] at halvesNat
  rw [odd_iff, odd_iff] at parity
  apply UInt32.toNat_inj.mp
  omega

/-- The bit that was taken out shows in the highest bit, where moving alone leaves none. -/
theorem reduced_ne_moved (left right : UInt32) :
    (left >>> 1) ^^^ polynomial ≠ right >>> 1 := by
  intro same
  have highest := congrArg (fun word : UInt32 => word.toBitVec.msb) same
  have set : polynomial.toBitVec.msb = true := by decide
  simp [set] at highest

theorem shift_inj {left right : UInt32} (same : shift left = shift right) : left = right := by
  unfold shift at same
  split at same <;> split at same
  · rename_i odd otherOdd
    exact eq_of_halves ((UInt32.xor_left_inj polynomial).mp same) (by simp [odd, otherOdd])
  · exact absurd same (reduced_ne_moved left right)
  · exact absurd same.symm (reduced_ne_moved right left)
  · rename_i even otherEven
    exact eq_of_halves same (by simp [even, otherEven])

theorem shifts_inj (count : Nat) {left right : UInt32}
    (same : shifts count left = shifts count right) : left = right := by
  induction count generalizing left right with
  | zero => exact same
  | succ count ih => exact shift_inj (ih same)

theorem shifts_add (first later : Nat) (remainder : UInt32) :
    shifts (first + later) remainder = shifts later (shifts first remainder) := by
  induction first generalizing remainder with
  | zero => rw [Nat.zero_add, shifts]
  | succ first ih => rw [Nat.succ_add, shifts, shifts, ih]

/-- Taking a bit out moves what stands above it, and does nothing else to that. -/
theorem shift_above (remainder : UInt32) {above : Nat} (fits : above * 2 < 2 ^ 32) :
    shift (remainder ^^^ .ofNat (above * 2)) = shift remainder ^^^ .ofNat above := by
  have whole : (UInt32.ofNat (above * 2)).toNat = above * 2 := UInt32.toNat_ofNat_of_lt' fits
  have parity : (remainder ^^^ .ofNat (above * 2)) % 2 = 1 ↔ remainder % 2 = 1 := by
    rw [odd_iff, odd_iff, UInt32.toNat_xor, Nat.xor_mod_two_eq_one, whole]
    omega
  have moved : UInt32.ofNat (above * 2) >>> 1 = .ofNat above := by
    apply UInt32.toNat_inj.mp
    rw [shift_right_one, whole, UInt32.toNat_ofNat_of_lt' (show above < 2 ^ 32 by omega)]
    omega
  unfold shift
  simp only [parity, UInt32.shiftRight_xor, moved]
  split
  · rw [UInt32.xor_assoc, UInt32.xor_comm (.ofNat above), ← UInt32.xor_assoc]
  · rfl

theorem shifts_above (count : Nat) (remainder : UInt32) {above : Nat}
    (fits : above * 2 ^ count < 2 ^ 32) :
    shifts count (remainder ^^^ .ofNat (above * 2 ^ count)) =
      shifts count remainder ^^^ .ofNat above := by
  induction count generalizing remainder with
  | zero => simp [shifts]
  | succ count ih =>
      rw [Nat.pow_succ, ← Nat.mul_assoc] at fits ⊢
      rw [shifts, shifts, shift_above remainder fits, ih (shift remainder) (by omega)]

theorem step_inj (byte : UInt8) {left right : UInt32}
    (same : step left byte = step right byte) : left = right :=
  (UInt32.xor_left_inj byte.toUInt32).mp (shifts_inj 8 same)

/-- Remainders that differ are told apart whatever is taken in after them. -/
theorem steps_inj (bytes : Bytes) {left right : UInt32}
    (same : bytes.foldl step left = bytes.foldl step right) : left = right := by
  induction bytes generalizing left right with
  | nil => exact same
  | cons byte bytes ih => exact step_inj byte (ih same)

/-- A byte below a number is a digit of it. -/
theorem byte_xor_above (byte : UInt8) {above : Nat} (fits : above * 2 ^ 8 < 2 ^ 32) :
    byte.toUInt32 ^^^ .ofNat (above * 2 ^ 8) = .ofNat (byte.toNat + 256 * above) := by
  have bound := byte.toNat_lt
  have low : (byte.toNat ^^^ above * 2 ^ 8) % 2 ^ 8 = byte.toNat := by
    rw [Nat.xor_mod_two_pow, Nat.mul_mod_left, Nat.xor_zero, Nat.mod_eq_of_lt bound]
  have high : (byte.toNat ^^^ above * 2 ^ 8) / 2 ^ 8 = above := by
    rw [Nat.xor_div_two_pow, Nat.mul_div_cancel _ (by decide), Nat.div_eq_of_lt bound,
      Nat.zero_xor]
  apply UInt32.toNat_inj.mp
  rw [UInt32.toNat_xor, UInt8.toNat_toUInt32, UInt32.toNat_ofNat_of_lt' fits,
    UInt32.toNat_ofNat_of_lt' (show byte.toNat + 256 * above < 2 ^ 32 by omega)]
  omega

/-- Up to four bytes are taken in like the word that they make. -/
theorem steps_eq {bytes : Bytes} (short : bytes.length ≤ 4) (remainder : UInt32) :
    bytes.foldl step remainder =
      shifts (8 * bytes.length) (remainder ^^^ .ofNat (Bytes.toNumber bytes)) := by
  induction bytes generalizing remainder with
  | nil => simp [shifts, Bytes.toNumber]
  | cons byte bytes ih =>
      simp only [List.length_cons] at short
      have fits : Bytes.toNumber bytes * 2 ^ 8 < 2 ^ 32 := by
        have bound := Bytes.to_number_lt bytes
        have width : 2 ^ (8 * bytes.length) ≤ 2 ^ 24 :=
          Nat.pow_le_pow_right (by decide) (by omega)
        omega
      calc (byte :: bytes).foldl step remainder
          = shifts (8 * bytes.length)
              (step remainder byte ^^^ .ofNat (Bytes.toNumber bytes)) := by
            rw [List.foldl_cons, ih (by omega)]
        _ = shifts (8 * bytes.length) (shifts 8
              (remainder ^^^ byte.toUInt32 ^^^ .ofNat (Bytes.toNumber bytes * 2 ^ 8))) := by
            rw [step, shifts_above 8 _ fits]
        _ = shifts (8 * (byte :: bytes).length)
              (remainder ^^^ .ofNat (Bytes.toNumber (byte :: bytes))) := by
            rw [UInt32.xor_assoc, byte_xor_above byte fits, ← shifts_add, List.length_cons,
              Nat.mul_succ, Nat.add_comm 8, Bytes.toNumber]

/-- From one remainder, different byte strings of one length lead to different ones, if they
are not longer than a word. -/
theorem steps_tell {old new : Bytes} (length : new.length = old.length) (short : old.length ≤ 4)
    {remainder : UInt32} (same : new.foldl step remainder = old.foldl step remainder) :
    new = old := by
  rw [steps_eq short, steps_eq (length ▸ short), length] at same
  have words := (UInt32.xor_right_inj remainder).mp (shifts_inj _ same)
  have fits (bytes : Bytes) (few : bytes.length ≤ 4) : Bytes.toNumber bytes < 2 ^ 32 :=
    Nat.lt_of_lt_of_le (Bytes.to_number_lt bytes)
      (Nat.pow_le_pow_right (by decide) (by omega))
  have numbers := congrArg UInt32.toNat words
  rw [UInt32.toNat_ofNat_of_lt' (fits new (length ▸ short)),
    UInt32.toNat_ofNat_of_lt' (fits old short)] at numbers
  exact Bytes.to_number_inj length numbers

end Checksum

/-- A change of up to four neighbouring bytes changes the checksum, wherever it is. -/
theorem checksum_tells (before after : Bytes) {old new : Bytes}
    (length : new.length = old.length) (short : old.length ≤ 4)
    (same : checksum (before ++ new ++ after) = checksum (before ++ old ++ after)) :
    new = old := by
  have remainders := UInt32.not_inj.mp same
  rw [List.foldl_append, List.foldl_append, List.foldl_append, List.foldl_append] at remainders
  exact Checksum.steps_tell length short (Checksum.steps_inj after remainders)

/-- The check value of CRC-32: the sum of the digits from one to nine. -/
example : checksum [0x31, 0x32, 0x33, 0x34, 0x35, 0x36, 0x37, 0x38, 0x39] = 0xcbf43926 := by
  decide +kernel

end Chronicle

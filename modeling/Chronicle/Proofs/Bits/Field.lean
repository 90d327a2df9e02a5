import Chronicle.Bits.Stream
import Mathlib.Algebra.Group.Nat.Defs

/-!
Fields read back. Reading a width takes exactly the bits that writing it produced and
leaves what follows; the word read is the value modulo 2 to the width. No width is
excluded: what grows past a word is lost at its top on both sides of the equation.
-/

namespace Chronicle

namespace BitStream

/-- One more bit below those taken doubles the word and adds the bit. -/
theorem shift_in (number : Nat) (bit : Bool) :
    (UInt64.ofNat number <<< 1 ||| (if bit then 1 else 0)) =
      UInt64.ofNat (2 * number + bit.toNat) := by
  have doubled : UInt64.ofNat number <<< 1 = UInt64.ofNat (2 * number) := by
    apply UInt64.toNat_inj.mp
    simp [UInt64.toNat_shiftLeft, Nat.shiftLeft_eq, Nat.mul_comm]
  cases bit with
  | false => simp [doubled]
  | true =>
      apply UInt64.toNat_inj.mp
      have even : (2 * number) % 2 ^ 64 = 2 ^ 1 * (number % 2 ^ 63) := by omega
      rw [if_pos rfl, doubled, UInt64.toNat_or, UInt64.toNat_ofNat', UInt64.toNat_ofNat', even,
        Bool.toNat_true, UInt64.toNat_one, ← Nat.two_pow_add_eq_or_of_lt (by decide)]
      omega

theorem read_onto_field (number value width : Nat) (rest : BitStream) :
    readOnto (UInt64.ofNat number) width (field value width ++ rest) =
      .ok (UInt64.ofNat (number * 2 ^ width + value % 2 ^ width), rest) := by
  induction width generalizing number with
  | zero => simp [readOnto, field, Nat.mod_one]
  | succ width ih =>
      have split : value % 2 ^ (width + 1) =
          2 ^ width * (value.testBit width).toNat + value % 2 ^ width := by
        rw [Nat.mod_pow_succ, Nat.toNat_testBit, Nat.add_comm]
      simp only [field, List.cons_append, readOnto, shift_in, ih, split]
      congr 3
      rw [Nat.pow_succ]
      grind

/-- A field is read back as its value, which loses what its width does not hold. -/
theorem read_field_field (value width : Nat) (rest : BitStream) :
    readField width (field value width ++ rest) =
      .ok (UInt64.ofNat (value % 2 ^ width), rest) := by
  simpa [readField] using read_onto_field 0 value width rest

theorem read_field_of_lt {value width : Nat} (fits : value < 2 ^ width) (rest : BitStream) :
    readField width (field value width ++ rest) = .ok (UInt64.ofNat value, rest) := by
  rw [read_field_field, Nat.mod_eq_of_lt fits]

/-- Bits above the width of a field leave no trace in it. -/
theorem field_mod (value width : Nat) : field (value % 2 ^ width) width = field value width := by
  apply List.ext_getElem?
  intro index
  rw [field_get?, field_get?]
  by_cases inside : index < width
  · rw [if_pos inside, if_pos inside, Nat.testBit_mod_two_pow,
      decide_eq_true (show width - 1 - index < width by omega), Bool.true_and]
  · rw [if_neg inside, if_neg inside]

theorem exists_field (bits : BitStream) :
    ∃ value < 2 ^ bits.length, bits = field value bits.length := by
  induction bits with
  | nil => exact ⟨0, by simp, rfl⟩
  | cons bit rest ih =>
      obtain ⟨value, fits, same⟩ := ih
      refine ⟨2 ^ rest.length * bit.toNat + value, ?_, ?_⟩
      · have highest : bit.toNat ≤ 1 := Bool.toNat_le bit
        have top := Nat.mul_le_mul_left (2 ^ rest.length) highest
        rw [List.length_cons, Nat.pow_succ]
        omega
      · have lower : (2 ^ rest.length * bit.toNat + value) % 2 ^ rest.length = value := by
          rw [Nat.mul_add_mod, Nat.mod_eq_of_lt fits]
        have upper : (2 ^ rest.length * bit.toNat + value).testBit rest.length = bit := by
          rw [Nat.testBit_two_pow_mul_add _ fits, if_neg (Nat.lt_irrefl _), Nat.sub_self]
          cases bit <;> rfl
        rw [List.length_cons, field, upper, ← field_mod, lower, ← same]

theorem read_field_lt {width : Nat} (fits : width ≤ 64) {stream rest : BitStream} {value : UInt64}
    (read : readField width stream = .ok (value, rest)) : value.toNat < 2 ^ width := by
  have enough : width ≤ stream.length := by
    apply Nat.not_lt.mp
    intro short
    exact nomatch (read_onto_short 0 width stream short).symm.trans read
  obtain ⟨number, small, same⟩ := exists_field (stream.take width)
  rw [List.length_take_of_le enough] at small same
  rw [← List.take_append_drop width stream, same, read_field_of_lt small] at read
  have word := (Prod.mk.inj (Except.ok.inj read)).1
  have below := Nat.lt_of_lt_of_le small (Nat.pow_le_pow_right (by decide) fits)
  rwa [← word, UInt64.toNat_ofNat', Nat.mod_eq_of_lt below]

end BitStream

end Chronicle

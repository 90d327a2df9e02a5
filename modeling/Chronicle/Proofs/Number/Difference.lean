import Chronicle.Number.Shortest
import Mathlib

/-!
Differences of doubles. A difference of numbers is not a number only where both are the same
infinity, and it is the same number whichever of the two zeros is taken for a zero.
-/

namespace Chronicle

namespace Binary64

open Float.Model (UnpackedFloat Format)

def negativeInfinity : Binary64 := ⟨0xfff0000000000000⟩

def negativeZero : Binary64 := ⟨0x8000000000000000⟩

/-- Whether two values are the same number, or no number either. -/
def Same (left right : Binary64) : Prop :=
  left.isNaN = right.isNaN ∧ (left.isNaN = false → left.orderKey = right.orderKey)

instance (left right : Binary64) : Decidable (Same left right) :=
  inferInstanceAs (Decidable (_ ∧ _))

theorem magnitude_toNat (value : Binary64) :
    value.magnitude.toNat = value.bits.toNat % 2 ^ 63 := by
  rw [magnitude, UInt64.toNat_and]
  exact Nat.and_two_pow_sub_one_eq_mod value.bits.toNat 63

theorem isNaN_iff (value : Binary64) :
    value.isNaN = true ↔ 2047 * 2 ^ 52 < value.bits.toNat % 2 ^ 63 := by
  rw [isNaN, decide_eq_true_iff, gt_iff_lt, UInt64.lt_iff_toNat_lt, magnitude_toNat]
  rfl

theorem order_key_eq (value : Binary64) :
    value.orderKey = if value.bits.toNat < 2 ^ 63 then (value.bits.toNat : Int)
      else 2 ^ 63 - value.bits.toNat := by
  have bound := value.bits.toNat_lt
  have sign : value.isNegative = true ↔ 2 ^ 63 ≤ value.bits.toNat := by
    rw [isNegative, decide_eq_true_iff, ge_iff_le, UInt64.le_iff_toNat_le]
    rfl
  rw [orderKey, magnitude_toNat]
  by_cases negative : value.isNegative = true
  · have high := sign.mp negative
    rw [if_pos negative, if_neg (by omega)]
    omega
  · have low := mt sign.mpr negative
    rw [if_neg negative, if_pos (by omega)]
    omega

/-- Only the zeros are different values with the same key. -/
theorem eq_or_zeros {left right : Binary64} (same : left.orderKey = right.orderKey) :
    left = right ∨ left = zero ∧ right = negativeZero ∨ left = negativeZero ∧ right = zero := by
  have of_bits : ∀ {one other : Binary64}, one.bits.toNat = other.bits.toNat → one = other :=
    fun equal => congrArg Binary64.mk (UInt64.toNat_inj.mp equal)
  have none : zero.bits.toNat = 0 := rfl
  have sign : negativeZero.bits.toNat = 2 ^ 63 := rfl
  rw [order_key_eq, order_key_eq] at same
  by_cases positive : left.bits.toNat < 2 ^ 63
  · by_cases other : right.bits.toNat < 2 ^ 63
    · rw [if_pos positive, if_pos other] at same
      exact Or.inl (of_bits (by omega))
    · rw [if_pos positive, if_neg other] at same
      exact Or.inr (Or.inl ⟨of_bits (by omega), of_bits (by omega)⟩)
  · by_cases other : right.bits.toNat < 2 ^ 63
    · rw [if_neg positive, if_pos other] at same
      exact Or.inr (Or.inr ⟨of_bits (by omega), of_bits (by omega)⟩)
    · rw [if_neg positive, if_neg other] at same
      exact Or.inl (of_bits (by omega))

theorem quiet_isNaN {value : Binary64} (nan : value.isNaN = true) : value.quiet.isNaN = true := by
  rw [isNaN_iff] at nan ⊢
  apply Nat.lt_of_lt_of_le nan
  rw [quiet, UInt64.toNat_or, Nat.or_mod_two_pow]
  exact Nat.left_le_or

theorem exponent_toNat (bits : UInt64) :
    (@UnpackedFloat.unpackExponent Format.binary64 bits.toBitVec).toNat =
      bits.toNat / 2 ^ 52 % 2 ^ 11 := by
  simp [UnpackedFloat.unpackExponent, Nat.shiftRight_eq_div_pow]

theorem mantissa_toNat (bits : UInt64) :
    (@UnpackedFloat.unpackMantissa Format.binary64 bits.toBitVec).toNat = bits.toNat % 2 ^ 52 := by
  simp [UnpackedFloat.unpackMantissa]

theorem unpack_not_number (word : BitVec Format.binary64.numBits) :
    (UnpackedFloat.unpack Format.binary64 word).isNaN = true ↔
      UnpackedFloat.unpackExponent word = 2047#11 ∧ UnpackedFloat.unpackMantissa word ≠ 0#52 := by
  have full : -1#11 = 2047#11 := by decide
  unfold UnpackedFloat.unpack
  dsimp only
  rw [full]
  split_ifs <;> simp [UnpackedFloat.isNaN, *]

theorem unpack_infinite (word : BitVec Format.binary64.numBits) :
    (UnpackedFloat.unpack Format.binary64 word).isInf = true ↔
      UnpackedFloat.unpackExponent word = 2047#11 ∧ UnpackedFloat.unpackMantissa word = 0#52 := by
  have full : -1#11 = 2047#11 := by decide
  unfold UnpackedFloat.unpack
  dsimp only
  rw [full]
  split_ifs <;> simp [UnpackedFloat.isInf, *]

/-- A packed number has all bits of its exponent only if it is too large, and then no others. -/
theorem pack_finite_full {sign : UnpackedFloat.Sign} {mantissa : Nat} {exponent : Int}
    {positive : 0 < mantissa}
    (full : UnpackedFloat.unpackExponent
      (UnpackedFloat.pack Format.binary64 (.finite sign mantissa exponent positive)) = 2047#11) :
    2047 ≤ exponent + 1075 ∧ UnpackedFloat.unpackMantissa
      (UnpackedFloat.pack Format.binary64 (.finite sign mantissa exponent positive)) = 0#52 := by
  have bias : Format.binary64.exponentBias = 1023 := by decide
  unfold UnpackedFloat.pack at full ⊢
  dsimp only at full ⊢
  rw [bias] at full ⊢
  split_ifs at full ⊢ with overflows normal
  · constructor
    · omega
    · simp [UnpackedFloat.packedInfinity]
  · rw [UnpackedFloat.unpackExponent_packComponents] at full
    have same := congrArg BitVec.toNat full
    simp only [BitVec.toNat_ofNat] at same
    omega
  · rw [UnpackedFloat.unpackExponent_packComponents] at full
    exact absurd full (by decide)

theorem pack_isNaN (number : UnpackedFloat) :
    (Float.Model.pack number).isNaN = number.isNaN := by
  rw [Bool.eq_iff_iff, Float.Model.isNaN, Float.Model.unpack, unpack_not_number]
  simp only [Float.Model.pack, UInt64.toBitVec_ofBitVec]
  cases number with
  | notANumber => simp [UnpackedFloat.pack, UnpackedFloat.packedNaN, UnpackedFloat.isNaN]
  | infinity sign => simp [UnpackedFloat.pack, UnpackedFloat.packedInfinity, UnpackedFloat.isNaN]
  | zero sign => simp [UnpackedFloat.pack, UnpackedFloat.packedZero, UnpackedFloat.isNaN]
  | finite sign mantissa exponent positive =>
      have none : ¬ (UnpackedFloat.finite sign mantissa exponent positive).isNaN = true := by
        simp [UnpackedFloat.isNaN]
      refine iff_of_false ?_ none
      rintro ⟨full, filled⟩
      exact filled (pack_finite_full full).2

theorem unpack_isNaN (value : Binary64) :
    (UnpackedFloat.unpack Format.binary64 value.bits.toBitVec).isNaN = value.isNaN := by
  have exponent := exponent_toNat value.bits
  have mantissa := mantissa_toNat value.bits
  rw [Bool.eq_iff_iff, unpack_not_number, isNaN_iff, ← BitVec.toNat_inj, exponent,
    ne_eq, ← BitVec.toNat_inj, mantissa]
  simp only [BitVec.toNat_ofNat]
  omega

def parts (value : Binary64) : UnpackedFloat := (Float.Model.ofBits value.bits).unpack

theorem parts_isNaN (value : Binary64) : value.parts.isNaN = value.isNaN :=
  (pack_isNaN _).trans (unpack_isNaN value)

theorem unpack_finite_small {word : BitVec Format.binary64.numBits} {sign : UnpackedFloat.Sign}
    {mantissa : Nat} {exponent : Int} {positive : 0 < mantissa}
    (finite : UnpackedFloat.unpack Format.binary64 word =
      .finite sign mantissa exponent positive) : exponent + 1075 < 2047 := by
  have bias : Format.binary64.exponentBias = 1023 := by decide
  have full : -1#11 = 2047#11 := by decide
  have bound := (@UnpackedFloat.unpackExponent Format.binary64 word).isLt
  unfold UnpackedFloat.unpack at finite
  dsimp only at finite bound
  rw [bias, full] at finite
  split_ifs at finite with large whole none filled
  · obtain ⟨_, _, same⟩ := UnpackedFloat.finite.inj finite
    rw [none] at same
    simp only [BitVec.toNat_ofNat] at same
    omega
  · have less : (@UnpackedFloat.unpackExponent Format.binary64 word).toNat ≠ 2047 :=
      fun same => large (BitVec.toNat_inj.mp same)
    obtain ⟨_, _, same⟩ := UnpackedFloat.finite.inj finite
    omega

theorem parts_infinity {value : Binary64} (infinite : value.parts.isInf = true) :
    value = infinity ∨ value = negativeInfinity := by
  have exponent := exponent_toNat value.bits
  have mantissa := mantissa_toNat value.bits
  have packed := (unpack_infinite _).mp infinite
  simp only [Float.Model.ofBits, Float.Model.pack, UInt64.toBitVec_ofBitVec] at packed
  obtain ⟨full, none⟩ := packed
  cases unpacked : UnpackedFloat.unpack Format.binary64 value.bits.toBitVec with
  | notANumber =>
      simp [unpacked, UnpackedFloat.pack, UnpackedFloat.packedNaN] at none
  | infinity sign =>
      have every : (UnpackedFloat.unpack Format.binary64 value.bits.toBitVec).isInf = true := by
        rw [unpacked]
        rfl
      obtain ⟨above, below⟩ := (unpack_infinite _).mp every
      rw [above] at exponent
      rw [below] at mantissa
      have bound := value.bits.toNat_lt
      simp only [BitVec.toNat_ofNat] at exponent mantissa
      have ends : value.bits.toNat = 0x7ff0000000000000 ∨
          value.bits.toNat = 0xfff0000000000000 := by omega
      exact ends.imp (fun same => congrArg Binary64.mk (UInt64.toNat_inj.mp same))
        (fun same => congrArg Binary64.mk (UInt64.toNat_inj.mp same))
  | zero sign =>
      simp [unpacked, UnpackedFloat.pack, UnpackedFloat.packedZero] at full
  | finite sign fraction power positive =>
      -- a number read from a double is small enough to be packed as a number again
      rw [unpacked] at full
      have large := (pack_finite_full full).1
      have small := unpack_finite_small unpacked
      omega

def ofParts (parts : UnpackedFloat) : Binary64 := ofFloat (.ofModel (.pack parts))

theorem sub_numbers {left right : Binary64} (first : left.isNaN = false)
    (second : right.isNaN = false) :
    sub left right = ofParts (.sub Format.binary64 left.parts right.parts) := by
  rw [sub, rounded, first, second]
  rfl

theorem ofParts_isNaN (parts : UnpackedFloat) : (ofParts parts).isNaN = parts.isNaN := by
  have packed := pack_isNaN parts
  have word : (Float.Model.pack parts).isNaN = _ := unpack_isNaN ⟨(Float.Model.pack parts).toBits⟩
  have same : (Float.ofModel (.pack parts)).isNaN = (Float.Model.pack parts).isNaN := rfl
  rw [ofParts, ofFloat, same, ← packed]
  split
  · rename_i nan
    rw [nan]
    rfl
  · exact word.symm

theorem normalize_isNaN (mantissa exponent : Int) (sign : UnpackedFloat.Sign) :
    (UnpackedFloat.normalize Format.binary64 mantissa exponent sign).isNaN = false := by
  have rounded : ∀ (sign : UnpackedFloat.Sign) (mantissa : Nat) (exponent : Int),
      (UnpackedFloat.round Format.binary64 sign mantissa exponent).isNaN = false := by
    intro sign mantissa exponent
    unfold UnpackedFloat.round UnpackedFloat.roundWithAccuracy
    dsimp only
    split <;> rfl
  unfold UnpackedFloat.normalize
  split
  · exact rounded _ _ _
  · rfl
  · exact rounded _ _ _

theorem sub_parts_isNaN {left right : UnpackedFloat} (first : left.isNaN = false)
    (second : right.isNaN = false)
    (nan : (UnpackedFloat.sub Format.binary64 left right).isNaN = true) :
    ∃ sign, left = .infinity sign ∧ right = .infinity sign := by
  cases left with
  | notANumber => exact nomatch first
  | infinity sign =>
      cases right with
      | notANumber => exact nomatch second
      | infinity other =>
          cases sign <;> cases other
          · exact ⟨_, rfl, rfl⟩
          · exact nomatch nan
          · exact nomatch nan
          · exact ⟨_, rfl, rfl⟩
      | zero other => exact nomatch nan
      | finite other mantissa exponent positive => exact nomatch nan
  | zero sign =>
      cases right with
      | notANumber => exact nomatch second
      | infinity other => exact nomatch nan
      | zero other => cases sign <;> cases other <;> exact nomatch nan
      | finite other mantissa exponent positive => exact nomatch nan
  | finite sign mantissa exponent positive =>
      cases right with
      | notANumber => exact nomatch second
      | infinity other => exact nomatch nan
      | zero other => exact nomatch nan
      | finite other fraction power filled =>
          unfold UnpackedFloat.sub at nan
          dsimp only at nan
          rw [normalize_isNaN] at nan
          exact nomatch nan

/-- A difference of numbers is none exactly where both are the same infinity. -/
theorem sub_isNaN {left right : Binary64} (first : left.isNaN = false)
    (second : right.isNaN = false) :
    (sub left right).isNaN = true ↔
      left = infinity ∧ right = infinity ∨ left = negativeInfinity ∧ right = negativeInfinity := by
  constructor
  · intro nan
    rw [sub_numbers first second, ofParts_isNaN] at nan
    rw [← parts_isNaN] at first second
    obtain ⟨sign, large, equal⟩ := sub_parts_isNaN first second nan
    have above : infinity.parts = .infinity .positive := rfl
    have below : negativeInfinity.parts = .infinity .negative := rfl
    have one := parts_infinity (show left.parts.isInf = true by rw [large]; rfl)
    have other := parts_infinity (show right.parts.isInf = true by rw [equal]; rfl)
    rcases one with rfl | rfl <;> rcases other with rfl | rfl
    · exact Or.inl ⟨rfl, rfl⟩
    · rw [above] at large
      rw [below, ← large] at equal
      exact nomatch equal
    · rw [below] at large
      rw [above, ← large] at equal
      exact nomatch equal
    · exact Or.inr ⟨rfl, rfl⟩
  · rintro (⟨rfl, rfl⟩ | ⟨rfl, rfl⟩) <;> rfl

theorem same_refl (value : Binary64) : Same value value := ⟨rfl, fun _ => rfl⟩

theorem same_symm {left right : Binary64} (same : Same left right) : Same right left :=
  ⟨same.1.symm, fun number => (same.2 (same.1.trans number)).symm⟩

theorem same_comm {left right : Binary64} : Same left right ↔ Same right left :=
  ⟨same_symm, same_symm⟩

/-- That parts differ at most in the sign of a zero. -/
def Near (left right : UnpackedFloat) : Prop :=
  left = right ∨ (∃ sign, left = .zero sign) ∧ ∃ sign, right = .zero sign

theorem near_parts {left right : Binary64} (same : left.orderKey = right.orderKey) :
    Near left.parts right.parts := by
  rcases eq_or_zeros same with rfl | ⟨rfl, rfl⟩ | ⟨rfl, rfl⟩
  · exact Or.inl rfl
  · exact Or.inr ⟨⟨.positive, rfl⟩, .negative, rfl⟩
  · exact Or.inr ⟨⟨.negative, rfl⟩, .positive, rfl⟩

theorem same_of_near {left right : UnpackedFloat} (near : Near left right) :
    Same (ofParts left) (ofParts right) := by
  rcases near with rfl | ⟨⟨sign, rfl⟩, other, rfl⟩
  · exact same_refl _
  · cases sign <;> cases other <;> decide

theorem exists_zero_sub_zero (sign other : UnpackedFloat.Sign) :
    ∃ rest, UnpackedFloat.sub Format.binary64 (.zero sign) (.zero other) = .zero rest := by
  cases sign <;> cases other <;> exact ⟨_, rfl⟩

theorem near_sub {left right one other : UnpackedFloat} (minuend : Near left one)
    (subtrahend : Near right other) :
    Near (UnpackedFloat.sub Format.binary64 left right)
      (UnpackedFloat.sub Format.binary64 one other) := by
  rcases minuend with rfl | ⟨⟨sign, rfl⟩, last, rfl⟩
  · rcases subtrahend with rfl | ⟨⟨sign, rfl⟩, last, rfl⟩
    · exact Or.inl rfl
    · cases left with
      | zero first => exact Or.inr ⟨exists_zero_sub_zero _ _, exists_zero_sub_zero _ _⟩
      | notANumber | infinity | finite => exact Or.inl rfl
  · rcases subtrahend with rfl | ⟨⟨first, rfl⟩, second, rfl⟩
    · cases right with
      | zero first => exact Or.inr ⟨exists_zero_sub_zero _ _, exists_zero_sub_zero _ _⟩
      | notANumber | infinity | finite => exact Or.inl rfl
    · exact Or.inr ⟨exists_zero_sub_zero _ _, exists_zero_sub_zero _ _⟩

theorem sub_of_nan_left {left : Binary64} (nan : left.isNaN = true) (right : Binary64) :
    (sub left right).isNaN = true := by
  rw [sub, rounded, if_pos nan]
  exact quiet_isNaN nan

theorem sub_of_nan_right {left right : Binary64} (first : left.isNaN = false)
    (nan : right.isNaN = true) : (sub left right).isNaN = true := by
  rw [sub, rounded, first, if_neg Bool.false_ne_true, if_pos nan]
  exact quiet_isNaN nan

theorem same_of_nan {left right : Binary64} (first : left.isNaN = true)
    (second : right.isNaN = true) : Same left right :=
  ⟨first.trans second.symm, fun number => nomatch first.symm.trans number⟩

/-- Differences of the same numbers are the same. -/
theorem same_sub {left right one other : Binary64} (minuend : Same left one)
    (subtrahend : Same right other) : Same (sub left right) (sub one other) := by
  cases first : left.isNaN with
  | true =>
      have nan := minuend.1.symm.trans first
      exact same_of_nan (sub_of_nan_left first _) (sub_of_nan_left nan _)
  | false =>
      have number := minuend.1.symm.trans first
      cases second : right.isNaN with
      | true =>
          have nan := subtrahend.1.symm.trans second
          exact same_of_nan (sub_of_nan_right first second) (sub_of_nan_right number nan)
      | false =>
          have whole := subtrahend.1.symm.trans second
          rw [sub_numbers first second, sub_numbers number whole]
          exact same_of_near (near_sub (near_parts (minuend.2 first))
            (near_parts (subtrahend.2 second)))

end Binary64

end Chronicle

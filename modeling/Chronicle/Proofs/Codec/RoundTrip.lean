import Chronicle.Codec.Delta
import Chronicle.Codec.Window
import Chronicle.Proofs.Bits.Field

/-!
Timestamps and values read back. What is written for a timestamp, whatever it is and whatever
the last step was, is read as that timestamp from the same state, and the rest of the stream is
left as it was. The same holds of a value as long as the window in force lies inside a word,
and the reader ends in the state of the writer. The writer only ever announces windows inside a
word, so this goes on for a whole stream.
-/

namespace Chronicle

namespace DeltaState

theorem read_ones_announce (ones : Nat) (few : ones ≤ 4) (rest : BitStream) :
    readOnes 4 (announce ones ++ rest) = .ok (ones, rest) := by
  have shapes : ones = 0 ∨ ones = 1 ∨ ones = 2 ∨ ones = 3 ∨ ones = 4 := by omega
  rcases shapes with rfl | rfl | rfl | rfl | rfl <;> rfl

theorem change_class_le (change : UInt64) : changeClass change ≤ 4 := by
  unfold changeClass
  split
  · decide
  split
  · decide
  split
  · decide
  split <;> decide

theorem change_fits_width (change : UInt64) :
    change.toNat < 2 ^ changeWidth (changeClass change) := by
  have bound := change.toNat_lt
  unfold changeClass
  split
  · rename_i same
    simp [same, changeWidth]
  split
  · rename_i small
    simpa [changeWidth] using UInt64.lt_iff_toNat_lt.mp small
  split
  · rename_i medium
    simpa [changeWidth] using UInt64.lt_iff_toNat_lt.mp medium
  split
  · rename_i large
    simpa [changeWidth] using UInt64.lt_iff_toNat_lt.mp large
  · exact bound

theorem retrace (previous step timestamp : UInt64) :
    previous + (step + (timestamp - previous - step)) = timestamp := by grind

theorem decode_encode_delta (state : DeltaState) (timestamp : Timestamp) (rest : BitStream) :
    state.decode (state.encode timestamp ++ rest) = .ok (timestamp, rest) := by
  let change := zigzag (timestamp - state.previous - state.step)
  have ones := read_ones_announce (changeClass change) (change_class_le change)
    (BitStream.field change.toNat (changeWidth (changeClass change)) ++ rest)
  have word := BitStream.read_field_of_lt (change_fits_width change) rest
  simp only [UInt64.ofNat_toNat] at word
  have written : state.encode timestamp ++ rest = announce (changeClass change) ++
      (BitStream.field change.toNat (changeWidth (changeClass change)) ++ rest) := by
    simp [encode, change]
  simp only [decode, written, ones, word, bind, Except.bind, change, unzigzag_zigzag, retrace]

end DeltaState

namespace WindowState

/-- That the window in force, if there is one, fills a word together with what lies
above and below it. -/
def Inside (state : WindowState) : Prop :=
  state.width = 0 ∨ state.leading.toNat + state.width.toNat + state.trailing.toNat = 64

theorem inside_start (first : Value) : Inside (start first) := Or.inl rfl

theorem low_zeros_dvd (width number : Nat) : 2 ^ lowZeros width number ∣ number := by
  induction width generalizing number with
  | zero => simp [lowZeros]
  | succ width ih =>
      unfold lowZeros
      split
      · simp
      · rename_i even
        have halves : number = number / 2 * 2 := by omega
        rw [halves, Nat.pow_succ, Nat.mul_div_cancel _ (by decide)]
        exact Nat.mul_dvd_mul_right (ih (number / 2)) 2

theorem trailing_zeros_dvd (word : UInt64) : 2 ^ trailingZeros word ∣ word.toNat :=
  low_zeros_dvd 64 word.toNat

theorem lt_above_leading (word : UInt64) : word.toNat < 2 ^ (64 - leadingZeros word) := by
  by_cases zero : word.toNat = 0
  · rw [zero]
    exact Nat.two_pow_pos _
  · have top := (Nat.log2_lt zero).mpr word.toNat_lt
    have width : 64 - leadingZeros word = word.toNat.log2 + 1 := by
      unfold leadingZeros
      omega
    rw [width]
    exact Nat.lt_log2_self

theorem zeros_lt (word : UInt64) (nonzero : word ≠ 0) :
    leadingZeros word + trailingZeros word < 64 := by
  have positive : 0 < word.toNat :=
    Nat.pos_of_ne_zero fun zero => nonzero (UInt64.toNat_inj.mp zero)
  have low := Nat.le_of_dvd positive (trailing_zeros_dvd word)
  have between := Nat.lt_of_le_of_lt low (lt_above_leading word)
  have := (Nat.pow_lt_pow_iff_right (by decide)).mp between
  omega

/-- What lies between the zeros of a word on both sides fits into so many bits. -/
theorem shifted_lt (number leading width trailing : Nat) (full : leading + width + trailing = 64)
    (below : number < 2 ^ (64 - leading)) : number >>> trailing < 2 ^ width := by
  rw [Nat.shiftRight_eq_div_pow]
  apply Nat.div_lt_of_lt_mul
  rwa [← Nat.pow_add, show trailing + width = 64 - leading by omega]

/-- Bits taken from a place that has only zeros below it are put back by the shift. -/
theorem shift_back (word : UInt64) (trailing : UInt8) (inside : trailing.toNat < 64)
    (zeros : 2 ^ trailing.toNat ∣ word.toNat) :
    UInt64.ofNat (word.toNat >>> trailing.toNat) <<< trailing.toUInt64 = word := by
  apply UInt64.toNat_inj.mp
  have small : word.toNat / 2 ^ trailing.toNat < 2 ^ 64 :=
    Nat.lt_of_le_of_lt (Nat.div_le_self _ _) word.toNat_lt
  rw [UInt64.toNat_shiftLeft, UInt64.toNat_ofNat', UInt8.toNat_toUInt64,
    Nat.mod_eq_of_lt inside, Nat.shiftRight_eq_div_pow, Nat.mod_eq_of_lt small,
    Nat.shiftLeft_eq, Nat.div_mul_cancel zeros, Nat.mod_eq_of_lt word.toNat_lt]

theorem read_difference_field (state : WindowState) (value : Value) (rest : BitStream)
    (inside : state.trailing.toNat < 64)
    (below : (state.previous ^^^ value.bits).toNat >>> state.trailing.toNat <
      2 ^ state.width.toNat)
    (zeros : 2 ^ state.trailing.toNat ∣ (state.previous ^^^ value.bits).toNat) :
    state.readDifference
        (BitStream.field ((state.previous ^^^ value.bits).toNat >>> state.trailing.toNat)
          state.width.toNat ++ rest) =
      .ok ({ state with previous := value.bits }, rest) := by
  have restored : state.previous ^^^ (state.previous ^^^ value.bits) = value.bits := by
    rw [← UInt64.xor_assoc, UInt64.xor_self, UInt64.zero_xor]
  rw [readDifference, BitStream.read_field_of_lt below]
  simp only [bind, Except.bind, shift_back _ _ inside zeros, restored]

theorem read_window_field (state : WindowState) (leading width : Nat) (rest : BitStream)
    (positive : 0 < width) (fits : leading + width ≤ 64) :
    state.readWindow (BitStream.field leading 6 ++
        (BitStream.field (width - 1) 6 ++ rest)) =
      .ok ({ state with
        leading := UInt8.ofNat leading
        trailing := UInt8.ofNat (64 - leading - width)
        width := UInt8.ofNat width }, rest) := by
  have wide : UInt64.ofNat (width - 1) + 1 = UInt64.ofNat width := by
    rw [← UInt64.ofNat_one, ← UInt64.ofNat_add, Nat.sub_add_cancel positive]
  have allowed : ¬ UInt64.ofNat leading + UInt64.ofNat width > 64 := by
    rw [← UInt64.ofNat_add, gt_iff_lt, UInt64.lt_iff_toNat_lt, UInt64.toNat_ofNat']
    simp
    omega
  have trailing : 64 - UInt64.ofNat leading - UInt64.ofNat width =
      UInt64.ofNat (64 - leading - width) := by
    apply UInt64.toNat_inj.mp
    simp only [UInt64.toNat_sub, UInt64.toNat_ofNat', UInt64.reduceToNat]
    omega
  rw [readWindow, BitStream.read_field_of_lt (by omega)]
  simp only [bind, Except.bind]
  rw [BitStream.read_field_of_lt (by omega)]
  simp only [wide, if_neg allowed, trailing]
  simp

/-- A difference that fits the window in force lies inside it on both sides. -/
theorem fits_iff (state : WindowState) (difference : UInt64) :
    state.fits difference = true ↔ state.width ≠ 0 ∧
      state.leading.toNat ≤ leadingZeros difference ∧
      state.trailing.toNat ≤ trailingZeros difference := by
  simp [fits, and_assoc]

theorem decode_encode_fitting (state : WindowState) (value : Value) (rest : BitStream)
    (inside : state.Inside) (changed : state.previous ^^^ value.bits ≠ 0)
    (fitting : state.fits (state.previous ^^^ value.bits) = true) :
    state.decode (state.encode value ++ rest) =
      .ok ({ state with previous := value.bits }, rest) := by
  obtain ⟨opened, above, below⟩ := (fits_iff _ _).mp fitting
  have full := inside.resolve_left opened
  have positive : 0 < state.width.toNat :=
    Nat.pos_of_ne_zero fun zero => opened (UInt8.toNat_inj.mp zero)
  have zeros : 2 ^ state.trailing.toNat ∣ (state.previous ^^^ value.bits).toNat :=
    Nat.dvd_trans (Nat.pow_dvd_pow 2 below) (trailing_zeros_dvd _)
  have bounded : (state.previous ^^^ value.bits).toNat < 2 ^ (64 - state.leading.toNat) :=
    Nat.lt_of_lt_of_le (lt_above_leading _) (Nat.pow_le_pow_right (by decide) (by omega))
  have shifted : ((state.previous ^^^ value.bits) >>> state.trailing.toUInt64).toNat =
      (state.previous ^^^ value.bits).toNat >>> state.trailing.toNat := by
    rw [UInt64.toNat_shiftRight, UInt8.toNat_toUInt64, Nat.mod_eq_of_lt (by omega)]
  have written : state.encode value = true :: false ::
      BitStream.field ((state.previous ^^^ value.bits).toNat >>> state.trailing.toNat)
        state.width.toNat := by
    rw [encode, if_neg changed, if_pos fitting, BitStream.word_field_of_fits _ _ (by omega),
      shifted]
  have difference := read_difference_field state value rest (by omega)
    (shifted_lt _ _ _ _ full bounded) zeros
  simp only [written, decode, List.cons_append, BitStream.readBit, bind, Except.bind,
    if_neg opened]
  exact difference

theorem decode_announced (state : WindowState) (value : Value) (rest : BitStream)
    (leading trailing : Nat) (room : leading + trailing < 64)
    (bounded : (state.previous ^^^ value.bits).toNat < 2 ^ (64 - leading))
    (zeros : 2 ^ trailing ∣ (state.previous ^^^ value.bits).toNat) :
    state.decode (true :: true :: (BitStream.field leading 6 ++
        (BitStream.field (64 - leading - trailing - 1) 6 ++
          (BitStream.field ((state.previous ^^^ value.bits).toNat >>> trailing)
            (64 - leading - trailing) ++ rest)))) =
      .ok (⟨value.bits, UInt8.ofNat leading, UInt8.ofNat trailing,
        UInt8.ofNat (64 - leading - trailing)⟩, rest) := by
  have width : (UInt8.ofNat (64 - leading - trailing)).toNat = 64 - leading - trailing := by
    rw [UInt8.toNat_ofNat']
    omega
  have below : (UInt8.ofNat trailing).toNat = trailing := by
    rw [UInt8.toNat_ofNat']
    omega
  have left : 64 - leading - (64 - leading - trailing) = trailing := by omega
  have window := read_window_field state leading (64 - leading - trailing)
    (BitStream.field ((state.previous ^^^ value.bits).toNat >>> trailing)
      (64 - leading - trailing) ++ rest) (by omega) (by omega)
  have difference := read_difference_field
    ⟨state.previous, UInt8.ofNat leading, UInt8.ofNat trailing,
      UInt8.ofNat (64 - leading - trailing)⟩ value rest
    (by rw [below]; omega)
    (by rw [below, width]; exact shifted_lt _ leading _ _ (by omega) bounded)
    (by rwa [below])
  simp only [width, below] at difference
  rw [left] at window
  simp only [decode, BitStream.readBit, bind, Except.bind, Bool.not_true, Bool.false_eq_true,
    if_false, if_true, window, difference]

theorem decode_encode_fresh (state : WindowState) (value : Value) (rest : BitStream)
    (changed : state.previous ^^^ value.bits ≠ 0)
    (outside : ¬ state.fits (state.previous ^^^ value.bits) = true) :
    state.decode (state.encode value ++ rest) = .ok (state.advance value, rest) := by
  have announced := decode_announced state value rest _ _ (zeros_lt _ changed)
    (lt_above_leading _) (trailing_zeros_dvd _)
  simpa [encode, advance, changed, outside] using announced

/-- The state that a value is read to is the one that its writer went on with. -/
theorem decode_encode_value (state : WindowState) (value : Value) (rest : BitStream)
    (inside : state.Inside) :
    state.decode (state.encode value ++ rest) = .ok (state.advance value, rest) := by
  by_cases same : state.previous ^^^ value.bits = 0
  · have unchanged : value.bits = state.previous := (UInt64.xor_eq_zero_iff.mp same).symm
    simp [encode, advance, decode, BitStream.readBit, bind, Except.bind, unchanged]
  by_cases fitting : state.fits (state.previous ^^^ value.bits)
  · rw [decode_encode_fitting state value rest inside same fitting]
    simp [advance, fitting]
  · exact decode_encode_fresh state value rest same fitting

theorem inside_advance (state : WindowState) (value : Value) (inside : state.Inside) :
    (state.advance value).Inside := by
  unfold advance
  dsimp only
  split
  · exact inside
  · rename_i fresh
    simp only [Bool.or_eq_true, decide_eq_true_eq, not_or] at fresh
    have room := zeros_lt _ fresh.1
    refine Or.inr ?_
    simp only [UInt8.toNat_ofNat']
    omega

theorem value_advance (state : WindowState) (value : Value) :
    (state.advance value).value = value := by
  unfold advance
  dsimp only
  split <;> rfl

end WindowState

end Chronicle

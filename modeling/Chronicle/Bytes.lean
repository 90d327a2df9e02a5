import Chronicle.Error

/-!
Byte strings and little-endian words: the least significant byte stands first. The
main statement is that a word of a given width is read back from what was written,
whatever follows it.
-/

namespace Chronicle

abbrev Bytes := List UInt8

namespace Bytes

/-- The lowest `width` bytes of a number, least significant first. -/
def ofNumber : Nat → Nat → Bytes
  | 0, _ => []
  | width + 1, number => UInt8.ofNat number :: ofNumber width (number / 256)

def toNumber : Bytes → Nat
  | [] => 0
  | byte :: rest => byte.toNat + 256 * toNumber rest

def readNumber? : Nat → Bytes → Option (Nat × Bytes)
  | 0, bytes => some (0, bytes)
  | _ + 1, [] => none
  | width + 1, byte :: bytes =>
      (readNumber? width bytes).map fun (number, rest) => (byte.toNat + 256 * number, rest)

def readNumber (width : Nat) (bytes : Bytes) : Except Error (Nat × Bytes) :=
  match readNumber? width bytes with
  | some read => .ok read
  | none => .error (.file .shortRead)

theorem of_number_length (width number : Nat) : (ofNumber width number).length = width := by
  induction width generalizing number with
  | zero => rfl
  | succ width ih => simp [ofNumber, ih]

theorem to_number_of_number (width number : Nat) :
    toNumber (ofNumber width number) = number % Nat.pow 256 width := by
  induction width generalizing number with
  | zero => simp [ofNumber, toNumber, Nat.pow_eq, Nat.mod_one]
  | succ width ih =>
      simp only [ofNumber, toNumber, ih, UInt8.toNat_ofNat', Nat.reducePow]
      rw [Nat.pow_eq, Nat.pow_eq, Nat.pow_succ, Nat.mul_comm (256 ^ width) 256, Nat.mod_mul]

theorem read_number_of_length (bytes rest : Bytes) :
    readNumber? bytes.length (bytes ++ rest) = some (toNumber bytes, rest) := by
  induction bytes with
  | nil => rfl
  | cons byte bytes ih => simp [readNumber?, toNumber, ih]

theorem read_number_short {width : Nat} {bytes : Bytes} (short : bytes.length < width) :
    readNumber? width bytes = none := by
  induction width generalizing bytes with
  | zero => omega
  | succ width ih =>
      cases bytes with
      | nil => rfl
      | cons byte bytes => simp [readNumber?, ih (by simpa using short)]

theorem read_number_of_number (width number : Nat) (rest : Bytes)
    (fits : number < Nat.pow 256 width) :
    readNumber? width (ofNumber width number ++ rest) = some (number, rest) := by
  have whole := read_number_of_length (ofNumber width number) rest
  rwa [of_number_length, to_number_of_number, Nat.mod_eq_of_lt fits] at whole

end Bytes

end Chronicle

import Chronicle.Bytes

/-!
UTF-8. Encoding a character is arithmetic on its code point; decoding walks over the
bytes with at most one unfinished character in hand, and names the place and the
length of what cannot be decoded. The main statement is that a text is read back
from its encoding.
-/

namespace Chronicle.Text.Utf8

def continuation (bits : Nat) : UInt8 := UInt8.ofNat (0x80 + bits % 64)

def encodeChar (letter : Char) : Bytes :=
  let code := letter.toNat
  if code < 0x80 then [UInt8.ofNat code]
  else if code < 0x800 then [UInt8.ofNat (0xc0 + code / 64), continuation code]
  else if code < 0x10000 then
    [UInt8.ofNat (0xe0 + code / 4096), continuation (code / 64), continuation code]
  else
    [UInt8.ofNat (0xf0 + code / 262144), continuation (code / 4096),
      continuation (code / 64), continuation code]

def encode (text : String) : Bytes := text.toList.flatMap encodeChar

/-- A character of which some bytes are still to come. -/
structure Pending where
  /-- The bits of its code point so far. -/
  bits : Nat
  /-- Its bytes so far. -/
  taken : Nat
  /-- The least and the greatest value of its next byte. -/
  low : Nat
  high : Nat
  /-- How many bytes follow its next byte. -/
  later : Nat
deriving DecidableEq

/-- What a first byte beyond ASCII announces. The range of the second byte leaves out
code points that have a shorter form, surrogates, and what lies beyond the last one. -/
def announced? (byte : Nat) : Option Pending :=
  if byte < 0xc2 then none
  else if byte < 0xe0 then some ⟨byte - 0xc0, 1, 0x80, 0xbf, 0⟩
  else if byte < 0xf0 then
    some ⟨byte - 0xe0, 1, if byte = 0xe0 then 0xa0 else 0x80,
      if byte = 0xed then 0x9f else 0xbf, 1⟩
  else if byte < 0xf5 then
    some ⟨byte - 0xf0, 1, if byte = 0xf0 then 0x90 else 0x80,
      if byte = 0xf4 then 0x8f else 0xbf, 2⟩
  else none

def decodeFrom (index : Nat) : Option Pending → Bytes → Except TextFault (List Char)
  | none, [] => .ok []
  | some _, [] => .error (.incomplete index)
  | none, byte :: rest =>
      if byte.toNat < 0x80 then
        (decodeFrom (index + 1) none rest).map (Char.ofNat byte.toNat :: ·)
      else
        match announced? byte.toNat with
        | none => .error (.invalid 1 index)
        | some pending => decodeFrom index (some pending) rest
  | some pending, byte :: rest =>
      if pending.low ≤ byte.toNat ∧ byte.toNat ≤ pending.high then
        let bits := pending.bits * 64 + byte.toNat % 64
        match pending.later with
        | 0 =>
            (decodeFrom (index + pending.taken + 1) none rest).map (Char.ofNat bits :: ·)
        | later + 1 =>
            decodeFrom index (some ⟨bits, pending.taken + 1, 0x80, 0xbf, later⟩) rest
      else .error (.invalid pending.taken index)

def decode (bytes : Bytes) : Except TextFault String :=
  (decodeFrom 0 none bytes).map String.ofList

theorem continuation_toNat (bits : Nat) : (continuation bits).toNat = 0x80 + bits % 64 := by
  simp only [continuation, UInt8.toNat_ofNat']
  omega

theorem decode_start (index : Nat) (byte : UInt8) (pending : Pending) (rest : Bytes)
    (large : 0x80 ≤ byte.toNat) (announced : announced? byte.toNat = some pending) :
    decodeFrom index none (byte :: rest) = decodeFrom index (some pending) rest := by
  simp [decodeFrom, Nat.not_lt.mpr large, announced]

theorem decode_middle (index code bits taken low high later : Nat) (rest : Bytes)
    (above : low ≤ 0x80 + code % 64) (below : 0x80 + code % 64 ≤ high) :
    decodeFrom index (some ⟨bits, taken, low, high, later + 1⟩) (continuation code :: rest) =
      decodeFrom index (some ⟨bits * 64 + code % 64, taken + 1, 0x80, 0xbf, later⟩) rest := by
  have byte := continuation_toNat code
  have added : (0x80 + code) % 64 = code % 64 := by omega
  simp [decodeFrom, byte, above, below, added]

theorem decode_last (index code bits taken low high : Nat) (rest : Bytes)
    (above : low ≤ 0x80 + code % 64) (below : 0x80 + code % 64 ≤ high) :
    decodeFrom index (some ⟨bits, taken, low, high, 0⟩) (continuation code :: rest) =
      (decodeFrom (index + taken + 1) none rest).map
        (Char.ofNat (bits * 64 + code % 64) :: ·) := by
  have byte := continuation_toNat code
  have added : (0x80 + code) % 64 = code % 64 := by omega
  simp [decodeFrom, byte, above, below, added]

/-- A character is read back from its bytes, whatever follows them. -/
theorem decode_encode_char (index : Nat) (letter : Char) (rest : Bytes) :
    decodeFrom index none (encodeChar letter ++ rest) =
      (decodeFrom (index + (encodeChar letter).length) none rest).map (letter :: ·) := by
  have valid : letter.toNat < 0xd800 ∨ 0xdfff < letter.toNat ∧ letter.toNat < 0x110000 :=
    letter.valid
  have whole : letter = Char.ofNat letter.toNat := (Char.ofNat_toNat letter).symm
  generalize codeIs : letter.toNat = code at *
  subst whole
  unfold encodeChar
  rw [codeIs]
  by_cases one : code < 0x80
  · have byte : (UInt8.ofNat code).toNat = code := by
      simp only [UInt8.toNat_ofNat']
      omega
    simp [decodeFrom, byte, one]
  · by_cases two : code < 0x800
    · have byte : (UInt8.ofNat (0xc0 + code / 64)).toNat = 0xc0 + code / 64 := by
        simp only [UInt8.toNat_ofNat']
        omega
      have announced : announced? (0xc0 + code / 64) = some ⟨code / 64, 1, 0x80, 0xbf, 0⟩ := by
        unfold announced?
        rw [if_neg (by omega), if_pos (by omega), Nat.add_sub_cancel_left]
      have value : code / 64 * 64 + code % 64 = code := by omega
      simp only [one, two, if_false, if_true, List.cons_append, List.nil_append]
      rw [decode_start index _ _ _ (by omega) (by rw [byte]; exact announced),
        decode_last index code _ _ _ _ rest (by omega) (by omega), value]
      rfl
    · by_cases three : code < 0x10000
      · have byte : (UInt8.ofNat (0xe0 + code / 4096)).toNat = 0xe0 + code / 4096 := by
          simp only [UInt8.toNat_ofNat']
          omega
        have announced : announced? (0xe0 + code / 4096) =
            some ⟨code / 4096, 1, if 0xe0 + code / 4096 = 0xe0 then 0xa0 else 0x80,
              if 0xe0 + code / 4096 = 0xed then 0x9f else 0xbf, 1⟩ := by
          unfold announced?
          rw [if_neg (by omega), if_neg (by omega), if_pos (by omega), Nat.add_sub_cancel_left]
        have value : (code / 4096 * 64 + code / 64 % 64) * 64 + code % 64 = code := by omega
        simp only [one, two, three, if_false, if_true, List.cons_append, List.nil_append]
        rw [decode_start index _ _ _ (by omega) (by rw [byte]; exact announced),
          decode_middle index (code / 64) _ _ _ _ _ _ (by split <;> omega) (by split <;> omega),
          decode_last index code _ _ _ _ rest (by omega) (by omega), value]
        rfl
      · have byte : (UInt8.ofNat (0xf0 + code / 262144)).toNat = 0xf0 + code / 262144 := by
          simp only [UInt8.toNat_ofNat']
          omega
        have announced : announced? (0xf0 + code / 262144) =
            some ⟨code / 262144, 1, if 0xf0 + code / 262144 = 0xf0 then 0x90 else 0x80,
              if 0xf0 + code / 262144 = 0xf4 then 0x8f else 0xbf, 2⟩ := by
          unfold announced?
          rw [if_neg (by omega), if_neg (by omega), if_neg (by omega), if_pos (by omega),
            Nat.add_sub_cancel_left]
        have value : ((code / 262144 * 64 + code / 4096 % 64) * 64 + code / 64 % 64) * 64
            + code % 64 = code := by omega
        simp only [one, two, three, if_false, List.cons_append, List.nil_append]
        rw [decode_start index _ _ _ (by omega) (by rw [byte]; exact announced),
          decode_middle index (code / 4096) _ _ _ _ _ _ (by split <;> omega)
            (by split <;> omega),
          decode_middle index (code / 64) _ _ _ _ _ _ (by omega) (by omega),
          decode_last index code _ _ _ _ rest (by omega) (by omega), value]
        rfl

theorem decode_encode_letters (index : Nat) (letters : List Char) :
    decodeFrom index none (letters.flatMap encodeChar) = .ok letters := by
  induction letters generalizing index with
  | nil => rfl
  | cons letter letters ih =>
      rw [List.flatMap_cons, decode_encode_char, ih]
      rfl

/-- A text is read back from its encoding. -/
theorem decode_encode (text : String) : decode (encode text) = .ok text := by
  rw [decode, encode, decode_encode_letters]
  simp [Except.map]

end Chronicle.Text.Utf8

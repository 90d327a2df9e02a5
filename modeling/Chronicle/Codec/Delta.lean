import Chronicle.Bits.Stream

/-!
Timestamps in a bit stream. What is written for a timestamp is how much its step
from the one before differs from the step before that, all modulo 2^64. Small
changes of the step take few bits, and a steady step takes one. A run of at most
four ones says how wide the change is.
-/

namespace Chronicle

/-- The last timestamp and the step that led to it, both modulo 2^64. -/
structure DeltaState where
  previous : Timestamp
  step : UInt64
deriving DecidableEq, Inhabited

namespace DeltaState

def start (first : Timestamp) : DeltaState := ⟨first, 0⟩

def advance (state : DeltaState) (timestamp : Timestamp) : DeltaState :=
  ⟨timestamp, timestamp - state.previous⟩

/-- Folds the signed words onto the unsigned ones: 0, -1, 1, -2, 2 and so on become
0, 1, 2, 3, 4. A word from 2^63 on stands for a negative number. -/
def zigzag (signed : UInt64) : UInt64 :=
  if signed < 0x8000000000000000 then signed * 2 else (~~~signed) * 2 + 1

def unzigzag (folded : UInt64) : UInt64 :=
  if folded % 2 = 0 then folded / 2 else ~~~(folded / 2)

def changeClass (change : UInt64) : Nat :=
  if change = 0 then 0
  else if change < 0x80 then 1
  else if change < 0x200 then 2
  else if change < 0x1000 then 3
  else 4

def changeWidth : Nat → Nat
  | 0 => 0
  | 1 => 7
  | 2 => 9
  | 3 => 12
  | _ => 64

/-- A run of ones, closed by a zero unless it has the greatest length. -/
def announce (ones : Nat) : BitStream :=
  List.replicate ones true ++ (if ones < 4 then [false] else [])

def readOnes : Nat → BitStream → Except Error (Nat × BitStream)
  | 0, rest => .ok (0, rest)
  | _ + 1, [] => .error (.damaged .bitStreamTruncated)
  | _ + 1, false :: rest => .ok (0, rest)
  | limit + 1, true :: rest =>
      match readOnes limit rest with
      | .ok (ones, unread) => .ok (ones + 1, unread)
      | .error error => .error error

def encode (state : DeltaState) (timestamp : Timestamp) : BitStream :=
  let change := zigzag (timestamp - state.previous - state.step)
  let ones := changeClass change
  announce ones ++ BitStream.field change.toNat (changeWidth ones)

def decode (state : DeltaState) (stream : BitStream) :
    Except Error (Timestamp × BitStream) := do
  let (ones, announced) ← readOnes 4 stream
  let (change, rest) ← BitStream.readField (changeWidth ones) announced
  .ok (state.previous + (state.step + unzigzag change), rest)

theorem unzigzag_zigzag (signed : UInt64) : unzigzag (zigzag signed) = signed := by
  apply UInt64.toNat_inj.mp
  unfold zigzag unzigzag
  have bound := UInt64.toNat_lt signed
  by_cases positive : signed < 0x8000000000000000
  · have small := UInt64.lt_iff_toNat_lt.mp positive
    have doubled : (signed * 2).toNat = 2 * signed.toNat := by
      simp only [UInt64.toNat_mul, UInt64.reduceToNat] at small ⊢
      omega
    have even : (signed * 2) % 2 = 0 := by
      apply UInt64.toNat_inj.mp
      rw [UInt64.toNat_mod, doubled]
      simp
    rw [if_pos positive, if_pos even, UInt64.toNat_div, doubled]
    simp
  · have large := UInt64.le_iff_toNat_le.mp (UInt64.not_lt.mp positive)
    have flipped : (~~~signed).toNat = 2 ^ 64 - 1 - signed.toNat := by
      simp [UInt64.toNat_not, UInt64.size]
    have doubled : ((~~~signed) * 2 + 1).toNat = 2 * (2 ^ 64 - 1 - signed.toNat) + 1 := by
      simp only [UInt64.toNat_add, UInt64.toNat_mul, UInt64.reduceToNat, flipped] at large ⊢
      omega
    have odd : ¬ ((~~~signed) * 2 + 1) % 2 = 0 := by
      intro even
      have := congrArg UInt64.toNat even
      rw [UInt64.toNat_mod, doubled] at this
      simp only [UInt64.reduceToNat] at this
      omega
    have halved : (((~~~signed) * 2 + 1) / 2).toNat = 2 ^ 64 - 1 - signed.toNat := by
      rw [UInt64.toNat_div, doubled]
      simp only [UInt64.reduceToNat]
      omega
    rw [if_neg positive, if_neg odd]
    have restored : (~~~(((~~~signed) * 2 + 1) / 2)).toNat =
        2 ^ 64 - 1 - (((~~~signed) * 2 + 1) / 2).toNat := by
      simp [UInt64.toNat_not, UInt64.size]
    rw [restored, halved]
    omega

end DeltaState

end Chronicle

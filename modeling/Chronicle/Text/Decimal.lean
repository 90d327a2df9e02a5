/-!
Decimal numerals of natural numbers. The main statement is that reading what was
written gives the number back.
-/

namespace Chronicle.Text.Decimal

def write (number : Nat) : List Char := Nat.toDigits 10 number

def text (number : Nat) : String := String.ofList (write number)

def read? (numeral : List Char) : Option Nat :=
  if numeral.isEmpty || !numeral.all Char.isDigit then none
  else some (Nat.ofDigitChars 10 numeral 0)

def readWord? (numeral : List Char) : Option UInt64 :=
  match read? numeral with
  | some number => if number < UInt64.size then some (UInt64.ofNat number) else none
  | none => none

/-- A numeral of a word that may stand after one plus sign. -/
def readSignedWord? : List Char → Option UInt64
  | '+' :: numeral => readWord? numeral
  | numeral => readWord? numeral

theorem write_digits {number : Nat} {letter : Char} (member : letter ∈ write number) :
    letter.isDigit = true :=
  Nat.isDigit_of_mem_toDigits (by decide) (by decide) member

theorem write_not_nil (number : Nat) : write number ≠ [] := by
  intro empty
  have length := congrArg List.length empty
  have positive := Nat.length_toDigits_pos (b := 10) (n := number)
  simp only [write, List.length_nil] at length
  omega

theorem read_write (number : Nat) : read? (write number) = some number := by
  have digits : (write number).all Char.isDigit = true :=
    List.all_eq_true.mpr fun _ member => write_digits member
  have filled : (write number).isEmpty = false := by
    simpa using write_not_nil number
  simp only [read?, digits, filled, Bool.not_true, Bool.or_self, Bool.false_eq_true, if_false]
  exact congrArg some (Nat.ofDigitChars_toDigits (by decide) (by decide))

theorem read_word_write (word : UInt64) : readWord? (write word.toNat) = some word := by
  simp [readWord?, read_write, UInt64.toNat_lt_size]

theorem read_signed_word_write (word : UInt64) :
    readSignedWord? (write word.toNat) = some word := by
  have unsigned : ∀ numeral, write word.toNat ≠ '+' :: numeral := by
    intro numeral signed
    have digit := write_digits (signed ▸ List.mem_cons_self : '+' ∈ write word.toNat)
    exact absurd digit (by decide)
  rw [readSignedWord?, read_word_write]
  exact unsigned

end Chronicle.Text.Decimal

import Chronicle.Number.Binary64
import Chronicle.Text.Decimal

/-!
Doubles as decimal text and decimal text as doubles. The text of a double has the
fewest digits that read back as it, and is written without an exponent. Everything
is decided in exact arithmetic on the significand and the binary exponent.
-/

namespace Chronicle

open Text

namespace Binary64

def fractionSize : Nat := 0x10000000000000

/-- The whole number of which the absolute value is a multiple by a power of two. -/
def significand (value : Binary64) : Nat :=
  let fraction := value.magnitude.toNat % fractionSize
  if value.magnitude.toNat < fractionSize then fraction else fraction + fractionSize

def exponent (value : Binary64) : Int :=
  (max 1 (value.magnitude.toNat / fractionSize) : Nat) - 1075

def isInfinite (value : Binary64) : Bool := value.magnitude = 0x7ff0000000000000

/-- A quarter of the last binary place and a unit of a decimal grid, as whole numbers in
a common unit. -/
structure Grid where
  quarter : Nat
  unit : Nat

def grid (value : Binary64) (power : Int) : Grid where
  quarter := Nat.pow 2 (value.exponent - 2).toNat * Nat.pow 10 (-power).toNat
  unit := Nat.pow 10 power.toNat * Nat.pow 2 (2 - value.exponent).toNat

/-- How far below, in quarters of the last place, numbers still round to a value: the
neighbour below the least significand of an exponent is nearer. -/
def reachBelow (value : Binary64) : Nat :=
  if value.significand = fractionSize ∧ 2 * fractionSize ≤ value.magnitude.toNat then 1 else 2

/-- Whether so many units of a grid round to a value. The ends of the interval count if
the significand is even. -/
def admits (value : Binary64) (grid : Grid) (units : Nat) : Bool :=
  let low := (4 * value.significand - value.reachBelow) * grid.quarter
  let high := (4 * value.significand + 2) * grid.quarter
  let found := units * grid.unit
  if value.significand % 2 = 0 then low <= found && found <= high
  else low < found && found < high

/-- The neighbour of a value on a grid that rounds to it, the nearer of two, the upper one
of two that are equally near. -/
def onGrid? (value : Binary64) (grid : Grid) : Option Nat :=
  let exact := 4 * value.significand * grid.quarter
  let below := exact / grid.unit
  match value.admits grid below, value.admits grid (below + 1) with
  | true, true =>
      let rest := exact % grid.unit
      if 2 * rest < grid.unit then some below
      else some (below + 1)
  | true, false => some below
  | false, true => some (below + 1)
  | false, false => none

/-- The digits of the shortest numeral and the power of ten of the last one: the hit on
the coarsest grid that has one. -/
def shortest (value : Binary64) : Nat × Int :=
  ((List.range 660).findSome? fun (steps : Nat) =>
    let power : Int := 310 - (steps : Int)
    (value.onGrid? (value.grid power)).map (fun digits => (digits, power))).getD (0, 0)

def positional (digits : List Char) (power : Int) : List Char :=
  let places := (-power).toNat
  if 0 ≤ power then digits ++ List.replicate power.toNat '0'
  else if places < digits.length then
    digits.take (digits.length - places) ++ '.' :: digits.drop (digits.length - places)
  else '0' :: '.' :: List.replicate (places - digits.length) '0' ++ digits

def text (value : Binary64) : String :=
  if value.isNaN then "NaN"
  else
    let sign := if value.isNegative then ['-'] else []
    let body :=
      if value.isInfinite then "inf".toList
      else if value.significand = 0 then ['0']
      else
        let (digits, power) := value.shortest
        positional (Decimal.write digits) power
    String.ofList (sign ++ body)

/-- The nearest whole number that is not negative, halves away from zero. What is not a
number counts as zero. -/
def nearestNat (value : Binary64) : Nat :=
  if value.isNaN || value.isNegative then 0
  else
    let above := value.significand * Nat.pow 2 value.exponent.toNat
    let parts := Nat.pow 2 (-value.exponent).toNat
    (2 * above + parts) / (2 * parts)

def infinity : Binary64 := ⟨0x7ff0000000000000⟩

def ofDecimal (digits : Nat) (power : Int) : Binary64 :=
  let size := power + (Decimal.write digits).length
  if digits = 0 || size < -400 then zero
  else if 400 < size then infinity
  else ofFloat (Float.ofScientific digits (power < 0) power.natAbs)

def readPower? : List Char → Option Int
  | [] => some 0
  | mark :: rest =>
      if mark = 'e' || mark = 'E' then
        match rest with
        | '-' :: digits => (Decimal.read? digits).map (fun power => -(power : Int))
        | '+' :: digits => (Decimal.read? digits).map (fun power => (power : Int))
        | digits => (Decimal.read? digits).map (fun power => (power : Int))
      else none

def readUnsigned? (numeral : List Char) : Option Binary64 := do
  let whole := numeral.takeWhile Char.isDigit
  let afterWhole := numeral.dropWhile Char.isDigit
  let (places, rest) := match afterWhole with
    | '.' :: later => (later.takeWhile Char.isDigit, later.dropWhile Char.isDigit)
    | other => ([], other)
  let digits ← Decimal.read? (whole ++ places)
  let power ← readPower? rest
  some (ofDecimal digits (power - places.length))

def read? (text : List Char) : Option Binary64 :=
  let (negative, body) := match text with
    | '-' :: body => (true, body)
    | '+' :: body => (false, body)
    | body => (false, body)
  let read :=
    match String.ofList (body.map Char.toLower) with
    | "inf" => some infinity
    | "infinity" => some infinity
    | "nan" => some ⟨0x7ff8000000000000⟩
    | _ => readUnsigned? body
  if negative then read.map neg else read

end Binary64

end Chronicle

import Chronicle.Error
import Chronicle.Number.Shortest

/-!
The values that a settings file or an environment variable can hold, and how each is
taken where a setting wants a number, a flag or a text. A variable counts if its name begins
with the name of the program; case does not matter, and two underscores lead to a part of a
setting. An empty variable counts as absent.
-/

namespace Chronicle

open Text

inductive Scalar where
  | flag (value : Bool)
  | integer (value : Int)
  | real (value : Binary64)
  | text (value : String)
deriving DecidableEq

/-- A text in lower case. The kelvin sign is the one letter beyond the alphabet whose
lower case belongs to it. -/
def lowerCase (text : List Char) : List Char :=
  text.map (fun letter => if letter = '\u212a' then 'k' else letter.toLower)

namespace Scalar

def yesWords : List String := ["true", "on", "yes"]

def noWords : List String := ["false", "off", "no"]

/-- A word is taken from whole numbers that are not negative, from their numerals, and
from yes and no; other numbers are rounded, and held within the range of words. -/
def asWord? : Scalar → Option UInt64
  | flag value => some (if value then 1 else 0)
  | integer value =>
      if 0 ≤ value ∧ value < UInt64.size then some (UInt64.ofNat value.toNat) else none
  | real value => some (UInt64.ofNat (min value.nearestNat (UInt64.size - 1)))
  | text value =>
      let lowered := String.ofList (lowerCase value.toList)
      if yesWords.contains lowered then some 1
      else if noWords.contains lowered then some 0
      else Decimal.readSignedWord? value.toList

def asFlag? : Scalar → Option Bool
  | flag value => some value
  | integer value => some (value ≠ 0)
  | real value => some (value.isNaN || value.significand ≠ 0)
  | text value =>
      let lowered := String.ofList (lowerCase value.toList)
      if lowered = "1" || yesWords.contains lowered then some true
      else if lowered = "0" || noWords.contains lowered then some false
      else none

def integerText (value : Int) : String :=
  if value < 0 then "-" ++ Decimal.text value.natAbs else Decimal.text value.natAbs

def asText : Scalar → String
  | flag value => if value then "true" else "false"
  | integer value => integerText value
  | real value => value.text
  | text value => value

def asNamed? {α : Type} (all : List α) (name : α → String) : Scalar → Option α
  | text value => all.find? (fun constant => (name constant).toList = lowerCase value.toList)
  | _ => none

def readInteger? (text : List Char) : Option Int :=
  let (negative, digits) := match text with
    | '-' :: digits => (true, digits)
    | '+' :: digits => (false, digits)
    | digits => (false, digits)
  match Decimal.read? digits with
  | none => none
  | some number =>
      let value : Int := if negative then -number else number
      if -0x8000000000000000 ≤ value ∧ value < 0x8000000000000000 then some value else none

/-- The value of an untyped text: a flag, a whole number or a number if it reads as one,
tried in this order, else itself. -/
def ofUntyped (value : String) : Scalar :=
  let letters := value.toList
  match String.ofList (letters.map Char.toLower) with
  | "true" => flag true
  | "false" => flag false
  | _ =>
      match readInteger? letters with
      | some number => integer number
      | none =>
          match Binary64.read? letters with
          | some number => real number
          | none => text value

end Scalar

abbrev Bindings := SortedMap String Scalar

abbrev Environment := List (String × String)

namespace Environment

def start : List Char := "tscore_".toList

/-- Writes every pair of underscores as a point. -/
def dotted : List Char → List Char
  | '_' :: '_' :: rest => '.' :: dotted rest
  | letter :: rest => letter :: dotted rest
  | [] => []

def settingName? (variableName : String) : Option String :=
  let lowered := lowerCase variableName.toList
  if start.isPrefixOf lowered then some (String.ofList (dotted (lowered.drop start.length)))
  else none

def bindings (environment : Environment) : Bindings :=
  SortedMap.ofList (environment.filterMap fun (name, value) =>
    if value.isEmpty then none
    else (settingName? name).map (fun setting => (setting, Scalar.ofUntyped value)))

def value? (environment : Environment) (name : String) : Option String :=
  (environment.find? (fun entry => entry.1 = name)).map (·.2)

end Environment

end Chronicle

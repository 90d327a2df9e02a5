import Chronicle.Error
import Chronicle.Text.Lines

/-!
Predicates on labels. A predicate says what the value under one name may be; the
empty value stands for the absence of the name. Beside the meaning on a label set
stand the text form and its reader.
-/

namespace Chronicle

open Text

inductive Predicate where
  | equal (name value : String)
  | notEqual (name value : String)
  | oneOf (name : String) (values : List String)
  | noneOf (name : String) (values : List String)
deriving DecidableEq

namespace Predicate

/-- Whether a predicate can be looked up: it names a value that a series has. -/
def isPositive : Predicate → Bool
  | equal _ value => !value.isEmpty
  | oneOf _ values => !values.isEmpty
  | _ => false

def holds (predicate : Predicate) (labels : Labels) : Bool :=
  match predicate with
  | equal name value =>
      if value.isEmpty then !labels.contains name else labels.get? name = some value
  | notEqual name value =>
      if value.isEmpty then labels.contains name else labels.get? name ≠ some value
  | oneOf name values => values.any (fun value => labels.get? name = some value)
  | noneOf name values => !values.any (fun value => labels.get? name = some value)

def text : Predicate → String
  | equal name value => name ++ "=" ++ value
  | notEqual name value => name ++ "!=" ++ value
  | oneOf name values => name ++ "=(" ++ String.intercalate "," values ++ ")"
  | noneOf name values => name ++ "!=(" ++ String.intercalate "," values ++ ")"

/-- Cuts a text at the first place where a mark stands, and drops the mark. -/
def cutAt (mark : List Char) : List Char → Option (List Char × List Char)
  | [] => none
  | letter :: rest =>
      if mark.isPrefixOf (letter :: rest) then some ([], (letter :: rest).drop mark.length)
      else (cutAt mark rest).map (fun (before, after) => (letter :: before, after))

/-- The values between the brackets of a list. Pieces with nothing but blanks are
passed over. -/
def readValues (inner : List Char) : List String :=
  (((inner.splitOn ',').map trim).filter (fun piece => !piece.isEmpty)).map String.ofList

def readOperand (name : String) (negated : Bool) : List Char → Option Predicate
  | '(' :: inner =>
      if inner.getLast? = some ')' then
        let values := readValues inner.dropLast
        some (if negated then noneOf name values else oneOf name values)
      else none
  | value =>
      let value := String.ofList value
      some (if negated then notEqual name value else equal name value)

/-- Reads a predicate. The first `!=` decides if there is one, else the first `=`;
what stands before it is the name and must not be empty. -/
def read? (given : List Char) : Option Predicate := do
  let (name, negated, operand) ←
    match cutAt ['!', '='] given with
    | some (name, operand) => some (name, true, operand)
    | none => (cutAt ['='] given).map (fun (name, operand) => (name, false, operand))
  if name.isEmpty then none else readOperand (String.ofList name) negated operand

def parse (given : String) : Except Error Predicate :=
  match read? given.toList with
  | some predicate => .ok predicate
  | none => .error (.invalidPredicate given)

end Predicate

end Chronicle

import Chronicle.Settings.Scalar

/-!
Settings by name, as bindings leave them that are entered one after another. A later
binding wins. Names do not depend on case, and may be paths that lead to a part or to
an item of a setting. Nothing but the name of a constant can be written as a part, and
nothing at all as items.
-/

namespace Chronicle

/-- What is set: a value, parts, of which only the names count, or items. -/
inductive Setting where
  | value (scalar : Scalar)
  | parts (names : List String)
  | items
deriving DecidableEq

namespace Setting

/-- A setting with one more part. Anything else gives way to the first part. -/
def withPart (part : String) : Option Setting → Setting
  | some (parts names) => parts (if names.contains part then names else names ++ [part])
  | _ => parts [part]

def asValue? {α : Type} (as? : Scalar → Option α) : Setting → Option α
  | value scalar => as? scalar
  | _ => none

def asNamed? {α : Type} (all : List α) (name : α → String) : Setting → Option α
  | value scalar => scalar.asNamed? all name
  | parts [part] => (Scalar.text part).asNamed? all name
  | _ => none

end Setting

inductive PathStep where
  | part (name : String)
  | item
deriving DecidableEq

namespace PathStep

def isNameLetter (letter : Char) : Bool :=
  letter.isAlphanum || letter = '_' || letter = '-' || letter = ' '

def isSpace (letter : Char) : Bool := letter = ' ' || letter = '\t'

def isPosition (text : List Char) : Bool :=
  text.head? ≠ some '+' && (Scalar.readInteger? text).isSome

def read? : List Char → Option (PathStep × List Char)
  | '.' :: path =>
      let name := path.takeWhile isNameLetter
      if name.isEmpty then none
      else some (part (String.ofList name), path.dropWhile isNameLetter)
  | '[' :: path =>
      let inner := path.dropWhile isSpace
      let position := inner.takeWhile (fun letter => !isSpace letter && letter ≠ ']')
      match (inner.drop position.length).dropWhile isSpace with
      | ']' :: rest => if isPosition position then some (item, rest) else none
      | _ => none
  | _ => none

def readAll? : Nat → List Char → Option (List PathStep)
  | _, [] => some []
  | 0, _ => none
  | limit + 1, path => do
      let (step, rest) ← read? path
      let later ← readAll? limit rest
      some (step :: later)

end PathStep

abbrev SettingsTable := SortedMap String Setting

namespace SettingsTable

/-- The setting that a name leads to, and the first step into it if there is one. A name
that is no path is taken as a whole. -/
def target (name : String) : String × Option PathStep :=
  let letters := lowerCase name.toList
  let setting := letters.takeWhile PathStep.isNameLetter
  let steps := letters.drop setting.length
  match PathStep.readAll? steps.length steps with
  | some (step :: _) =>
      if setting.isEmpty then (String.ofList letters, none)
      else (String.ofList setting, some step)
  | _ => (String.ofList letters, none)

def enter (table : SettingsTable) (name : String) (scalar : Scalar) : SettingsTable :=
  match target name with
  | (setting, none) => table.insert setting (.value scalar)
  | (setting, some (.part part)) =>
      table.insert setting (.withPart part (table.get? setting))
  | (setting, some .item) => table.insert setting .items

def enterAll (table : SettingsTable) (bindings : Bindings) : SettingsTable :=
  bindings.entries.foldl (fun table (name, scalar) => table.enter name scalar) table

end SettingsTable

end Chronicle

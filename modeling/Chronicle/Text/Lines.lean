/-!
Text cut into its parts: the blanks at its ends, its lines, and the steps of a path. A
character is blank when it has the Unicode property White_Space; the table lists the whole
property. A line ends with a newline, before which one carriage return may stand that does not
belong to it; a carriage return anywhere else is a character like any other.
-/

namespace Chronicle.Text

/-- The code points with the property White_Space, as inclusive ranges. -/
def blankRanges : List (Nat × Nat) :=
  [(0x0009, 0x000d), (0x0020, 0x0020), (0x0085, 0x0085), (0x00a0, 0x00a0),
    (0x1680, 0x1680), (0x2000, 0x200a), (0x2028, 0x2029), (0x202f, 0x202f),
    (0x205f, 0x205f), (0x3000, 0x3000)]

def isBlank (letter : Char) : Bool :=
  blankRanges.any (fun range => range.1 <= letter.toNat && letter.toNat <= range.2)

def trim (text : List Char) : List Char :=
  ((text.dropWhile isBlank).reverse.dropWhile isBlank).reverse

def afterNewline? : List Char → Option (List Char)
  | '\n' :: rest => some rest
  | '\r' :: '\n' :: rest => some rest
  | _ => none

def withoutReturn (line : List Char) : List Char :=
  if line.getLast? = some '\r' then line.dropLast else line

/-- The lines that a reader sees of a text that is printed with a newline after it. -/
def printedLines (text : String) : List String :=
  (text.toList.splitOn '\n').map (fun line => String.ofList (withoutReturn line))

/-- The path of a name in a directory. The empty path is the directory at hand, and
no second slash is put after one. -/
def joinPath (directory name : String) : String :=
  match directory.toList.getLast? with
  | none => name
  | some '/' => directory ++ name
  | some _ => directory ++ "/" ++ name

def pathFrom (folder path : String) : String :=
  if path.toList.head? = some '/' then path else joinPath folder path

/-- The letters of a path, last first, without the steps at its end that stay where they
are. -/
def dropStays : List Char → List Char
  | '/' :: letters => dropStays letters
  | '.' :: '/' :: letters => dropStays letters
  | letters => letters

def namedPath? (path : String) : Option String :=
  let letters := dropStays path.toList.reverse
  let name := letters.takeWhile (· ≠ '/')
  if [[], ['.'], ['.', '.']].contains name then none else some (String.ofList letters.reverse)

def pathSteps (path : String) : List String :=
  let names := ((path.toList.splitOn '/').filter (fun name => !name.isEmpty)).map String.ofList
  if path.toList.head? = some '/' then "/" :: names else names

/-- The steps that name what a path leads to: a step that stays in a folder counts only
at the beginning. -/
def namingSteps (path : String) : List String :=
  match pathSteps path with
  | [] => []
  | first :: later => first :: later.filter (· ≠ ".")

end Chronicle.Text

import Chronicle.Settings.Scalar
import Chronicle.Text.Lines

/-!
Flat settings files in TOML: one `key = value` on a line, a value being a flag, a
number or a quoted text, with blank lines and comments between them. A text in three
quotes may go over several lines. A key that is given twice is refused.
-/

namespace Chronicle

open Text

namespace Toml

def isSpace (letter : Char) : Bool := letter = ' ' || letter = '\t'

def isControl (letter : Char) : Bool :=
  (letter.toNat < 0x20 && letter ≠ '\t') || letter.toNat = 0x7f

def skipSpaces (text : List Char) : List Char := text.dropWhile isSpace

/-- What follows a line of which nothing but blanks and a comment is left. -/
def afterLine? (text : List Char) : Option (List Char) :=
  let rest := match skipSpaces text with
    | '#' :: comment => comment.dropWhile (fun letter => !isControl letter)
    | rest => rest
  if rest.isEmpty then some [] else afterNewline? rest

def digit? (base : Nat) (letter : Char) : Option Nat :=
  let value :=
    if letter.isDigit then letter.toNat - 48
    else if 'a' ≤ letter ∧ letter ≤ 'f' then letter.toNat - 87
    else if 'A' ≤ letter ∧ letter ≤ 'F' then letter.toNat - 55
    else base
  if value < base then some value else none

def ofDigits? (base : Nat) (digits : List Char) : Option Nat :=
  if digits.isEmpty then none
  else digits.foldlM (fun number letter => (digit? base letter).map (number * base + ·)) 0

def grouped? (base : Nat) (digits : List Char) : Option Nat :=
  let groups := digits.splitOn '_'
  if groups.any List.isEmpty then none else ofDigits? base groups.flatten

def decimal? (digits : List Char) : Option Nat :=
  match digits with
  | '0' :: _ :: _ => none
  | _ => grouped? 10 digits

def fitted (value : Int) : Option Int :=
  if -0x8000000000000000 ≤ value ∧ value < 0x8000000000000000 then some value else none

def integer? : List Char → Option Int
  | '0' :: 'x' :: digits => (grouped? 16 digits).bind (fun number => fitted number)
  | '0' :: 'o' :: digits => (grouped? 8 digits).bind (fun number => fitted number)
  | '0' :: 'b' :: digits => (grouped? 2 digits).bind (fun number => fitted number)
  | '+' :: digits => (decimal? digits).bind (fun number => fitted number)
  | '-' :: digits => (decimal? digits).bind (fun number => fitted (-number))
  | digits => (decimal? digits).bind (fun number => fitted number)

def isExponent : List Char → Bool
  | mark :: rest =>
      let digits := match rest with
        | '+' :: digits => digits
        | '-' :: digits => digits
        | digits => digits
      (mark = 'e' || mark = 'E') && (grouped? 10 digits).isSome
  | [] => false

def isFractional (numeral : List Char) : Bool :=
  let isPlain (letter : Char) : Bool := letter.isDigit || letter = '_'
  let after := numeral.dropWhile isPlain
  (decimal? (numeral.takeWhile isPlain)).isSome &&
    match after with
    | '.' :: places =>
        let exponent := places.dropWhile isPlain
        (grouped? 10 (places.takeWhile isPlain)).isSome &&
          (exponent.isEmpty || isExponent exponent)
    | exponent => isExponent exponent

/-- A number that is not written as a whole one. Too large a number is refused, but not
too large a negative one. -/
def real? (text : List Char) : Option Binary64 :=
  let numeral := match text with
    | '+' :: numeral => numeral
    | '-' :: numeral => numeral
    | numeral => numeral
  if ["inf", "nan"].contains (String.ofList numeral) then Binary64.read? text
  else if isFractional numeral then
    (Binary64.read? (text.filter (· ≠ '_'))).filter (· ≠ Binary64.infinity)
  else none

def charOf? (digits : List Char) : Option Char :=
  (ofDigits? 16 digits).bind fun code =>
    if code < 0xd800 || (0xdfff < code && code < 0x110000) then some (Char.ofNat code) else none

def escaped? : Char → Option Char
  | 'b' => some '\x08'
  | 't' => some '\t'
  | 'n' => some '\n'
  | 'f' => some '\x0c'
  | 'r' => some '\r'
  | '"' => some '"'
  | '\\' => some '\\'
  | _ => none

/-- The end of a text before its closing quotes, and the rest after them. Up to two of
the quotes before the three that close a block belong to its text. -/
def closing? (quote : Char) (block : Bool) (text : List Char) :
    Option (List Char × List Char) :=
  if block then
    let run := min 5 (text.takeWhile (· = quote)).length
    if run < 3 then none else some (List.replicate (run - 3) quote, text.drop run)
  else if text.head? = some quote then some ([], text.drop 1)
  else none

/-- Reads a text up to its closing quotes and returns the rest. Single quotes take every
letter as it stands. A block goes over several lines; while `skipping`, blanks and ends
of lines are left out of it. -/
def readText (quote : Char) (block skipping : Bool) :
    List Char → Option (List Char × List Char)
  | [] => none
  | letter :: rest =>
      let after (value : Char) (read : Option (List Char × List Char)) :=
        read.map (fun (text, unread) => (value :: text, unread))
      match closing? quote block (letter :: rest) with
      | some found => some found
      | none =>
          if letter = '\r' then
            if block && rest.head? = some '\n' then readText quote block skipping rest else none
          else if skipping && (isSpace letter || letter = '\n') then
            readText quote block true rest
          else if letter = '\n' then
            if block then after '\n' (readText quote block false rest) else none
          else if letter = '\\' && quote = '"' then
            if block && ((skipSpaces rest).head?.any (fun next => next = '\n' || next = '\r')) then
              readText quote block true rest
            else
              match rest with
              | 'u' :: a :: b :: c :: d :: rest => do
                  after (← charOf? [a, b, c, d]) (readText quote block false rest)
              | 'U' :: a :: b :: c :: d :: e :: f :: g :: h :: rest => do
                  after (← charOf? [a, b, c, d, e, f, g, h]) (readText quote block false rest)
              | mark :: rest => do
                  after (← escaped? mark) (readText quote block false rest)
              | [] => none
          else if isControl letter then none
          else after letter (readText quote block false rest)

def isKeyLetter (letter : Char) : Bool :=
  letter.isAlphanum || letter = '_' || letter = '-'

def readKey? : List Char → Option (List Char × List Char)
  | '"' :: text => readText '"' false false text
  | '\'' :: text => readText '\'' false false text
  | text =>
      let name := text.takeWhile isKeyLetter
      if name.isEmpty then none else some (name, text.dropWhile isKeyLetter)

def readBlock (quote : Char) (text : List Char) : Option (List Char × List Char) :=
  readText quote true false ((afterNewline? text).getD text)

def isBare (letter : Char) : Bool := !isSpace letter && !isControl letter && letter ≠ '#'

def readValue? (text : List Char) : Option (Scalar × List Char) :=
  let quoted := match text with
    | '"' :: '"' :: '"' :: text => readBlock '"' text
    | '\'' :: '\'' :: '\'' :: text => readBlock '\'' text
    | '"' :: text => readText '"' false false text
    | '\'' :: text => readText '\'' false false text
    | _ => none
  if text.head?.any (fun letter => letter = '"' || letter = '\'') then
    quoted.map (fun (value, unread) => (.text (String.ofList value), unread))
  else
    let bare := text.takeWhile isBare
    let unread := text.dropWhile isBare
    match String.ofList bare with
    | "true" => some (.flag true, unread)
    | "false" => some (.flag false, unread)
    | _ =>
        let number := ((integer? bare).map Scalar.integer).or ((real? bare).map Scalar.real)
        number.map (fun value => (value, unread))

def readBinding? (text : List Char) : Option ((String × Scalar) × List Char) := do
  let (key, afterKey) ← readKey? (skipSpaces text)
  match skipSpaces afterKey with
  | '=' :: afterMark =>
      let (value, unread) ← readValue? (skipSpaces afterMark)
      let rest ← afterLine? unread
      some ((String.ofList key, value), rest)
  | _ => none

/-- The key that stands for a date. As the first of a file it makes a date of the whole
file, which then holds no bindings. -/
def dateKey : String := "$__toml_private_datetime"

def readLines : Nat → Bindings → List Char → Except SettingFault Bindings
  | 0, bindings, _ => .ok bindings
  | _, bindings, [] => .ok bindings
  | limit + 1, bindings, text =>
      match afterLine? text with
      | some rest => readLines limit bindings rest
      | none =>
          match readBinding? text with
          | none => .error (.shape "a line is no binding of a key to a value")
          | some ((key, value), rest) =>
              if bindings.contains key then .error (.shape ("repeated key: " ++ key))
              else if bindings.isEmpty && key = dateKey then
                .error (.shape "the file is a date and no bindings")
              else readLines limit (bindings.insert key value) rest

/-- The bindings of a file. The mark of byte order that may begin it says nothing. -/
def parse (file : String) : Except SettingFault Bindings :=
  let letters := file.toList
  let text := if letters.head? = some '\ufeff' then letters.drop 1 else letters
  readLines text.length ∅ text

end Toml

end Chronicle

import Chronicle.Number.Counter
import Chronicle.Text.Utf8

/-!
Formats of stored values. A format writes a value as bytes and reads a value from
the front of a byte string, returning what it did not read. Numbers have a fixed
width and stand little-endian, every length is a number of eight bytes, a choice
among constructors is a number of four bytes, and a flag or the presence of a value
is one byte. The law of a format, that it reads what it wrote whatever follows, is a
predicate on formats; each combinator keeps it.
-/

namespace Chronicle

structure Format (α : Type) where
  write : α → Bytes
  read : Bytes → Except PayloadFault (α × Bytes)

namespace Format

variable {α β : Type}

/-- A value is read back from its bytes, whatever follows them. -/
def Keeps (format : Format α) (value : α) : Prop :=
  ∀ rest, format.read (format.write value ++ rest) = .ok (value, rest)

def readAll (format : Format α) (bytes : Bytes) : Except PayloadFault α :=
  (format.read bytes).map (·.1)

def number (width : Nat) : Format Nat where
  write := Bytes.ofNumber width
  read bytes :=
    match Bytes.readNumber? width bytes with
    | some read => .ok read
    | none => .error .unexpectedEnd

def via (format : Format α) (pack : α → β) (unpack : β → α) : Format β where
  write value := format.write (unpack value)
  read bytes := do
    let (value, rest) ← format.read bytes
    .ok (pack value, rest)

def both (left : Format α) (right : Format β) : Format (α × β) where
  write pair := left.write pair.1 ++ right.write pair.2
  read bytes := do
    let (first, afterFirst) ← left.read bytes
    let (second, rest) ← right.read afterFirst
    .ok ((first, second), rest)

def count : Format Nat := number 8

def byte : Format UInt8 := (number 1).via UInt8.ofNat UInt8.toNat

def word : Format UInt64 := (number 8).via UInt64.ofNat UInt64.toNat

def counter : Format Counter := word.via Counter.ofWord Counter.toWord

def double : Format Value := word.via Binary64.mk Binary64.bits

def variant (bound : Nat) : Format Nat where
  write := (number 4).write
  read bytes := do
    let (index, rest) ← (number 4).read bytes
    if index < bound then .ok (index, rest) else .error (.variant index bound)

def choice [DecidableEq α] [Inhabited α] (all : List α) : Format α :=
  (variant all.length).via (fun index => (all[index]?).getD default) (fun value => all.idxOf value)

def flag : Format Bool where
  write value := [if value then 1 else 0]
  read bytes := do
    let (found, rest) ← byte.read bytes
    if found = 0 then .ok (false, rest)
    else if found = 1 then .ok (true, rest)
    else .error (.boolean found.toNat)

def option (format : Format α) : Format (Option α) where
  write
    | none => [0]
    | some value => 1 :: format.write value
  read bytes := do
    let (found, rest) ← byte.read bytes
    if found = 0 then .ok (none, rest)
    else if found = 1 then
      let (value, afterValue) ← format.read rest
      .ok (some value, afterValue)
    else .error (.optionTag found.toNat)

def readMany (format : Format α) : Nat → Bytes → Except PayloadFault (List α × Bytes)
  | 0, rest => .ok ([], rest)
  | count + 1, bytes => do
      let (value, afterValue) ← format.read bytes
      let (values, rest) ← readMany format count afterValue
      .ok (value :: values, rest)

def list (format : Format α) : Format (List α) where
  write values := count.write values.length ++ values.flatMap format.write
  read bytes := do
    let (length, rest) ← count.read bytes
    readMany format length rest

/-- The bindings of a map. Of two bindings under one key the later one counts. -/
def map [Ord α] [Std.TransOrd α] [Std.LawfulEqOrd α] (key : Format α) (value : Format β) :
    Format (SortedMap α β) :=
  (list (both key value)).via SortedMap.ofList SortedMap.entries

def text : Format String where
  write value :=
    let encoded := Text.Utf8.encode value
    count.write encoded.length ++ encoded
  read bytes := do
    let (length, rest) ← count.read bytes
    if rest.length < length then .error .textTooLong
    else
      match Text.Utf8.decode (rest.take length) with
      | .ok value => .ok (value, rest.drop length)
      | .error fault => .error (.text fault)

theorem number_keeps (width value : Nat) (fits : value < Nat.pow 256 width) :
    (number width).Keeps value := by
  intro rest
  simp [number, Bytes.read_number_of_number width value rest fits]

/-- Another type keeps its values if the way to the bytes' type can be taken back. -/
theorem via_keeps {format : Format α} {pack : α → β} {unpack : β → α} {value : β}
    (inner : format.Keeps (unpack value)) (inverse : pack (unpack value) = value) :
    (format.via pack unpack).Keeps value := by
  intro rest
  simp [via, inner rest, inverse, bind, Except.bind]

theorem both_keeps {left : Format α} {right : Format β} {first : α} {second : β}
    (first_keeps : left.Keeps first) (second_keeps : right.Keeps second) :
    (both left right).Keeps (first, second) := by
  intro rest
  simp [both, first_keeps (right.write second ++ rest), second_keeps rest, bind, Except.bind]

theorem count_keeps {value : Nat} (fits : value < UInt64.size) : count.Keeps value :=
  number_keeps 8 value fits

theorem byte_keeps (value : UInt8) : byte.Keeps value :=
  via_keeps (number_keeps 1 value.toNat value.toNat_lt) UInt8.ofNat_toNat

theorem word_keeps (value : UInt64) : word.Keeps value :=
  via_keeps (number_keeps 8 value.toNat value.toNat_lt) UInt64.ofNat_toNat

theorem double_keeps (value : Value) : double.Keeps value :=
  via_keeps (word_keeps value.bits) rfl

/-- A counter is kept if it is one that a word can be read as. -/
theorem counter_keeps (word : UInt64) : counter.Keeps (Counter.ofWord word) :=
  via_keeps (word_keeps _) (by rw [Counter.toWord_ofWord])

theorem variant_keeps {bound index : Nat} (inside : index < bound) (fits : index < UInt32.size) :
    (variant bound).Keeps index := by
  intro rest
  have kept := number_keeps 4 index fits rest
  simp only [variant, kept, bind, Except.bind, if_pos inside]

theorem choice_keeps [DecidableEq α] [Inhabited α] {all : List α} {value : α}
    (listed : value ∈ all) (fits : all.length ≤ UInt32.size) : (choice all).Keeps value := by
  have inside := List.idxOf_lt_length_iff.mpr listed
  refine via_keeps (variant_keeps inside (by omega)) ?_
  simp [List.getElem?_eq_getElem inside]

theorem byte_write (value : UInt8) : byte.write value = [value] := by
  simp [byte, via, number, Bytes.ofNumber]

theorem byte_read (value : UInt8) (rest : Bytes) :
    byte.read (value :: rest) = .ok (value, rest) := by
  have kept := byte_keeps value rest
  rwa [byte_write] at kept

theorem flag_keeps (value : Bool) : flag.Keeps value := by
  intro rest
  cases value <;> simp [flag, byte_read, bind, Except.bind]

theorem option_keeps {format : Format α} {value : Option α}
    (inner : ∀ held, value = some held → format.Keeps held) : (option format).Keeps value := by
  intro rest
  cases value with
  | none => simp [option, byte_read, bind, Except.bind]
  | some held =>
      have kept := inner held rfl rest
      simp [option, byte_read, kept, bind, Except.bind]

theorem read_many_keeps {format : Format α} {values : List α}
    (inner : ∀ value ∈ values, format.Keeps value) (rest : Bytes) :
    readMany format values.length (values.flatMap format.write ++ rest) = .ok (values, rest) := by
  induction values with
  | nil => rfl
  | cons value values ih =>
      have kept := inner value (by simp) (values.flatMap format.write ++ rest)
      have later := ih (fun other member => inner other (by simp [member]))
      simp only [List.flatMap_cons, List.append_assoc, List.length_cons, readMany, kept,
        later, bind, Except.bind]

theorem list_keeps {format : Format α} {values : List α} (fits : values.length < UInt64.size)
    (inner : ∀ value ∈ values, format.Keeps value) : (list format).Keeps values := by
  intro rest
  have length := count_keeps fits (values.flatMap format.write ++ rest)
  simp only [list, List.append_assoc, length, read_many_keeps inner rest, bind, Except.bind]

theorem text_keeps {value : String} (fits : (Text.Utf8.encode value).length < UInt64.size) :
    text.Keeps value := by
  intro rest
  have length := count_keeps fits (Text.Utf8.encode value ++ rest)
  have long : ¬ (Text.Utf8.encode value ++ rest).length < (Text.Utf8.encode value).length := by
    simp
  simp only [text, List.append_assoc, length, bind, Except.bind, if_neg long,
    List.take_left, List.drop_left, Text.Utf8.decode_encode]

end Format

end Chronicle

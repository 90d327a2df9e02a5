import Chronicle.Error

/-!
Bit streams. A stream is the list of its bits, first bit first. Fields of a word
are written with their most significant bit first, and a reader returns what it
did not read. Packing into bytes is a separate matter, in `Chronicle.Bits.Buffer`; a reader of
bytes counts the bits that it has read and finds the next one by that count.
-/

namespace Chronicle

abbrev BitStream := List Bool

namespace BitStream

def field (value : Nat) : Nat → BitStream
  | 0 => []
  | width + 1 => value.testBit width :: field value width

theorem field_length (value width : Nat) : (field value width).length = width := by
  induction width with
  | zero => rfl
  | succ width ih => simp [field, ih]

theorem field_get? (value width index : Nat) :
    (field value width)[index]? =
      if index < width then some (value.testBit (width - 1 - index)) else none := by
  induction width generalizing index with
  | zero => simp [field]
  | succ width ih =>
      cases index with
      | zero => simp [field]
      | succ index =>
          simp only [field, List.getElem?_cons_succ, ih, Nat.add_lt_add_iff_right]
          congr 3
          omega

/-- The bits of a word below a place, most significant first. Places beyond the word fall
on its bits again. -/
def wordField (word : UInt64) : Nat → BitStream
  | 0 => []
  | width + 1 => word.toNat.testBit (width % 64) :: wordField word width

theorem word_field_of_fits (word : UInt64) (width : Nat) (fits : width ≤ 64) :
    wordField word width = field word.toNat width := by
  induction width with
  | zero => rfl
  | succ width ih =>
      simp only [wordField, field, ih (by omega), Nat.mod_eq_of_lt (show width < 64 by omega)]

theorem word_field_length (word : UInt64) (width : Nat) :
    (wordField word width).length = width := by
  induction width with
  | zero => rfl
  | succ width ih => simp [wordField, ih]

def readBit : BitStream → Except Error (Bool × BitStream)
  | [] => .error (.damaged .bitStreamTruncated)
  | bit :: rest => .ok (bit, rest)

/-- Reads `width` further bits below those already taken into a word. Bits that
grow past the word are lost at its top. -/
def readOnto (taken : UInt64) : Nat → BitStream → Except Error (UInt64 × BitStream)
  | 0, rest => .ok (taken, rest)
  | _ + 1, [] => .error (.damaged .bitStreamTruncated)
  | width + 1, bit :: rest => readOnto (taken <<< 1 ||| (if bit then 1 else 0)) width rest

def readField (width : Nat) (stream : BitStream) : Except Error (UInt64 × BitStream) :=
  readOnto 0 width stream

theorem read_onto_short (taken : UInt64) (width : Nat) (stream : BitStream)
    (short : stream.length < width) :
    readOnto taken width stream = .error (.damaged .bitStreamTruncated) := by
  induction width generalizing taken stream with
  | zero => omega
  | succ width ih =>
      cases stream with
      | nil => rfl
      | cons bit rest => exact ih _ rest (by simpa using short)

theorem read_onto_rest (taken : UInt64) (width : Nat) (stream : BitStream)
    (enough : width ≤ stream.length) :
    ∃ value, readOnto taken width stream = .ok (value, stream.drop width) := by
  induction width generalizing taken stream with
  | zero => exact ⟨taken, rfl⟩
  | succ width ih =>
      cases stream with
      | nil => simp at enough
      | cons bit rest => exact ih _ rest (by simpa using enough)

inductive Request where
  | bit
  | field (width : Nat)

inductive Reading where
  | bit (bit : Bool)
  | word (value : UInt64)

/-- Answers a request. A request that asks for too much consumes all there is. -/
def answer (request : Request) (stream : BitStream) : Except Error Reading × BitStream :=
  match request with
  | .bit =>
      match readBit stream with
      | .ok (bit, rest) => (.ok (.bit bit), rest)
      | .error error => (.error error, [])
  | .field width =>
      match readField width stream with
      | .ok (value, rest) => (.ok (.word value), rest)
      | .error error => (.error error, [])

def answers : List Request → BitStream → List (Except Error Reading)
  | [], _ => []
  | request :: later, stream =>
      let (reading, rest) := answer request stream
      reading :: answers later rest

end BitStream

def BitStream.Request.width : BitStream.Request → Nat
  | .bit => 1
  | .field width => width

/-- Bytes that are read from the top bit down, and how many of their bits have been read. -/
structure BitReader where
  bytes : List UInt8
  position : Nat

namespace BitReader

open BitStream

def ofBytes (bytes : List UInt8) : BitReader := ⟨bytes, 0⟩

def advance (reader : BitReader) (count : Nat) : BitReader :=
  { reader with position := reader.position + count }

def readBit (reader : BitReader) : Except Error Bool × BitReader :=
  match reader.bytes[reader.position / 8]? with
  | none => (.error (.damaged .bitStreamTruncated), reader)
  | some byte =>
      (.ok (byte >>> UInt8.ofNat (7 - reader.position % 8) &&& 1 == 1), reader.advance 1)

/-- Reads `width` further bits below those already taken, and stops at the first that is
missing. -/
def readOnto (taken : UInt64) : Nat → BitReader → Except Error UInt64 × BitReader
  | 0, reader => (.ok taken, reader)
  | width + 1, reader =>
      match reader.readBit with
      | (.ok bit, behind) => readOnto (taken <<< 1 ||| (if bit then 1 else 0)) width behind
      | (.error reason, behind) => (.error reason, behind)

def readField (width : Nat) (reader : BitReader) : Except Error UInt64 × BitReader :=
  readOnto 0 width reader

def answer (reader : BitReader) : Request → Except Error Reading × BitReader
  | .bit => (reader.readBit.1.map .bit, reader.readBit.2)
  | .field width => ((reader.readField width).1.map .word, (reader.readField width).2)

def answers (reader : BitReader) : List Request → List (Except Error Reading) × BitReader
  | [] => ([], reader)
  | request :: later =>
      let (reading, behind) := reader.answer request
      let (readings, final) := behind.answers later
      (reading :: readings, final)

end BitReader

end Chronicle

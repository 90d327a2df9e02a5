import Chronicle.Bits.Stream

/-!
Values in a bit stream. What is written for a value is its exclusive or with the
bits of the one before. Only the bits of that difference inside a window are
written; a window that still fits is used again, otherwise a new one is announced
by its distance from the top and its width.
-/

namespace Chronicle

/-- The bits of the last value and the window in force: how many bits lie above
it, how many below it, and its width. Width zero means that there is none yet. -/
structure WindowState where
  previous : UInt64
  leading : UInt8
  trailing : UInt8
  width : UInt8
deriving DecidableEq, Inhabited

namespace WindowState

def start (first : Value) : WindowState := ⟨first.bits, 0, 0, 0⟩

def leadingZeros (word : UInt64) : Nat := 63 - word.toNat.log2

def lowZeros : Nat → Nat → Nat
  | 0, _ => 0
  | width + 1, number => if number % 2 = 1 then 0 else lowZeros width (number / 2) + 1

def trailingZeros (word : UInt64) : Nat := lowZeros 64 word.toNat

def fits (state : WindowState) (difference : UInt64) : Bool :=
  state.width != 0 && state.leading.toNat <= leadingZeros difference &&
    state.trailing.toNat <= trailingZeros difference

/-- The state after a value: the window changes only when it had to. -/
def advance (state : WindowState) (value : Value) : WindowState :=
  let difference := state.previous ^^^ value.bits
  if difference = 0 || state.fits difference then { state with previous := value.bits }
  else
    let leading := leadingZeros difference
    let trailing := trailingZeros difference
    { previous := value.bits
      leading := UInt8.ofNat leading
      trailing := UInt8.ofNat trailing
      width := UInt8.ofNat (64 - leading - trailing) }

def encode (state : WindowState) (value : Value) : BitStream :=
  let difference := state.previous ^^^ value.bits
  if difference = 0 then [false]
  else if state.fits difference then
    true :: false ::
      BitStream.wordField (difference >>> state.trailing.toUInt64) state.width.toNat
  else
    let leading := leadingZeros difference
    let trailing := trailingZeros difference
    let width := 64 - leading - trailing
    true :: true :: BitStream.field leading 6 ++ BitStream.field (width - 1) 6 ++
      BitStream.field (difference.toNat >>> trailing) width

def readWindow (state : WindowState) (stream : BitStream) :
    Except Error (WindowState × BitStream) := do
  let (leading, afterLeading) ← BitStream.readField 6 stream
  let (wide, rest) ← BitStream.readField 6 afterLeading
  let width := wide + 1
  if leading + width > 64 then .error (.damaged .bitWidths)
  else
    .ok ({ state with
      leading := leading.toUInt8
      trailing := (64 - leading - width).toUInt8
      width := width.toUInt8 }, rest)

def readDifference (state : WindowState) (stream : BitStream) :
    Except Error (WindowState × BitStream) := do
  let (inside, rest) ← BitStream.readField state.width.toNat stream
  .ok ({ state with
    previous := state.previous ^^^ (inside <<< state.trailing.toUInt64) }, rest)

/-- The next value of a stream is the `previous` of the state returned. -/
def decode (state : WindowState) (stream : BitStream) :
    Except Error (WindowState × BitStream) := do
  let (changed, afterFlag) ← BitStream.readBit stream
  if !changed then .ok (state, afterFlag)
  else
    let (fresh, afterKind) ← BitStream.readBit afterFlag
    if fresh then
      let (announced, rest) ← state.readWindow afterKind
      announced.readDifference rest
    else if state.width = 0 then .error (.damaged .windowReusedTooEarly)
    else state.readDifference afterKind

def value (state : WindowState) : Value := ⟨state.previous⟩

end WindowState

end Chronicle

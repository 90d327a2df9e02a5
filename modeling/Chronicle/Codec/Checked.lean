import Chronicle.Codec.Delta
import Chronicle.Codec.Window

/-!
Decoding in steps that are looked at. Timestamps and values are read bit by bit from bytes and in
words of eight and sixteen bits, and a step whose operands could leave their range is looked at
before it is taken. A decoding keeps how far it has come and which windows it has used.
-/

namespace Chronicle

/-- What can end a decoding: that it refuses the bytes, or a step of its arithmetic that has no
result in the words it works on. -/
inductive Halt where
  | refused (reason : Error)
  | undefined

/-- How far a decoding has come, with all windows that it has used, the last one first. -/
structure Progress where
  reader : BitReader
  windows : List WindowState

abbrev Decoding := ExceptT Halt (StateM Progress)

namespace Decoding

variable {α : Type}

def perform (decoding : Decoding α) (progress : Progress) : Except Halt α × Progress :=
  decoding.run.run progress

def refuse (damage : Damage) : Decoding α := throw (.refused (.damaged damage))

def defined (inRange : Prop) [Decidable inRange] : Decoding Unit :=
  if inRange then pure () else throw .undefined

def read (step : BitReader → Except Error α × BitReader) : Decoding α := fun progress =>
  ((step progress.reader).1.mapError .refused,
    { progress with reader := (step progress.reader).2 })

def use (window : WindowState) : Decoding Unit :=
  modify fun progress => { progress with windows := window :: progress.windows }

def bit : Decoding Bool := read BitReader.readBit

def field (width : Nat) : Decoding UInt64 := read (BitReader.readField width)

def ones : Nat → Decoding Nat
  | 0 => pure 0
  | limit + 1 => do
      if ← bit then return (← ones limit) + 1
      else return 0

def timestamp (state : DeltaState) : Decoding Timestamp := do
  let ones ← ones 4
  let change ← field (DeltaState.changeWidth ones)
  return state.previous + (state.step + DeltaState.unzigzag change)

def announce (state : WindowState) (leading wide : UInt8) : Decoding WindowState := do
  defined (wide.toNat + 1 < UInt8.size)
  let width := wide + 1
  if leading.toUInt16 + width.toUInt16 > 64 then refuse .bitWidths
  else
    defined (leading.toNat ≤ 64)
    defined (width.toNat ≤ (64 - leading).toNat)
    return { state with leading := leading, trailing := 64 - leading - width, width := width }

def window (state : WindowState) : Decoding WindowState := do
  let leading ← field 6
  let wide ← field 6
  announce state leading.toUInt8 wide.toUInt8

def difference (state : WindowState) : Decoding WindowState := do
  use state
  let inside ← field state.width.toNat
  defined (state.trailing.toNat < 64)
  return { state with
    previous := state.previous ^^^ (inside <<< state.trailing.toUInt64) }

def value (state : WindowState) : Decoding WindowState := do
  if ← bit then
    if ← bit then difference (← window state)
    else if state.width = 0 then refuse .windowReusedTooEarly
    else difference state
  else return state

def samples (timestamps : DeltaState) (values : WindowState) : Nat → Decoding (List Sample)
  | 0 => return []
  | count + 1 => do
      let timestamp ← timestamp timestamps
      let found ← value values
      let later ← samples (timestamps.advance timestamp) found count
      return ⟨timestamp, found.value⟩ :: later

end Decoding

end Chronicle

import Chronicle.Bits.Buffer
import Chronicle.Codec.Checked
import Chronicle.Number.Counter

/-!
A compressed run of samples. The first sample is kept as it is; every later one
adds the bits of its timestamp and then those of its value to one stream. The run
also keeps its last sample and the state of both codecs, so that it can grow
without being decoded.
-/

namespace Chronicle

structure CompressedChunk where
  first : Sample
  last : Sample
  count : Counter
  bits : BitBuffer
  timestamps : DeltaState
  values : WindowState
deriving DecidableEq

namespace CompressedChunk

def ofSample (first : Sample) : CompressedChunk where
  first := first
  last := first
  count := 1
  bits := .empty
  timestamps := .start first.timestamp
  values := .start first.value

def push (chunk : CompressedChunk) (sample : Sample) : CompressedChunk where
  first := chunk.first
  last := sample
  count := chunk.count + 1
  bits := chunk.bits.pushAll
    (chunk.timestamps.encode sample.timestamp ++ chunk.values.encode sample.value)
  timestamps := chunk.timestamps.advance sample.timestamp
  values := chunk.values.advance sample.value

def ofSamples (first : Sample) (later : List Sample) : CompressedChunk :=
  later.foldl push (ofSample first)

def decodeFrom (timestamps : DeltaState) (values : WindowState) :
    Nat → BitStream → Except Error (List Sample × BitStream)
  | 0, rest => .ok ([], rest)
  | count + 1, stream => do
      let (timestamp, afterTimestamp) ← timestamps.decode stream
      let (found, afterValue) ← values.decode afterTimestamp
      let (later, rest) ← decodeFrom (timestamps.advance timestamp) found count afterValue
      .ok (⟨timestamp, found.value⟩ :: later, rest)

/-- The samples of a stream that follows a given first sample. A run holds its
first sample whatever its count says. -/
def decode (first : Sample) (count : Nat) (stream : BitStream) :
    Except Error (List Sample) := do
  let (later, _) ← decodeFrom (.start first.timestamp) (.start first.value) (count - 1) stream
  .ok (first :: later)

/-- The samples of a run that begins with one that is known and goes on in bytes. -/
def decodeBytes (first : Sample) (count : Nat) (bytes : List UInt8) :
    Except Error (List Sample) :=
  decode first count (BitBuffer.ofBytes bytes).stream

/-- The same in steps that are looked at, and how far they come. -/
def decodeChecked (first : Sample) (count : Nat) (bytes : List UInt8) :
    Except Halt (List Sample) × Progress :=
  Decoding.perform (do
    let later ← Decoding.samples (.start first.timestamp) (.start first.value) (count - 1)
    return first :: later) ⟨.ofBytes bytes, []⟩

def samples (chunk : CompressedChunk) : Except Error (List Sample) :=
  decode chunk.first chunk.count.shown chunk.bits.stream

end CompressedChunk

end Chronicle

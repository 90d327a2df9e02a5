import Chronicle.Chunk.Compressed
import Chronicle.Chunk.Placement

/-!
Bounded runs of samples in one of two encodings, with the byte budget that bounds
them. A run that a store made is never empty and has strictly increasing
timestamps; a run read from a file may be anything, and every operation here still
has an answer for it.
-/

namespace Chronicle

def ChunkEncoding.parse (text : String) : Except ArgumentFault ChunkEncoding :=
  let lowered := text.map Char.toLower
  match all.find? (fun encoding => encoding.name = lowered) with
  | some encoding => .ok encoding
  | none => .error (.unknownEncoding lowered)

def rawSampleBytes : Nat := 16

/-- The most bytes that one more sample can add to a compressed run: 4 + 64 bits of
timestamp and 2 + 6 + 6 + 64 bits of value. -/
def maxCompressedSampleBytes : Nat := 19

/-- A byte budget is a multiple of eight between its two limits. -/
def checkChunkSize (bytes : Nat) : Except ArgumentFault Unit :=
  if minChunkSize ≤ bytes ∧ bytes ≤ maxChunkSize ∧ bytes % 8 = 0 then .ok ()
  else .error (.chunkSize bytes)

inductive Chunk where
  | uncompressed (samples : Trail Sample)
  | compressed (run : CompressedChunk)
deriving DecidableEq

structure ChunkInfo where
  start : Timestamp
  stop : Timestamp
  samples : Nat
  size : Nat
  bytesPerSample : Value
deriving DecidableEq

namespace Chunk

def ofSample : ChunkEncoding → Sample → Chunk
  | .uncompressed, first => .uncompressed (.ofList [first])
  | .compressed, first => .compressed (.ofSample first)

def ofSamples? (encoding : ChunkEncoding) : List Sample → Option Chunk
  | [] => none
  | first :: later =>
      match encoding with
      | .uncompressed => some (.uncompressed (.ofList (first :: later)))
      | .compressed => some (.compressed (.ofSamples first later))

def encoding : Chunk → ChunkEncoding
  | .uncompressed _ => .uncompressed
  | .compressed _ => .compressed

def firstTimestamp : Chunk → Timestamp
  | .uncompressed samples => (samples.toList.head?.map (·.timestamp)).getD 0
  | .compressed run => run.first.timestamp

def lastSample : Chunk → Sample
  | .uncompressed samples => samples.last?.getD ⟨0, .zero⟩
  | .compressed run => run.last

def lastTimestamp (chunk : Chunk) : Timestamp := chunk.lastSample.timestamp

def counter : Chunk → Counter
  | .uncompressed samples => samples.size
  | .compressed run => run.count

def count (chunk : Chunk) : Nat := chunk.counter.shown

def size : Chunk → Nat
  | .uncompressed samples => samples.size * rawSampleBytes
  | .compressed run => rawSampleBytes + run.bits.byteLength

/-- Whether one more sample at the end could exceed a budget. -/
def isFull (chunk : Chunk) (budget : Nat) : Bool :=
  match chunk with
  | .uncompressed samples => (samples.size + 1) * rawSampleBytes > budget
  | .compressed _ => chunk.size + maxCompressedSampleBytes > budget

def push : Chunk → Sample → Chunk
  | .uncompressed samples, sample => .uncompressed (samples.push sample)
  | .compressed run, sample => .compressed (run.push sample)

def samples : Chunk → Except Error (List Sample)
  | .uncompressed samples => .ok samples.toList
  | .compressed run => run.samples

/-- Inserts or merges a sample; the flag says whether it was inserted. A compressed
chunk has to be rebuilt for this, which the caller allows or not. -/
def upsert (chunk : Chunk) (sample : Sample) (policy : DuplicatePolicy) (rebuild : Bool) :
    Except Error (Chunk × Bool) :=
  match chunk with
  | .uncompressed samples => do
      let (changed, inserted) ← Placement.upsert samples.toList sample policy
      .ok (.uncompressed (.ofList changed), inserted)
  | .compressed run =>
      if !rebuild then .error (.upsertUnsupported .compressed)
      else do
        let samples ← run.samples
        let (changed, inserted) ← Placement.upsert samples sample policy
        .ok ((ofSamples? .compressed changed).getD chunk, inserted)

def needsSplit (chunk : Chunk) (budget : Nat) : Bool :=
  chunk.count >= 2 && 5 * chunk.size > 6 * budget

/-- The lower and the upper half of the samples, as two chunks of the encoding; none
for a chunk that cannot be halved. -/
def split (chunk : Chunk) : Except Error (Option (Chunk × Chunk)) :=
  if chunk.count < 2 then .ok none
  else do
    let samples ← chunk.samples
    let half := samples.length / 2
    match ofSamples? chunk.encoding (samples.take half),
        ofSamples? chunk.encoding (samples.drop half) with
    | some lower, some upper => .ok (some (lower, upper))
    | _, _ => .ok none

def info (chunk : Chunk) : ChunkInfo where
  start := chunk.firstTimestamp
  stop := chunk.lastTimestamp
  samples := chunk.count
  size := chunk.size
  bytesPerSample :=
    if chunk.count = 0 then .zero
    else Arithmetic.div (Binary64.ofNat chunk.size) (Binary64.ofNat chunk.count)

end Chunk

end Chronicle

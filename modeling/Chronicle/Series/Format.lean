import Chronicle.Envelope
import Chronicle.Format
import Chronicle.Series

/-!
The stored form of a series and of its parts. Fields stand in a fixed order, without
names; a compressed run is stored as it is, with its bits and the state of both
codecs, so that a series that was read goes on growing where it stopped. A blob is one
series as a self-contained, checksummed byte string.
-/

namespace Chronicle

open Format

namespace Sample

def format : Format Sample :=
  (both word double).via (fun (timestamp, value) => ⟨timestamp, value⟩)
    (fun sample => (sample.timestamp, sample.value))

end Sample

namespace BitBuffer

def format : Format BitBuffer :=
  (both (list byte) byte).via (fun (bytes, used) => ⟨.ofList bytes, used⟩)
    (fun buffer => (buffer.bytes.toList, buffer.used))

end BitBuffer

namespace DeltaState

def format : Format DeltaState :=
  (both word word).via (fun (previous, step) => ⟨previous, step⟩)
    (fun state => (state.previous, state.step))

end DeltaState

namespace WindowState

def format : Format WindowState :=
  (both word (both byte (both byte byte))).via
    (fun (previous, leading, trailing, width) => ⟨previous, leading, trailing, width⟩)
    (fun state => (state.previous, state.leading, state.trailing, state.width))

end WindowState

namespace CompressedChunk

def format : Format CompressedChunk :=
  (both Sample.format (both Sample.format (both counter
      (both BitBuffer.format (both DeltaState.format WindowState.format))))).via
    (fun (first, last, count, bits, timestamps, values) =>
      ⟨first, last, count, bits, timestamps, values⟩)
    (fun run => (run.first, run.last, run.count, run.bits, run.timestamps, run.values))

end CompressedChunk

namespace ChunkEncoding

def format : Format ChunkEncoding := choice all

end ChunkEncoding

namespace Chunk

def format : Format Chunk where
  write
    | .uncompressed samples =>
        ChunkEncoding.format.write .uncompressed ++ (list Sample.format).write samples.toList
    | .compressed run =>
        ChunkEncoding.format.write .compressed ++ CompressedChunk.format.write run
  read bytes := do
    let (encoding, rest) ← ChunkEncoding.format.read bytes
    match encoding with
    | .uncompressed =>
        let (samples, afterSamples) ← (list Sample.format).read rest
        .ok (.uncompressed (.ofList samples), afterSamples)
    | .compressed =>
        let (run, afterRun) ← CompressedChunk.format.read rest
        .ok (.compressed run, afterRun)

end Chunk

namespace DuplicatePolicy

def format : Format DuplicatePolicy := choice all

end DuplicatePolicy

namespace AggregationKind

def format : Format AggregationKind := choice all

end AggregationKind

inductive AccumulatorShape where
  | min
  | max
  | sum
  | avg
  | count
  | range
  | first
  | last
  | variance
deriving DecidableEq, Inhabited

namespace AccumulatorShape

def all : List AccumulatorShape := [min, max, sum, avg, count, range, first, last, variance]

def format : Format AccumulatorShape := choice all

end AccumulatorShape

namespace Accumulator

def heldFormat : Format (Option Value) := option double

def totalFormat : Format (Value × Counter) := both double counter

def endsFormat : Format (Option (Value × Value)) := option (both double double)

def varianceFormat : Format (AggregationKind × Counter × Value × Value) :=
  both AggregationKind.format (both counter (both double double))

def writeAccumulator : Accumulator Value → Bytes
  | .min held => AccumulatorShape.format.write .min ++ heldFormat.write held
  | .max held => AccumulatorShape.format.write .max ++ heldFormat.write held
  | .sum total taken => AccumulatorShape.format.write .sum ++ totalFormat.write (total, taken)
  | .avg total taken => AccumulatorShape.format.write .avg ++ totalFormat.write (total, taken)
  | .count taken => AccumulatorShape.format.write .count ++ counter.write taken
  | .range ends => AccumulatorShape.format.write .range ++ endsFormat.write ends
  | .first held => AccumulatorShape.format.write .first ++ heldFormat.write held
  | .last held => AccumulatorShape.format.write .last ++ heldFormat.write held
  | .variance kind taken mean squares =>
      AccumulatorShape.format.write .variance ++
        varianceFormat.write (kind, taken, mean, squares)

def readShape (shape : AccumulatorShape) (bytes : Bytes) :
    Except PayloadFault (Accumulator Value × Bytes) :=
  match shape with
  | .min => do
      let (held, rest) ← heldFormat.read bytes
      .ok (.min held, rest)
  | .max => do
      let (held, rest) ← heldFormat.read bytes
      .ok (.max held, rest)
  | .sum => do
      let ((total, taken), rest) ← totalFormat.read bytes
      .ok (.sum total taken, rest)
  | .avg => do
      let ((total, taken), rest) ← totalFormat.read bytes
      .ok (.avg total taken, rest)
  | .count => do
      let (taken, rest) ← counter.read bytes
      .ok (.count taken, rest)
  | .range => do
      let (ends, rest) ← endsFormat.read bytes
      .ok (.range ends, rest)
  | .first => do
      let (held, rest) ← heldFormat.read bytes
      .ok (.first held, rest)
  | .last => do
      let (held, rest) ← heldFormat.read bytes
      .ok (.last held, rest)
  | .variance => do
      let ((kind, taken, mean, squares), rest) ← varianceFormat.read bytes
      .ok (.variance kind taken mean squares, rest)

def format : Format (Accumulator Value) where
  write := writeAccumulator
  read bytes := do
    let (shape, rest) ← AccumulatorShape.format.read bytes
    readShape shape rest

end Accumulator

namespace Rule

def format : Format Rule :=
  (both text (both AggregationKind.format (both word
      (both Accumulator.format (option word))))).via
    (fun (destination, kind, width, accumulator, openBucket) =>
      ⟨destination, kind, width, accumulator, openBucket⟩)
    (fun rule =>
      (rule.destination, rule.kind, rule.width, rule.accumulator, rule.openBucket))

end Rule

namespace StoreConfig

def format : Format StoreConfig :=
  (both ChunkEncoding.format (both Format.count (both word flag))).via
    (fun (encoding, chunkSize, retention, compressedUpsert) =>
      ⟨encoding, chunkSize, retention, compressedUpsert⟩)
    (fun config =>
      (config.encoding, config.chunkSize, config.retention, config.compressedUpsert))

end StoreConfig

namespace Store

def format : Format Store :=
  (both StoreConfig.format (both (map word Chunk.format)
      (both word (both double counter)))).via
    (fun (config, chunks, lastTimestamp, lastValue, totalSamples) =>
      ⟨config, chunks, lastTimestamp, lastValue, totalSamples⟩)
    (fun store =>
      (store.config, store.chunks, store.lastTimestamp, store.lastValue, store.totalSamples))

end Store

namespace Series

def format : Format Series :=
  (both text (both (map text text) (both DuplicatePolicy.format
      (both Store.format (both (option text) (list Rule.format)))))).via
    (fun (key, labels, duplicatePolicy, store, sourceKey, rules) =>
      ⟨key, labels, duplicatePolicy, store, sourceKey, rules⟩)
    (fun series =>
      (series.key, series.labels, series.duplicatePolicy, series.store, series.sourceKey,
        series.rules))

end Series

namespace Series

def toBlob (series : Series) : Bytes :=
  Artifact.series.header ++ Artifact.sealPayload (Series.format.write series)

/-- The series of a blob. Bytes after its payload, and bytes in the payload after the
series, are not looked at. -/
def ofBlob (blob : Bytes) : Except Error Series := do
  let rest ← Artifact.series.readHeader blob
  let payload ← Artifact.series.openPayload rest
  (Series.format.readAll payload).mapError .payload

end Series

end Chronicle

import Chronicle.Series

/-!
What is told of a series, and when two series are told to be equal. Series are compared
field by field; a reading that is not a number equals nothing, so a series that holds one
compares unequal even to itself.
-/

namespace Chronicle

structure RuleInfo where
  destination : String
  kind : AggregationKind
  width : Duration

structure SeriesInfo where
  key : String
  totalSamples : Nat
  /-- The bytes of the chunks, of the key and of the labels. -/
  payloadBytes : Nat
  firstTimestamp : Option Timestamp
  lastTimestamp : Option Timestamp
  retention : Duration
  chunkCount : Nat
  chunkSize : Nat
  encoding : ChunkEncoding
  duplicatePolicy : DuplicatePolicy
  labels : Labels
  sourceKey : Option String
  rules : List RuleInfo
  /-- Given only where chunks were asked for. -/
  chunks : Option (List ChunkInfo)

def Series.info (series : Series) (withChunks : Bool) : SeriesInfo where
  key := series.key
  totalSamples := series.store.totalSamples.shown
  payloadBytes := series.store.payloadSize + series.key.utf8ByteSize +
    total (fun entry => entry.1.utf8ByteSize + entry.2.utf8ByteSize) series.labels.entries
  firstTimestamp := series.store.firstTimestamp
  lastTimestamp := series.lastSample.map (·.timestamp)
  retention := series.retention
  chunkCount := series.store.chunks.size
  chunkSize := series.store.config.chunkSize
  encoding := series.store.config.encoding
  duplicatePolicy := series.duplicatePolicy
  labels := series.labels
  sourceKey := series.sourceKey
  rules := series.rules.map (fun rule => ⟨rule.destination, rule.kind, rule.width⟩)
  chunks := if withChunks then some series.store.chunkInfos else none

def Chunk.readings : Chunk → List Value
  | .uncompressed samples => samples.toList.map (·.value)
  | .compressed run => [run.first.value, run.last.value]

def Accumulator.readings : Accumulator Value → List Value
  | .min held => held.toList
  | .max held => held.toList
  | .sum total _ => [total]
  | .avg total _ => [total]
  | .count _ => []
  | .range ends => (ends.map (fun (low, high) => [low, high])).getD []
  | .first held => held.toList
  | .last held => held.toList
  | .variance _ _ mean squares => [mean, squares]

namespace Series

def readings (series : Series) : List Value :=
  series.store.chunks.values.flatMap Chunk.readings ++ [series.store.lastValue] ++
    series.rules.flatMap (fun rule => rule.accumulator.readings)

/-- Whether two series agree in every field and hold only numbers. -/
def agrees (left right : Series) : Bool :=
  decide (left = right) && left.readings.all (fun value => !value.isNaN)

end Series

end Chronicle

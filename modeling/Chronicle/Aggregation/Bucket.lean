import Chronicle.Aggregation.Accumulator
import Chronicle.Store.Range

/-!
Buckets: the spans of one fixed width into which time is cut, from time zero on. A
feed of samples is aggregated by the runs of neighbours that share a bucket; each
run yields one sample, stamped with the start of its bucket. An aggregator does so while the
feed is pulled: it takes samples in until one belongs to another bucket, so that it has always
read one sample more than the runs it has given away.
-/

namespace Chronicle

def bucketStart (timestamp : Timestamp) (width : Duration) : Timestamp :=
  timestamp - timestamp % width

structure OpenBucket where
  start : Timestamp
  accumulator : Accumulator Value
deriving DecidableEq

namespace OpenBucket

def ofSample (kind : AggregationKind) (width : Duration) (sample : Sample) : OpenBucket where
  start := bucketStart sample.timestamp width
  accumulator := (Accumulator.new kind).append sample.value

def take (bucket : OpenBucket) (value : Value) : OpenBucket :=
  { bucket with accumulator := bucket.accumulator.append value }

def close (bucket : OpenBucket) : List Sample :=
  match bucket.accumulator.finalize with
  | some value => [⟨bucket.start, value⟩]
  | none => []

end OpenBucket

namespace Feed

/-- Aggregates a feed while a bucket is open. An error ends the feed and drops the
open bucket. -/
def aggregateInto (kind : AggregationKind) (width : Duration) (bucket : OpenBucket) :
    Feed → Feed
  | [] => bucket.close.map .ok
  | .error error :: _ => [.error error]
  | .ok sample :: later =>
      if bucketStart sample.timestamp width = bucket.start then
        aggregateInto kind width (bucket.take sample.value) later
      else
        bucket.close.map .ok ++
          aggregateInto kind width (.ofSample kind width sample) later

/-- One sample for each run of neighbours in the same bucket. A width of zero acts as
one. A feed that runs backwards says so, for the first of a bucket to be its oldest. -/
def aggregate (kind : AggregationKind) (width : Duration) (reverse : Bool) : Feed → Feed
  | [] => []
  | .error error :: _ => [.error error]
  | .ok sample :: later =>
      let kind := if reverse then kind.reversed else kind
      let width := if width = 0 then 1 else width
      aggregateInto kind width (.ofSample kind width sample) later

end Feed

/-- The kind that takes a feed which runs backwards for what it is forwards. -/
def AggregationKind.along (reverse : Bool) (kind : AggregationKind) : AggregationKind :=
  if reverse then kind.reversed else kind

def Duration.atLeastOne (width : Duration) : Duration := if width = 0 then 1 else width

structure Aggregator where
  /-- What is not read yet. -/
  inner : Feed
  width : Duration
  accumulator : Accumulator Value
  /-- The start of the bucket that the accumulator belongs to, if it has taken a sample in. -/
  opened : Option Timestamp
  done : Bool

namespace Aggregator

def new (inner : Feed) (kind : AggregationKind) (width : Duration) (reverse : Bool) :
    Aggregator where
  inner := inner
  width := width.atLeastOne
  accumulator := .new (kind.along reverse)
  opened := none
  done := false

/-- Makes room for a sample of a bucket: what the open bucket leaves if it is another one, and
the accumulator into which the sample goes. -/
def turn (accumulator : Accumulator Value) (opened : Option Timestamp) (bucket : Timestamp) :
    Option Sample × Accumulator Value :=
  match opened with
  | some start =>
      if start ≠ bucket then
        (accumulator.finalize.map (Sample.mk start), accumulator.reset)
      else (none, accumulator)
  | none => (none, accumulator)

def advance (width : Duration) (accumulator : Accumulator Value) (opened : Option Timestamp) :
    Feed → Option (Except Error Sample) × Aggregator
  | [] =>
      (opened.bind fun start => accumulator.finalize.map fun value => .ok ⟨start, value⟩,
        ⟨[], width, accumulator, none, true⟩)
  | .error reason :: later => (some (.error reason), ⟨later, width, accumulator, opened, true⟩)
  | .ok sample :: later =>
      let bucket := bucketStart sample.timestamp width
      let turned := turn accumulator opened bucket
      let accumulator := turned.2.append sample.value
      match turned.1 with
      | some sum => (some (.ok sum), ⟨later, width, accumulator, some bucket, false⟩)
      | none => advance width accumulator (some bucket) later

def pull (aggregator : Aggregator) : Option (Except Error Sample) × Aggregator :=
  if aggregator.done then (none, aggregator)
  else advance aggregator.width aggregator.accumulator aggregator.opened aggregator.inner

end Aggregator

end Chronicle

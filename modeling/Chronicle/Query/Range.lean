import Chronicle.Aggregation.Accumulator
import Chronicle.Series

/-!
Reading one series: a span, optionally aggregated by buckets, optionally limited. The answers
of several series may be grouped by the value of one label. Within a group the samples at one
timestamp are reduced to one, fed to the reducer in the order in which the series come.
-/

namespace Chronicle

structure RangeRequest where
  start : Timestamp
  stop : Timestamp
  /-- The kind of aggregate and the width of its buckets. -/
  aggregation : Option (AggregationKind × Duration)
  /-- The greatest number of samples to answer with. -/
  limit : Option Nat
  reverse : Bool

namespace RangeRequest

def everything : RangeRequest := ⟨0, 0xffffffffffffffff, none, none, false⟩

def check (request : RangeRequest) : Except Error Unit :=
  if request.stop < request.start then
    .error (.invalidTimeRange request.start request.stop)
  else
    match request.aggregation with
    | some (_, width) =>
        if width = 0 then .error (.invalidArgument .zeroAggregationBucket) else .ok ()
    | none => .ok ()

def span (request : RangeRequest) : Span := ⟨request.start, request.stop, request.reverse⟩

end RangeRequest

def Feed.upTo (limit : Option Nat) (feed : Feed) : Feed :=
  match limit with
  | some count => feed.take count
  | none => feed

/-- The samples that a request asks for. An error in a chunk counts only if the answer
would go on past it. -/
def Series.range (series : Series) (request : RangeRequest) : Except Error (List Sample) := do
  request.check
  let raw := series.store.range request.span
  let feed := match request.aggregation with
    | some (kind, width) => raw.aggregate kind width request.reverse
    | none => raw
  (feed.upTo request.limit).collect

def reducerLabel : String := "__reducer__"

def sourceLabel : String := "__source__"

structure Grouping where
  label : String
  reducer : Reducer

structure SeriesResult where
  key : String
  labels : Labels
  samples : List Sample

structure Contribution where
  key : String
  labelValue : String
  samples : List Sample

/-- A group being collected: the keys so far, and one accumulator for a timestamp. -/
structure Group where
  sources : List String
  buckets : SortedMap Timestamp (Accumulator Value)

namespace Group

def empty : Group := ⟨[], ∅⟩

def feed (reducer : Reducer) (buckets : SortedMap Timestamp (Accumulator Value))
    (sample : Sample) : SortedMap Timestamp (Accumulator Value) :=
  let held := (buckets.get? sample.timestamp).getD (.new reducer.kind)
  buckets.insert sample.timestamp (held.append sample.value)

def take (reducer : Reducer) (group : Group) (contribution : Contribution) : Group where
  sources := group.sources ++ [contribution.key]
  buckets := contribution.samples.foldl (feed reducer) group.buckets

def samples (group : Group) : List Sample :=
  group.buckets.entries.filterMap
    (fun (timestamp, held) => held.finalize.map (fun value => ⟨timestamp, value⟩))

/-- The labels of a group's answer. A grouping label with one of the two reserved names
gives way to it. -/
def labels (group : Group) (grouping : Grouping) (value : String) : Labels :=
  SortedMap.ofList
    [(grouping.label, value), (reducerLabel, grouping.reducer.name),
      (sourceLabel, String.intercalate "," group.sources)]

def result (group : Group) (grouping : Grouping) (value : String) (limit : Option Nat)
    (reverse : Bool) : SeriesResult :=
  let ordered := if reverse then group.samples.reverse else group.samples
  { key := grouping.label ++ "=" ++ value
    labels := group.labels grouping value
    samples := match limit with
      | some count => ordered.take count
      | none => ordered }

end Group

def collectGroups (reducer : Reducer) (contributions : List Contribution) :
    SortedMap String Group :=
  contributions.foldl
    (fun groups contribution =>
      let group := (groups.get? contribution.labelValue).getD .empty
      groups.insert contribution.labelValue (group.take reducer contribution)) ∅

/-- One result for each value of the grouping label, in increasing order of value. -/
def groupResults (contributions : List Contribution) (grouping : Grouping)
    (limit : Option Nat) (reverse : Bool) : List SeriesResult :=
  (collectGroups grouping.reducer contributions).entries.map
    (fun (value, group) => group.result grouping value limit reverse)

end Chronicle

import Chronicle.Engine.Action
import Chronicle.Query.Predicate
import Chronicle.Query.Range
import Chronicle.Series.Readings

/-!
Reading: single series by key, and many by predicates on their labels. Many series
are read in increasing order of key.
-/

namespace Chronicle

structure MultiRangeRequest where
  range : RangeRequest
  filters : List Predicate
  withLabels : Bool
  grouping : Option Grouping

def Series.shownLabels (series : Series) (withLabels : Bool) : Labels :=
  if withLabels then series.labels else ∅

namespace MultiRangeRequest

def separate (request : MultiRangeRequest) (series : List Series) :
    Except Error (List SeriesResult) :=
  series.mapM fun one => do
    let samples ← one.range request.range
    .ok ⟨one.key, one.shownLabels request.withLabels, samples⟩

/-- What a series adds to the group of its label value; nothing without the label. -/
def contribution (request : MultiRangeRequest) (grouping : Grouping) (series : Series) :
    Except Error (Option Contribution) :=
  match series.labels.get? grouping.label with
  | none => .ok none
  | some value => do
      let samples ← series.range { request.range with limit := none, reverse := false }
      .ok (some ⟨series.key, value, samples⟩)

/-- One answer for each value of a label. The series are read forward and in full;
direction and limit count for the reduced samples. -/
def grouped (request : MultiRangeRequest) (grouping : Grouping) (series : List Series) :
    Except Error (List SeriesResult) := do
  let contributions ← series.mapM (request.contribution grouping)
  .ok (groupResults (contributions.filterMap id) grouping request.range.limit
    request.range.reverse)

def answer (request : MultiRangeRequest) (series : List Series) :
    Except Error (List SeriesResult) :=
  match request.grouping with
  | none => request.separate series
  | some grouping => request.grouped grouping series

end MultiRangeRequest

namespace Action

def last (key : String) : Action (Option Sample) := do return (← require key).lastSample

def range (key : String) (request : RangeRequest) : Action (List Sample) := do
  ofExcept ((← require key).range request)

def reverseRange (key : String) (request : RangeRequest) : Action (List Sample) :=
  range key { request with reverse := true }

def info (key : String) (withChunks : Bool) : Action SeriesInfo := do
  return (← require key).info withChunks

def queryIndex (filters : List Predicate) : Action (List String) := do
  return (← ofExcept ((← engine).index.resolve filters)).keys

/-- The series under some keys. A key without a series is passed over, with a report. -/
def seriesOf : List String → Action (List Series)
  | [] => pure []
  | key :: later => do
      match (← engine).series.get? key with
      | some series => return series :: (← seriesOf later)
      | none =>
          emit (.seriesVanished key)
          seriesOf later

def matching (filters : List Predicate) : Action (List Series) := do
  seriesOf (← queryIndex filters)

/-- Reads a span of many series. The read counts as answered even if a chunk of a series
turns out to be damaged. -/
def multiRange (request : MultiRangeRequest) : Action (List SeriesResult) := do
  ofExcept request.range.check
  let answer := request.answer (← matching request.filters)
  signal .multiRangeAnswered
  ofExcept answer

def lastOfMany (filters : List Predicate) (withLabels : Bool) :
    Action (List SeriesResult) := do
  return (← matching filters).map fun series =>
    ⟨series.key, series.shownLabels withLabels, series.lastSample.toList⟩

end Action

end Chronicle

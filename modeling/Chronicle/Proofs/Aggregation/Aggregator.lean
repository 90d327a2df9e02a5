import Chronicle.Proofs.Aggregation.Runs
import Chronicle.Proofs.Store.Reader

/-!
Aggregation while a feed is pulled. What an aggregator yields is the feed aggregated at once:
the sums of the runs, and after an error nothing, for what stands behind an error is never read.
-/

namespace Chronicle

namespace Aggregator

def remaining (width : Duration) (accumulator : Accumulator Value) :
    Option Timestamp → Feed → Feed
  | some start, inner => Feed.aggregateInto accumulator.kind width ⟨start, accumulator⟩ inner
  | none, [] => []
  | none, .error reason :: _ => [.error reason]
  | none, .ok sample :: later =>
      Feed.aggregateInto accumulator.kind width
        ⟨bucketStart sample.timestamp width, accumulator.append sample.value⟩ later

def left (aggregator : Aggregator) : Feed :=
  if aggregator.done then []
  else remaining aggregator.width aggregator.accumulator aggregator.opened aggregator.inner

theorem left_new (inner : Feed) (kind : AggregationKind) (width : Duration) (reverse : Bool) :
    (new inner kind width reverse).left = Feed.aggregate kind width reverse inner := by
  match inner with
  | [] => rfl
  | .error reason :: later => rfl
  | .ok sample :: later =>
      rw [Feed.aggregate_cons, OpenBucket.ofSample]
      simp only [left, new, remaining, Accumulator.kind_new]
      rfl

theorem remaining_cons (width : Duration) (accumulator : Accumulator Value)
    (opened : Option Timestamp) (sample : Sample) (later : Feed) :
    remaining width accumulator opened (.ok sample :: later) =
      (turn accumulator opened (bucketStart sample.timestamp width)).1.toList.map .ok ++
        remaining width
          ((turn accumulator opened (bucketStart sample.timestamp width)).2.append sample.value)
          (some (bucketStart sample.timestamp width)) later := by
  cases opened with
  | none =>
      simp only [remaining, turn, Accumulator.kind_append]
      rfl
  | some start =>
      by_cases same : start = bucketStart sample.timestamp width
      · simp only [remaining, turn, Feed.aggregateInto, same, ne_eq, not_true_eq_false, if_false,
          if_true, Accumulator.kind_append]
        rfl
      · have other : ¬bucketStart sample.timestamp width = start := fun eq => same eq.symm
        simp only [remaining, turn, Feed.aggregateInto, ne_eq, same, not_false_eq_true, if_true,
          other, if_false, OpenBucket.close, OpenBucket.ofSample, Accumulator.reset,
          Accumulator.kind_append, Accumulator.kind_new]
        cases accumulator.finalize <;> rfl

theorem advance_left (width : Duration) (accumulator : Accumulator Value)
    (opened : Option Timestamp) (inner : Feed) :
    (advance width accumulator opened inner).1 =
        (remaining width accumulator opened inner).head? ∧
      (advance width accumulator opened inner).2.left =
        (remaining width accumulator opened inner).tail := by
  induction inner generalizing accumulator opened with
  | nil =>
      cases opened with
      | none => exact ⟨rfl, rfl⟩
      | some start =>
          rw [remaining, Feed.aggregateInto, OpenBucket.close, advance]
          cases accumulator.finalize <;> exact ⟨rfl, rfl⟩
  | cons item later ih =>
      cases item with
      | error reason => cases opened <;> exact ⟨rfl, rfl⟩
      | ok sample =>
          rw [remaining_cons, advance]
          cases turned : (turn accumulator opened (bucketStart sample.timestamp width)).1 with
          | none => exact ih _ _
          | some sum => exact ⟨rfl, rfl⟩

theorem pull_left (aggregator : Aggregator) :
    aggregator.pull.1 = aggregator.left.head? ∧
      aggregator.pull.2.left = aggregator.left.tail := by
  unfold pull left
  cases ended : aggregator.done with
  | true =>
      rw [if_pos rfl, if_pos rfl]
      exact ⟨rfl, if_pos ended⟩
  | false =>
      rw [if_neg Bool.false_ne_true, if_neg Bool.false_ne_true]
      exact advance_left _ _ _ _

/-- An aggregator yields sample by sample what the feed is aggregated to at once. -/
theorem yields_aggregate (inner : Feed) (kind : AggregationKind) (width : Duration)
    (reverse : Bool) :
    Pull.Yields pull (new inner kind width reverse) (Feed.aggregate kind width reverse inner) := by
  rw [← left_new]
  exact Pull.yields_of_left pull_left _

/-- How far a feed has been read: up to its fault when all is done, and before that no further
than into the samples that stand in front of it. -/
def ReadTo (fault : Option (Error × Feed)) (aggregator : Aggregator) : Prop :=
  if aggregator.done then aggregator.inner = Feed.unread fault
  else ∃ samples, aggregator.inner = Feed.faulting samples fault

theorem advance_read {fault : Option (Error × Feed)} (width : Duration)
    (accumulator : Accumulator Value) (opened : Option Timestamp) (samples : List Sample) :
    ReadTo fault (advance width accumulator opened (Feed.faulting samples fault)).2 := by
  induction samples generalizing accumulator opened with
  | nil => cases fault <;> rfl
  | cons sample later ih =>
      have parts : Feed.faulting (sample :: later) fault =
          .ok sample :: Feed.faulting later fault := Feed.faulting_append [sample] later fault
      rw [parts, advance]
      cases turned : (turn accumulator opened (bucketStart sample.timestamp width)).1 with
      | none => exact ih _ _
      | some sum => exact ⟨later, rfl⟩

theorem pull_read {fault : Option (Error × Feed)} {aggregator : Aggregator}
    (reached : ReadTo fault aggregator) : ReadTo fault aggregator.pull.2 := by
  cases ended : aggregator.done with
  | true =>
      rw [pull, if_pos ended]
      exact reached
  | false =>
      have behind : ¬aggregator.done = true := by rw [ended]; exact Bool.false_ne_true
      obtain ⟨samples, inner⟩ := (if_neg behind).mp reached
      rw [pull, if_neg behind, inner]
      exact advance_read _ _ _ samples

theorem unread_suffix {fault : Option (Error × Feed)} {aggregator : Aggregator}
    (reached : ReadTo fault aggregator) : Feed.unread fault <:+ aggregator.inner := by
  unfold ReadTo at reached
  split at reached
  · exact reached ▸ List.suffix_refl _
  · obtain ⟨samples, inner⟩ := reached
    rw [inner]
    cases fault with
    | none => exact List.nil_suffix
    | some fault =>
        obtain ⟨reason, unread⟩ := fault
        exact (List.suffix_cons _ _).trans (List.suffix_append _ _)

/-- That a feed is aggregated, at once and pull by pull, to the sums of the longest runs of its
samples, up to its first error. -/
structure Groups (kind : AggregationKind) (width : Duration) (reverse : Bool)
    (samples : List Sample) (fault : Option (Error × Feed)) (runs : List (List Sample))
    (sums : List Sample) : Prop where
  maximal : MaximalRuns width.atLeastOne samples runs
  worth : List.Forall₂ (Sums (kind.along reverse) width.atLeastOne) runs sums
  whole : Feed.aggregate kind width reverse (Feed.faulting samples fault) =
    Feed.emitted sums fault
  pulled : Pull.Yields pull (new (Feed.faulting samples fault) kind width reverse)
    (Feed.emitted sums fault)
  /-- What stands behind the error is never read. -/
  unread : ∀ count, Feed.unread fault <:+
    (Pull.after pull count (new (Feed.faulting samples fault) kind width reverse)).inner
  increasing : samples.Pairwise (·.timestamp ≤ ·.timestamp) → Timeline.Increasing sums

/-- Whatever feed of samples and errors it is, in whatever order, an aggregator yields one
sample for each of the longest runs of neighbours in the same bucket, the last of which gives
way to the error if there is one, and then nothing. -/
theorem groups_runs (kind : AggregationKind) (width : Duration) (reverse : Bool) (feed : Feed) :
    ∃ samples fault runs sums, feed = Feed.faulting samples fault ∧
      Groups kind width reverse samples fault runs sums := by
  obtain ⟨samples, fault, rfl⟩ := Feed.exists_faulting feed
  obtain ⟨runs, maximal⟩ := exists_maximal_runs width.atLeastOne samples
  obtain ⟨sums, worth⟩ := exists_sums (kind.along reverse) maximal
  have whole := Feed.aggregate_runs maximal worth fault
  refine ⟨samples, fault, runs, sums, rfl, maximal, worth, whole, ?_, ?_, ?_⟩
  · rw [← whole]
    exact yields_aggregate _ kind width reverse
  · intro count
    have begun : ReadTo fault (new (Feed.faulting samples fault) kind width reverse) :=
      ⟨samples, rfl⟩
    exact unread_suffix (Pull.after_keeps pull_read count begun)
  · exact sums_increasing maximal worth

example (unread : Feed) : Feed.aggregate .last 10 true
    ([.ok ⟨25, ⟨3⟩⟩, .ok ⟨21, ⟨2⟩⟩, .ok ⟨12, ⟨1⟩⟩, .error (.lock "")] ++ unread) =
      [.ok ⟨20, ⟨3⟩⟩, .error (.lock "")] := rfl

end Aggregator

end Chronicle

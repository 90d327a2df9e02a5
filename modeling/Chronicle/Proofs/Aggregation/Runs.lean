import Chronicle.Proofs.Aggregation.Bucket
import Mathlib.Data.List.Forall2
import Mathlib.Data.List.SplitBy

/-!
Aggregation by runs. The samples of a feed, up to its first error, fall into the longest runs
of neighbours that share a bucket, and the feed is aggregated to one sample for each run. The
run that is open when an error comes is dropped.
-/

namespace Chronicle

/-- That samples are cut into runs exactly where the bucket changes. -/
structure MaximalRuns (width : Duration) (samples : List Sample) (runs : List (List Sample)) :
    Prop where
  whole : runs.flatten = samples
  filled : ∀ run ∈ runs, run ≠ []
  together : ∀ run ∈ runs, ∀ one ∈ run, ∀ other ∈ run,
    bucketStart one.timestamp width = bucketStart other.timestamp width
  apart : runs.IsChain fun earlier later => ∀ one ∈ earlier, ∀ other ∈ later,
    bucketStart one.timestamp width ≠ bucketStart other.timestamp width

/-- That a sample is what a run is aggregated to: the start of its bucket with the aggregate of
its values, in their order. -/
structure Sums (kind : AggregationKind) (width : Duration) (run : List Sample) (sum : Sample) :
    Prop where
  start : ∀ one ∈ run, bucketStart one.timestamp width = sum.timestamp
  worth : Accumulator.aggregate kind (run.map (·.value)) = some sum.value

section Runs

variable {kind : AggregationKind} {width : Duration} {samples run : List Sample}
  {runs : List (List Sample)} {sum : Sample} {sums : List Sample}

theorem together_of_chain
    (chain : run.IsChain fun one other =>
      bucketStart one.timestamp width = bucketStart other.timestamp width) :
    ∀ one ∈ run, ∀ other ∈ run,
      bucketStart one.timestamp width = bucketStart other.timestamp width := by
  intro one member other among
  have buckets : (run.map fun sample => bucketStart sample.timestamp width).IsChain (· = ·) :=
    (List.isChain_map _).mpr chain
  exact buckets.pairwise.forall_of_forall (fun _ _ => rfl) (List.mem_map_of_mem member)
    (List.mem_map_of_mem among)

theorem exists_maximal_runs (width : Duration) (samples : List Sample) :
    ∃ runs, MaximalRuns width samples runs := by
  let sameBucket (one other : Sample) : Bool :=
    bucketStart one.timestamp width = bucketStart other.timestamp width
  have together : ∀ run ∈ samples.splitBy sameBucket, ∀ one ∈ run, ∀ other ∈ run,
      bucketStart one.timestamp width = bucketStart other.timestamp width := by
    intro run member
    apply together_of_chain
    exact (List.isChain_of_mem_splitBy member).imp fun _ _ => of_decide_eq_true
  refine ⟨samples.splitBy sameBucket, List.flatten_splitBy _ _,
    fun run => List.ne_nil_of_mem_splitBy, together, ?_⟩
  apply (List.isChain_getLast_head_splitBy sameBucket samples).imp_of_mem_imp
  intro earlier later early late border one member other among same
  obtain ⟨_, _, differ⟩ := border
  -- all of a run have the bucket of the one that stands at the border
  apply of_decide_eq_false differ
  rw [together earlier early _ (List.getLast_mem _) one member, same]
  exact together later late other among _ (List.head_mem _)

/-- Runs backwards, each of them backwards too, are the runs of the samples backwards. -/
theorem MaximalRuns.backwards (maximal : MaximalRuns width samples runs) :
    MaximalRuns width samples.reverse (runs.reverse.map List.reverse) where
  whole := by rw [← maximal.whole, List.reverse_flatten, List.map_reverse]
  filled := by
    intro run member
    obtain ⟨forward, among, rfl⟩ := List.mem_map.mp member
    exact List.reverse_ne_nil_iff.mpr (maximal.filled forward (List.mem_reverse.mp among))
  together := by
    intro run member one inside other within
    obtain ⟨forward, among, rfl⟩ := List.mem_map.mp member
    exact maximal.together forward (List.mem_reverse.mp among) one (List.mem_reverse.mp inside)
      other (List.mem_reverse.mp within)
  apart := by
    rw [List.isChain_map, List.isChain_reverse]
    apply maximal.apart.imp
    intro earlier later apart one member other among
    exact (apart other (List.mem_reverse.mp among) one (List.mem_reverse.mp member)).symm

theorem exists_sum (kind : AggregationKind) (filled : run ≠ [])
    (together : ∀ one ∈ run, ∀ other ∈ run,
      bucketStart one.timestamp width = bucketStart other.timestamp width) :
    ∃ sum, Sums kind width run sum := by
  obtain ⟨first, later, rfl⟩ := List.exists_cons_of_ne_nil filled
  have given : (first :: later).map (·.value) ≠ [] := List.cons_ne_nil _ _
  obtain ⟨value, worth⟩ := Accumulator.aggregate_of_ne_nil kind given
  exact ⟨⟨bucketStart first.timestamp width, value⟩,
    fun one member => together one member first List.mem_cons_self, worth⟩

theorem exists_sums (kind : AggregationKind) (maximal : MaximalRuns width samples runs) :
    ∃ sums, List.Forall₂ (Sums kind width) runs sums := by
  have each : ∀ run ∈ runs, ∃ sum, Sums kind width run sum := fun run member =>
    exists_sum kind (maximal.filled run member) (maximal.together run member)
  clear maximal
  induction runs with
  | nil => exact ⟨[], .nil⟩
  | cons run later ih =>
      obtain ⟨sum, first⟩ := each run List.mem_cons_self
      obtain ⟨sums, others⟩ := ih fun other member => each other (List.mem_cons_of_mem run member)
      exact ⟨sum :: sums, .cons first others⟩

theorem Sums.closed (worth : Sums kind width run sum) :
    OpenBucket.close ⟨sum.timestamp, (run.map (·.value)).foldl Accumulator.append (.new kind)⟩ =
      [sum] := by
  have value : Accumulator.finalize ((run.map (·.value)).foldl Accumulator.append (.new kind)) =
    some sum.value := worth.worth
  rw [OpenBucket.close, value]

/-- Of samples in the order of time every run has a later bucket than the run before it. -/
theorem sums_increasing (maximal : MaximalRuns width samples runs)
    (worth : List.Forall₂ (Sums kind width) runs sums)
    (ordered : samples.Pairwise (·.timestamp ≤ ·.timestamp)) : Timeline.Increasing sums := by
  rw [← maximal.whole, List.pairwise_flatten] at ordered
  have apart := maximal.apart
  have filled := maximal.filled
  have order := ordered.2
  clear maximal ordered
  apply List.IsChain.pairwise
  induction worth with
  | nil => exact .nil
  | @cons run sum later sums first others ih =>
      rw [List.pairwise_cons] at order
      have rest := ih apart.tail (fun next member => filled next (List.mem_cons_of_mem run member))
        order.2
      cases others with
      | nil => exact .singleton sum
      | @cons next nextSum _ _ second _ =>
          obtain ⟨one, member⟩ := List.exists_mem_of_ne_nil run (filled run List.mem_cons_self)
          obtain ⟨other, among⟩ := List.exists_mem_of_ne_nil next
            (filled next (List.mem_cons_of_mem run List.mem_cons_self))
          have reached := bucket_start_mono width
            (order.1 next List.mem_cons_self one member other among)
          have differ := (List.isChain_cons_cons.mp apart).1 one member other among
          rw [first.start one member, second.start other among] at reached differ
          exact List.isChain_cons_cons.mpr ⟨UInt64.lt_of_le_of_ne reached differ, rest⟩

end Runs

namespace Feed

/-- Samples, behind which there may be an error with what comes after it. -/
def faulting (samples : List Sample) : Option (Error × Feed) → Feed
  | none => samples.map .ok
  | some (reason, unread) => samples.map .ok ++ .error reason :: unread

def unread : Option (Error × Feed) → Feed
  | none => []
  | some (_, unread) => unread

/-- What is emitted of the sums of all runs: an error takes the place of the last one. -/
def emitted (sums : List Sample) : Option (Error × Feed) → Feed
  | none => sums.map .ok
  | some (reason, _) => sums.dropLast.map .ok ++ [.error reason]

theorem exists_faulting (feed : Feed) : ∃ samples fault, feed = faulting samples fault := by
  induction feed with
  | nil => exact ⟨[], none, rfl⟩
  | cons item later ih =>
      cases item with
      | error reason => exact ⟨[], some (reason, later), rfl⟩
      | ok sample =>
          obtain ⟨samples, fault, rfl⟩ := ih
          refine ⟨sample :: samples, fault, ?_⟩
          cases fault <;> rfl

theorem faulting_append (earlier later : List Sample) (fault : Option (Error × Feed)) :
    faulting (earlier ++ later) fault = earlier.map .ok ++ faulting later fault := by
  cases fault with
  | none => exact List.map_append
  | some fault => simp [faulting]

theorem emitted_cons (sum next : Sample) (sums : List Sample) (fault : Option (Error × Feed)) :
    emitted (sum :: next :: sums) fault = .ok sum :: emitted (next :: sums) fault := by
  cases fault <;> rfl

section Aggregate

variable {kind : AggregationKind} {width : Duration} {start : Timestamp}

theorem aggregate_into_same {run : List Sample}
    (same : ∀ one ∈ run, bucketStart one.timestamp width = start)
    (accumulator : Accumulator Value) (later : Feed) :
    aggregateInto kind width ⟨start, accumulator⟩ (run.map .ok ++ later) =
      aggregateInto kind width
        ⟨start, (run.map (·.value)).foldl Accumulator.append accumulator⟩ later := by
  induction run generalizing accumulator with
  | nil => rfl
  | cons sample run ih =>
      have here := same sample List.mem_cons_self
      rw [List.map_cons, List.cons_append, aggregateInto, if_pos here]
      exact ih (fun one member => same one (List.mem_cons_of_mem sample member)) _

/-- With a run taken in, what remains is its sum and the sums of the runs behind it. -/
theorem aggregate_into_runs {run : List Sample} {runs : List (List Sample)} {sum : Sample}
    {sums : List Sample} (first : Sums kind width run sum) (nonempty : run ≠ [])
    (worth : List.Forall₂ (Sums kind width) runs sums) (filled : ∀ run ∈ runs, run ≠ [])
    (apart : (run :: runs).IsChain fun earlier later => ∀ one ∈ earlier, ∀ other ∈ later,
      bucketStart one.timestamp width ≠ bucketStart other.timestamp width)
    (fault : Option (Error × Feed)) :
    aggregateInto kind width
        ⟨sum.timestamp, (run.map (·.value)).foldl Accumulator.append (.new kind)⟩
        (faulting runs.flatten fault) = emitted (sum :: sums) fault := by
  induction worth generalizing run sum with
  | nil =>
      cases fault with
      | none => exact congrArg (List.map _) first.closed
      | some fault => rfl
  | @cons next nextSum after sums second others ih =>
      have started := filled next List.mem_cons_self
      obtain ⟨one, later, rfl⟩ := List.exists_cons_of_ne_nil started
      obtain ⟨here, beyond⟩ := List.isChain_cons_cons.mp apart
      obtain ⟨held, member⟩ := List.exists_mem_of_ne_nil run nonempty
      have behind : bucketStart one.timestamp width ≠ sum.timestamp := by
        rw [← first.start held member]
        exact (here held member one List.mem_cons_self).symm
      have opened : OpenBucket.ofSample kind width one =
          ⟨nextSum.timestamp, (Accumulator.new kind).append one.value⟩ := by
        rw [OpenBucket.ofSample, second.start one List.mem_cons_self]
      have rest := ih second started
        (fun run member => filled run (List.mem_cons_of_mem _ member)) beyond
      rw [List.flatten_cons, faulting_append, List.map_cons, List.cons_append, aggregateInto,
        if_neg behind, first.closed, opened, emitted_cons, ← rest]
      rw [aggregate_into_same fun other among => second.start other (List.mem_cons_of_mem _ among)]
      rfl

theorem aggregate_cons (kind : AggregationKind) (width : Duration) (reverse : Bool)
    (sample : Sample) (later : Feed) :
    aggregate kind width reverse (.ok sample :: later) =
      aggregateInto (kind.along reverse) width.atLeastOne
        (.ofSample (kind.along reverse) width.atLeastOne sample) later := rfl

/-- A feed is aggregated to the sums of its runs. -/
theorem aggregate_runs {samples : List Sample} {runs : List (List Sample)} {sums : List Sample}
    {reverse : Bool} (maximal : MaximalRuns width.atLeastOne samples runs)
    (worth : List.Forall₂ (Sums (kind.along reverse) width.atLeastOne) runs sums)
    (fault : Option (Error × Feed)) :
    aggregate kind width reverse (faulting samples fault) = emitted sums fault := by
  rw [← maximal.whole]
  cases worth with
  | nil => cases fault <;> rfl
  | @cons run sum later sums first others =>
      have started := maximal.filled run List.mem_cons_self
      obtain ⟨one, rest, rfl⟩ := List.exists_cons_of_ne_nil started
      have opened : OpenBucket.ofSample (kind.along reverse) width.atLeastOne one =
          ⟨sum.timestamp, (Accumulator.new (kind.along reverse)).append one.value⟩ := by
        rw [OpenBucket.ofSample, first.start one List.mem_cons_self]
      have taken := aggregate_into_runs first started others
        (fun run member => maximal.filled run (List.mem_cons_of_mem _ member)) maximal.apart fault
      rw [List.flatten_cons, faulting_append, List.map_cons, List.cons_append,
        aggregate_cons, opened, ← taken]
      rw [aggregate_into_same fun other among => first.start other (List.mem_cons_of_mem _ among)]
      rfl

theorem aggregate_ok (kind : AggregationKind) (width : Duration) (reverse : Bool)
    (samples : List Sample) : ∃ aggregates : List Sample,
      aggregate kind width reverse (samples.map .ok) = aggregates.map .ok := by
  obtain ⟨runs, maximal⟩ := exists_maximal_runs width.atLeastOne samples
  obtain ⟨sums, worth⟩ := exists_sums (kind.along reverse) maximal
  exact ⟨sums, aggregate_runs maximal worth none⟩

end Aggregate

end Feed

end Chronicle

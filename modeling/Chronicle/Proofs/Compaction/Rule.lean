import Chronicle.Compaction
import Chronicle.Proofs.Aggregation.Bucket

/-!
What a rule makes of the samples that it takes in. It keeps the bucket of the newest sample
open, and what it has let go are the aggregates of all buckets before that one.
-/

namespace Chronicle

open Timeline

def Flush.sample (flush : Flush) : Sample := ⟨flush.timestamp, flush.value⟩

section Compacts

variable {kind : AggregationKind} {width : Duration} {samples closed : List Sample}
  {newest sample : Sample} (wide : width ≠ 0)

structure Newest (samples : List Sample) (newest : Sample) : Prop where
  member : newest ∈ samples
  last : ∀ one ∈ samples, one.timestamp ≤ newest.timestamp

include wide

theorem closed_iff_newest (isNewest : Newest samples newest) (start : Timestamp) :
    ClosedBucket width samples start ↔
      (∃ one ∈ samples, bucketStart one.timestamp width = start) ∧
        start < bucketStart newest.timestamp width := by
  rw [closed_bucket_iff wide]
  refine and_congr_right fun _ => ⟨?_, ?_⟩
  · rintro ⟨one, member, later⟩
    exact UInt64.lt_of_lt_of_le later (bucket_start_mono width (isNewest.last one member))
  · intro later
    exact ⟨newest, isNewest.member, later⟩

theorem compacts_none (sample : Sample) : Compacts kind width [sample] [] where
  increasing := List.Pairwise.nil
  complete := by
    intro start closed
    have isNewest : Newest [sample] sample := ⟨by simp, by simp⟩
    obtain ⟨⟨one, member, same⟩, later⟩ := (closed_iff_newest wide isNewest start).mp closed
    rw [List.mem_singleton.mp member] at same
    exact absurd later (same ▸ UInt64.lt_irrefl _)
  exact := by simp

section Step

variable (isNewest : Newest samples newest) (newer : newest.timestamp < sample.timestamp)

include isNewest newer

omit wide in
theorem newest_append : Newest (samples ++ [sample]) sample where
  member := by simp
  last := by
    intro one member
    rcases List.mem_append.mp member with old | new
    · exact UInt64.le_of_lt (UInt64.lt_of_le_of_lt (isNewest.last one old) newer)
    · rw [List.mem_singleton.mp new]
      exact UInt64.le_refl _

/-- The bucket of the sample that came last is not closed by it. -/
theorem closed_append (start : Timestamp) :
    ClosedBucket width (samples ++ [sample]) start ↔
      (∃ one ∈ samples, bucketStart one.timestamp width = start) ∧
        start < bucketStart sample.timestamp width := by
  rw [closed_iff_newest wide (newest_append isNewest newer)]
  refine and_congr_left fun later => ⟨?_, ?_⟩
  · rintro ⟨one, member, same⟩
    rcases List.mem_append.mp member with old | new
    · exact ⟨one, old, same⟩
    · rw [List.mem_singleton.mp new] at same
      exact absurd later (same ▸ UInt64.lt_irrefl _)
  · rintro ⟨one, member, same⟩
    exact ⟨one, List.mem_append_left _ member, same⟩

/-- What has been let go stays right as samples come in. -/
theorem exact_append (compacts : Compacts kind width samples closed) {one : Sample}
    (member : one ∈ closed) : ClosedBucket width (samples ++ [sample]) one.timestamp ∧
      Accumulator.aggregate kind (valuesIn width one.timestamp (samples ++ [sample])) =
        some one.value := by
  obtain ⟨was, value⟩ := compacts.exact one member
  have grown := bucket_start_mono width (UInt64.le_of_lt newer)
  obtain ⟨filled, later⟩ := (closed_iff_newest wide isNewest one.timestamp).mp was
  have before := UInt64.lt_of_lt_of_le later grown
  have elsewhere : bucketStart sample.timestamp width ≠ one.timestamp :=
    fun same => absurd before (same ▸ UInt64.lt_irrefl _)
  refine ⟨(closed_append wide isNewest newer one.timestamp).mpr ⟨filled, before⟩, ?_⟩
  rw [values_in_append_elsewhere wide _ _ elsewhere, value]

theorem compacts_same (compacts : Compacts kind width samples closed)
    (same : bucketStart sample.timestamp width = bucketStart newest.timestamp width) :
    Compacts kind width (samples ++ [sample]) closed where
  increasing := compacts.increasing
  complete := by
    intro start passed
    rw [closed_append wide isNewest newer, same, ← closed_iff_newest wide isNewest] at passed
    exact compacts.complete start passed
  exact := fun _ member => exact_append wide isNewest newer compacts member

theorem compacts_next (compacts : Compacts kind width samples closed)
    (later : bucketStart newest.timestamp width < bucketStart sample.timestamp width)
    {value : Value} (worth : Accumulator.aggregate kind
      (valuesIn width (bucketStart newest.timestamp width) samples) = some value) :
    Compacts kind width (samples ++ [sample])
      (closed ++ [⟨bucketStart newest.timestamp width, value⟩]) where
  increasing := by
    refine List.pairwise_append.mpr ⟨compacts.increasing, List.pairwise_singleton _ _, ?_⟩
    intro one member last isLast
    rw [List.mem_singleton.mp isLast]
    exact ((closed_iff_newest wide isNewest _).mp (compacts.exact one member).1).2
  complete := by
    intro start passed
    obtain ⟨⟨one, member, same⟩, _⟩ := (closed_append wide isNewest newer start).mp passed
    by_cases open_ : start = bucketStart newest.timestamp width
    · exact ⟨value, List.mem_append_right _ (by simp [open_])⟩
    · have before : start < bucketStart newest.timestamp width := by
        refine UInt64.lt_of_le_of_ne ?_ open_
        rw [← same]
        exact bucket_start_mono width (isNewest.last one member)
      obtain ⟨old, listed⟩ := compacts.complete start
        ((closed_iff_newest wide isNewest start).mpr ⟨⟨one, member, same⟩, before⟩)
      exact ⟨old, List.mem_append_left _ listed⟩
  exact := by
    intro one member
    rcases List.mem_append.mp member with old | new
    · exact exact_append wide isNewest newer compacts old
    · rw [List.mem_singleton.mp new]
      have elsewhere : bucketStart sample.timestamp width ≠ bucketStart newest.timestamp width :=
        fun same => absurd later (same ▸ UInt64.lt_irrefl _)
      refine ⟨(closed_append wide isNewest newer _).mpr ⟨⟨newest, isNewest.member, rfl⟩, later⟩, ?_⟩
      rw [values_in_append_elsewhere wide _ _ elsewhere]
      exact worth

end Step

end Compacts

namespace Rule

/-- That a rule has taken in some samples and has let go some aggregates: it keeps the values
in the bucket of the newest sample, and has let go the buckets before that. -/
structure Tracks (rule : Rule) (samples closed : List Sample) : Prop where
  wide : rule.width ≠ 0
  compacts : Compacts rule.kind rule.width samples closed
  idle : samples = [] → closed = [] ∧ rule.openBucket = none ∧ rule.accumulator = .new rule.kind
  busy : samples ≠ [] → ∃ newest, Newest samples newest ∧
    rule.openBucket = some (bucketStart newest.timestamp rule.width) ∧
    rule.accumulator = (valuesIn rule.width (bucketStart newest.timestamp rule.width)
      samples).foldl Accumulator.append (.new rule.kind)

theorem tracks_new {destination : String} {kind : AggregationKind} {width : Duration}
    {rule : Rule} (made : Rule.new destination kind width = .ok rule) :
    rule.destination = destination ∧ rule.kind = kind ∧ rule.width = width ∧
      rule.Tracks [] [] := by
  unfold Rule.new at made
  split at made
  · exact nomatch made
  · rename_i wide
    obtain rfl := Except.ok.inj made
    refine ⟨rfl, rfl, rfl, wide, ⟨List.Pairwise.nil, ?_, by simp⟩, fun _ => ⟨rfl, rfl, rfl⟩,
      fun filled => absurd rfl filled⟩
    rintro start ⟨⟨one, member, _⟩, _⟩
    exact absurd member List.not_mem_nil

theorem tracks_take {rule : Rule} {samples closed : List Sample}
    (tracks : rule.Tracks samples closed) {sample : Sample}
    (newer : ∀ one ∈ samples, one.timestamp < sample.timestamp) :
    (rule.take sample).1.Tracks (samples ++ [sample])
      (closed ++ (rule.take sample).2.toList.map Flush.sample) := by
  have wide := tracks.wide
  by_cases none : samples = []
  · obtain ⟨rfl, unopened, fresh⟩ := tracks.idle none
    subst none
    rw [take, unopened]
    refine ⟨wide, compacts_none wide sample, by simp, fun _ => ?_⟩
    refine ⟨sample, ⟨by simp, by simp⟩, rfl, ?_⟩
    rw [values_in_append_here wide _ _ rfl]
    simp [fresh, valuesIn]
  obtain ⟨newest, isNewest, opened, held⟩ := tracks.busy none
  have after := newer newest isNewest.member
  have grown := bucket_start_mono rule.width (UInt64.le_of_lt after)
  have isNewestAfter := newest_append isNewest after
  rw [take, opened]
  dsimp only
  split
  · rename_i later
    -- the bucket that closes has a sample, so it has an aggregate to let go
    obtain ⟨value, worth⟩ := Accumulator.aggregate_of_ne_nil rule.kind
      (values_in_ne_nil wide isNewest.member rfl)
    have flushed : rule.flush (bucketStart newest.timestamp rule.width) =
        some ⟨rule.destination, bucketStart newest.timestamp rule.width, value⟩ := by
      rw [flush, held]
      exact congrArg _ worth
    have earlier : ∀ one ∈ samples,
        bucketStart one.timestamp rule.width ≠ bucketStart sample.timestamp rule.width := by
      intro one member same
      have order := bucket_start_mono rule.width (isNewest.last one member)
      exact absurd (UInt64.lt_of_le_of_lt order later) (same ▸ UInt64.lt_irrefl _)
    rw [flushed]
    refine ⟨wide, compacts_next wide isNewest after tracks.compacts later worth, by simp,
      fun _ => ⟨sample, isNewestAfter, rfl, ?_⟩⟩
    rw [values_in_append_here wide _ _ rfl, values_in_eq_nil wide earlier]
    dsimp only
    rw [Accumulator.reset, held, Accumulator.kind_foldl]
    rfl
  · rename_i still
    have same : bucketStart sample.timestamp rule.width =
        bucketStart newest.timestamp rule.width :=
      UInt64.le_antisymm (UInt64.not_lt.mp still) grown
    refine ⟨wide, ?_, by simp, fun _ => ⟨sample, isNewestAfter, ?_, ?_⟩⟩
    · rw [Option.toList_none, List.map_nil, List.append_nil]
      exact compacts_same wide isNewest after tracks.compacts same
    · exact congrArg some same.symm
    · rw [values_in_append_here wide _ _ rfl, same, List.foldl_append, ← held, List.foldl_cons,
        List.foldl_nil]

end Rule

end Chronicle

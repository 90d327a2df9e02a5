import Chronicle.Proofs.Aggregation.Fold
import Chronicle.Proofs.Aggregation.Runs
import Chronicle.Proofs.Engine.Retention

/-!
Reading backwards. A read that runs backwards is the mirror image of the one that runs
forwards, also where it is cut off: of samples it yields the last ones first, and of buckets
it yields the last ones first, each made of the same samples.
-/

namespace Chronicle

namespace Accumulator

variable {α : Type} [Arithmetic α]

/-- Counts, first and last values of what is taken in backwards are those of what it is
forwards, to the bit. -/
theorem aggregate_reverse {kind : AggregationKind} (listed : kind ∈ [.count, .first, .last])
    (values : List α) : aggregate kind.reversed values.reverse = aggregate kind values := by
  simp only [List.mem_cons, List.not_mem_nil, or_false] at listed
  rcases listed with rfl | rfl | rfl
  · simp only [aggregate, AggregationKind.reversed, new, foldl_count, List.length_reverse]
  · simp only [aggregate, AggregationKind.reversed, new, foldl_first, foldl_last,
      List.getLast?_reverse, finalize]
    cases values.head? <;> rfl
  · simp only [aggregate, AggregationKind.reversed, new, foldl_first, foldl_last,
      List.head?_reverse, finalize]
    cases values.getLast? <;> rfl

end Accumulator

section Buckets

variable {kind : AggregationKind} {width : Duration} {run : List Sample} {sum back : Sample}
  {samples : List Sample} {runs : List (List Sample)} {forward backward : List Sample}

/-- Whether two samples stand for the same bucket, one for its values as they come and one for
them as they come backwards. -/
def SameBucket (kind : AggregationKind) (forward backward : Sample) : Prop :=
  backward.timestamp = forward.timestamp ∧
    (kind ∈ [AggregationKind.count, .first, .last] → backward = forward)

theorem Sums.reversed (worth : Sums kind width run sum)
    (backwards : Sums kind.reversed width run.reverse back) : SameBucket kind sum back := by
  have filled : run ≠ [] := by
    rintro rfl
    have none := worth.worth
    rw [List.map_nil, Accumulator.aggregate, List.foldl_nil, Accumulator.finalize_new] at none
    cases none
  obtain ⟨one, member⟩ := List.exists_mem_of_ne_nil run filled
  have same : back.timestamp = sum.timestamp := by
    rw [← worth.start one member, backwards.start one (List.mem_reverse.mpr member)]
  refine ⟨same, ?_⟩
  intro listed
  have value := backwards.worth
  rw [List.map_reverse, Accumulator.aggregate_reverse listed, worth.worth] at value
  cases sum
  cases back
  cases same
  cases value
  rfl

theorem same_buckets (forwards : List.Forall₂ (Sums kind width) runs forward)
    (backwards : List.Forall₂ (Sums kind.reversed width) (runs.map List.reverse) backward) :
    List.Forall₂ (SameBucket kind) forward backward := by
  rw [List.forall₂_map_left_iff] at backwards
  induction forwards generalizing backward with
  | nil =>
      cases backwards
      exact .nil
  | cons worth _ ih =>
      cases backwards with
      | cons first others => exact .cons (worth.reversed first) (ih others)

/-- That some samples are the last buckets of others, backwards, with the aggregates of the
same samples. -/
structure Mirrors (kind : AggregationKind) (width : Duration) (count : Nat)
    (runs : List (List Sample)) (forward backward : List Sample) : Prop where
  forwards : List.Forall₂ (Sums kind width) runs forward
  backwards : List.Forall₂ (Sums kind.reversed width)
    ((runs.reverse.take count).map List.reverse) backward
  moments : backward.map (·.timestamp) = (forward.reverse.take count).map (·.timestamp)
  values : kind ∈ [AggregationKind.count, .first, .last] →
    backward = forward.reverse.take count

theorem mirrors_take (forwards : List.Forall₂ (Sums kind width) runs forward)
    (backwards : List.Forall₂ (Sums kind.reversed width) (runs.reverse.map List.reverse) backward)
    (count : Nat) : Mirrors kind width count runs forward (backward.take count) := by
  have front := List.forall₂_take count backwards
  rw [← List.map_take] at front
  have last := List.forall₂_take count (List.forall₂_reverse_iff.mpr forwards)
  have same := same_buckets last front
  refine ⟨forwards, front, ?_, ?_⟩
  · rw [← List.forall₂_eq_eq_eq, List.forall₂_map_left_iff, List.forall₂_map_right_iff]
    exact same.flip.imp fun _ _ bucket => bucket.1
  · intro listed
    rw [← List.forall₂_eq_eq_eq]
    exact same.flip.imp fun _ _ bucket => bucket.2 listed

end Buckets

theorem Span.choose_reverse (start stop : Timestamp) (samples : List Sample) :
    (Span.mk start stop true).choose samples =
      ((Span.mk start stop false).choose samples).reverse := List.filter_reverse

namespace View

variable (view : View) {start stop : Timestamp}

theorem range_raw (readable : ¬stop < start) (limit : Option Nat) (reverse : Bool) :
    view.range ⟨start, stop, none, limit, reverse⟩ =
      Feed.collect
        (Feed.upTo limit (((Span.mk start stop reverse).choose view.samples).map .ok)) := by
  simp only [range, RangeRequest.check, if_neg readable]
  rfl

theorem range_sums {kind : AggregationKind} {width : Duration} (wide : width ≠ 0)
    (readable : ¬stop < start) (limit : Option Nat) (reverse : Bool) {runs : List (List Sample)}
    {sums : List Sample}
    (maximal : MaximalRuns width ((Span.mk start stop reverse).choose view.samples) runs)
    (worth : List.Forall₂ (Sums (kind.along reverse) width) runs sums) :
    view.range ⟨start, stop, some (kind, width), limit, reverse⟩ =
      Feed.collect (Feed.upTo limit (sums.map .ok)) := by
  have least : width.atLeastOne = width := if_neg wide
  rw [← least] at maximal worth
  have whole := Feed.aggregate_runs maximal worth none
  simp only [range, RangeRequest.check, if_neg readable, if_neg wide]
  exact congrArg (fun feed => Feed.collect (Feed.upTo limit feed)) whole

end View

namespace Series

variable {series : Series}

/-- In every series that there can be, a read that runs backwards and is cut off yields the
last samples of the same read forwards, from the end on; and aggregated by buckets it yields
the last buckets, each of the samples that it has forwards, with the same value where samples
are counted or where the first or the last of them is taken. -/
theorem reverse_mirrors (attainable : series.Attainable) (start stop : Timestamp) (count : Nat) :
    (series.range ⟨start, stop, none, some count, true⟩ =
      (series.range ⟨start, stop, none, none, false⟩).map fun samples =>
        samples.reverse.take count) ∧
    ∀ kind width, width ≠ 0 →
      (stop < start ∧ ∀ limit reverse,
        series.range ⟨start, stop, some (kind, width), limit, reverse⟩ =
          .error (.invalidTimeRange start stop)) ∨
      ∃ samples runs forward backward,
        series.range ⟨start, stop, none, none, false⟩ = .ok samples ∧
        MaximalRuns width samples runs ∧
        series.range ⟨start, stop, some (kind, width), none, false⟩ = .ok forward ∧
        series.range ⟨start, stop, some (kind, width), some count, true⟩ = .ok backward ∧
        Mirrors kind width count runs forward backward := by
  obtain ⟨view, shows⟩ := attainable.filed.shows
  simp only [range_shown shows]
  by_cases hidden : stop < start
  · have refused : ∀ aggregation limit reverse,
        view.range ⟨start, stop, aggregation, limit, reverse⟩ =
          .error (.invalidTimeRange start stop) := by
      intro aggregation limit reverse
      simp only [View.range, RangeRequest.check, if_pos hidden]
      rfl
    constructor
    · rw [refused, refused]
      rfl
    · intro kind width _
      exact Or.inl ⟨hidden, refused _⟩
  · have raw := view.range_raw hidden none false
    rw [Feed.upTo, Feed.collect_ok] at raw
    constructor
    · rw [raw, view.range_raw hidden (some count) true, Feed.upTo, ← List.map_take,
        Feed.collect_ok, Span.choose_reverse]
      rfl
    · intro kind width wide
      obtain ⟨runs, maximal⟩ :=
        exists_maximal_runs width ((Span.mk start stop false).choose view.samples)
      have reversed := maximal.backwards
      rw [← Span.choose_reverse] at reversed
      obtain ⟨forward, forwards⟩ := exists_sums kind maximal
      obtain ⟨backward, backwards⟩ := exists_sums kind.reversed reversed
      have first := view.range_sums wide hidden none false maximal forwards
      have second := view.range_sums wide hidden (some count) true reversed backwards
      rw [Feed.upTo, Feed.collect_ok] at first
      rw [Feed.upTo, ← List.map_take, Feed.collect_ok] at second
      exact Or.inr ⟨_, runs, forward, backward.take count, raw, maximal, first, second,
        mirrors_take forwards backwards count⟩

/-- Two samples in two buckets, of which retention once hid the first. -/
def shownAgain : Series := (zeros 10 [10, 25]).altered ⟨some 0, none, none, none⟩

theorem reverse_mirrors_shown_again :
    shownAgain.Attainable ∧
      (shownAgain.range ⟨5, 30, none, some 1, true⟩ =
        (shownAgain.range ⟨5, 30, none, none, false⟩).map fun samples =>
          samples.reverse.take 1) ∧
      (10 : Duration) ≠ 0 ∧ ∃ samples runs forward backward,
        shownAgain.range ⟨5, 30, none, none, false⟩ = .ok samples ∧
        MaximalRuns 10 samples runs ∧
        shownAgain.range ⟨5, 30, some (.last, 10), none, false⟩ = .ok forward ∧
        shownAgain.range ⟨5, 30, some (.last, 10), some 1, true⟩ = .ok backward ∧
        Mirrors .last 10 1 runs forward backward := by
  have attainable : shownAgain.Attainable := zeros_attainable.altered ⟨some 0, none, none, none⟩
  obtain ⟨raw, buckets⟩ := reverse_mirrors attainable 5 30 1
  have wide : (10 : Duration) ≠ 0 := by decide
  rcases buckets .last 10 wide with ⟨hidden, _⟩ | mirrors
  · exact absurd hidden (by decide)
  · exact ⟨attainable, raw, wide, mirrors⟩

end Series

end Chronicle

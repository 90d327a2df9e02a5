import Chronicle.Proofs.Aggregation.Extremes
import Chronicle.Proofs.Series.Mirror

/-!
Extremes of buckets, read backwards. A read that runs backwards has the buckets of the one
that runs forwards, made of the same samples. The extremes of a bucket are the same in both
exactly where its samples are steady, that is where both of its ends are numbers or neither.
-/

namespace Chronicle

open Binary64

/-- Whether two samples are of one moment and of the same value. -/
def SameReading (one other : Sample) : Prop :=
  one.timestamp = other.timestamp ∧ Same one.value other.value

section Buckets

variable {kind : AggregationKind} {width : Duration} {run : List Sample} {front back : Sample}
  {runs : List (List Sample)} {forward backward : List Sample}

/-- That two aggregates, one of a run forwards and one of it backwards, are of one bucket and
have the same value exactly where the run is steady. -/
structure Opposed (kind : AggregationKind) (width : Duration) (run : List Sample)
    (ends : Sample × Sample) : Prop where
  forwards : Sums kind width run ends.1
  backwards : Sums kind width run.reverse ends.2
  moment : ends.1.timestamp = ends.2.timestamp
  agree : Same ends.1.value ends.2.value ↔ Steady kind (run.map (·.value))

theorem Sums.opposed (listed : kind ∈ [.min, .max, .range]) (filled : run ≠ [])
    (forwards : Sums kind width run front) (backwards : Sums kind width run.reverse back) :
    Opposed kind width run (front, back) where
  forwards := forwards
  backwards := backwards
  moment := by
    obtain ⟨one, member⟩ := List.exists_mem_of_ne_nil run filled
    exact (forwards.start one member).symm.trans
      (backwards.start one (List.mem_reverse.mpr member))
  agree := by
    have turned := backwards.worth
    rw [List.map_reverse] at turned
    exact Accumulator.same_backwards_iff listed forwards.worth turned

theorem exists_opposed (listed : kind ∈ [.min, .max, .range]) (filled : ∀ run ∈ runs, run ≠ [])
    (forwards : List.Forall₂ (Sums kind width) runs forward)
    (backwards : List.Forall₂ (Sums kind width) (runs.map List.reverse) backward) :
    List.Forall₂ (Opposed kind width) runs (forward.zip backward) := by
  rw [List.forall₂_map_left_iff] at backwards
  induction forwards generalizing backward with
  | nil => exact .nil
  | cons worth _ ih =>
      cases backwards with
      | cons turned others =>
          have first := worth.opposed listed (filled _ List.mem_cons_self) turned
          have rest := ih (fun run member => filled run (List.mem_cons_of_mem _ member)) others
          exact .cons first rest

theorem same_readings_iff (length : forward.length = backward.length)
    (opposed : List.Forall₂ (Opposed kind width) runs (forward.zip backward)) :
    List.Forall₂ SameReading forward backward ↔
      ∀ run ∈ runs, Steady kind (run.map (·.value)) := by
  induction forward generalizing backward runs with
  | nil =>
      obtain rfl := List.length_eq_zero_iff.mp length.symm
      cases opposed
      simp
  | cons front forward ih =>
      cases backward with
      | nil => exact nomatch length
      | cons back backward =>
          cases opposed with
          | cons first others =>
              have rest := ih (Nat.succ.inj length) others
              have here : SameReading front back ↔ Steady kind _ :=
                (and_iff_right first.moment).trans first.agree
              rw [List.forall₂_cons, List.forall_mem_cons, here, rest]

end Buckets

namespace Series

variable {series : Series}

/-- In every series that there can be, a read of least or greatest values by buckets, or of
their distances, that runs backwards yields the buckets of the read that runs forwards, and in
each of them the same value exactly if the bucket is steady. So the one is the other backwards
exactly if all buckets are steady. -/
theorem extremes_mirror_iff (attainable : series.Attainable) (start stop : Timestamp)
    {kind : AggregationKind} (listed : kind ∈ [.min, .max, .range]) {width : Duration}
    (wide : width ≠ 0) :
    (stop < start ∧ ∀ reverse,
      series.range ⟨start, stop, some (kind, width), none, reverse⟩ =
        .error (.invalidTimeRange start stop)) ∨
    ∃ samples runs forward backward,
      series.range ⟨start, stop, none, none, false⟩ = .ok samples ∧
      MaximalRuns width samples runs ∧
      series.range ⟨start, stop, some (kind, width), none, false⟩ = .ok forward ∧
      series.range ⟨start, stop, some (kind, width), none, true⟩ = .ok backward ∧
      List.Forall₂ (Opposed kind width) runs (forward.zip backward.reverse) ∧
      (List.Forall₂ SameReading forward backward.reverse ↔
        ∀ run ∈ runs, Steady kind (run.map (·.value))) := by
  obtain ⟨view, shows⟩ := attainable.filed.shows
  simp only [range_shown shows]
  by_cases hidden : stop < start
  · refine Or.inl ⟨hidden, ?_⟩
    intro reverse
    simp only [View.range, RangeRequest.check, if_pos hidden]
    rfl
  · obtain ⟨runs, maximal⟩ :=
      exists_maximal_runs width ((Span.mk start stop false).choose view.samples)
    have turned := maximal.backwards
    rw [← Span.choose_reverse] at turned
    have unturned : kind.reversed = kind := by
      simp only [List.mem_cons, List.not_mem_nil, or_false] at listed
      rcases listed with rfl | rfl | rfl <;> rfl
    obtain ⟨forward, forwards⟩ := exists_sums kind maximal
    obtain ⟨backward, backwards⟩ := exists_sums kind.reversed turned
    have raw := view.range_raw hidden none false
    have first := view.range_sums wide hidden none false maximal forwards
    have second := view.range_sums wide hidden none true turned backwards
    rw [Feed.upTo, Feed.collect_ok] at raw first second
    rw [unturned, List.map_reverse, ← List.reverse_reverse backward,
      List.forall₂_reverse_iff] at backwards
    have opposed := exists_opposed listed maximal.filled forwards backwards
    have length : forward.length = backward.reverse.length := by
      rw [← forwards.length_eq, ← backwards.length_eq, List.length_map]
    exact Or.inr ⟨_, runs, forward, backward, raw, maximal, first, second, opposed,
      same_readings_iff length opposed⟩

def holding (values : List Value) : Series where
  key := "a"
  labels := ∅
  duplicatePolicy := .last
  store :=
    { config := ⟨.uncompressed, 4096, 0, false⟩
      chunks := .ofList ((values.take 1).map fun _ =>
        (1, .uncompressed (.ofList (values.mapIdx fun index value =>
          ⟨UInt64.ofNat (index + 1), value⟩))))
      lastTimestamp := UInt64.ofNat values.length
      lastValue := values.getLast?.getD .zero
      totalSamples := (values.length : Int) }
  sourceKey := none
  rules := []

def notNumber : Value := ⟨0x7ff8000000000000⟩

def one : Value := ⟨0x3ff0000000000000⟩

theorem holding_attainable :
    (holding [notNumber, one]).Attainable ∧ (holding [notNumber, one, notNumber]).Attainable := by
  have created : Series.new "a" ∅ .last ⟨.uncompressed, 4096, 0, false⟩ = .ok (holding []) := rfl
  have begun : (holding []).add 1 notNumber none =
      .ok (holding [notNumber], ⟨1, .appended, .nothing, []⟩) := rfl
  have followed : (holding [notNumber]).add 2 one none =
      .ok (holding [notNumber, one], ⟨2, .appended, .nothing, []⟩) := rfl
  have closed : (holding [notNumber, one]).add 3 notNumber none =
      .ok (holding [notNumber, one, notNumber], ⟨3, .appended, .nothing, []⟩) := rfl
  have second := ((Attainable.made created).added begun).added followed
  exact ⟨second, second.added closed⟩

/-- Between two values that are not numbers no number shows from either end. -/
theorem extremes_mirror_enclosed :
    let series := holding [notNumber, one, notNumber]
    series.Attainable ∧ AggregationKind.range ∈ [AggregationKind.min, .max, .range] ∧
      (10 : Duration) ≠ 0 ∧ ∃ samples runs forward backward,
        series.range ⟨0, 10, none, none, false⟩ = .ok samples ∧
        MaximalRuns 10 samples runs ∧
        series.range ⟨0, 10, some (.range, 10), none, false⟩ = .ok forward ∧
        series.range ⟨0, 10, some (.range, 10), none, true⟩ = .ok backward ∧
        List.Forall₂ (Opposed .range 10) runs (forward.zip backward.reverse) ∧
        (List.Forall₂ SameReading forward backward.reverse ↔
          ∀ run ∈ runs, Steady .range (run.map (·.value))) := by
  intro series
  have attainable : series.Attainable := holding_attainable.2
  have listed : AggregationKind.range ∈ [AggregationKind.min, .max, .range] := by decide
  have wide : (10 : Duration) ≠ 0 := by decide
  rcases extremes_mirror_iff attainable 0 10 listed wide with ⟨hidden, _⟩ | mirrors
  · exact absurd hidden (by decide)
  · exact ⟨attainable, listed, wide, mirrors⟩

/-- A value that is not a number, at the beginning of a bucket, is its least value forwards and
passed over backwards. -/
theorem least_turned :
    (holding [notNumber, one]).Attainable ∧
      (holding [notNumber, one]).range ⟨0, 10, some (.min, 10), none, false⟩ =
        .ok [⟨0, notNumber⟩] ∧
      (holding [notNumber, one]).range ⟨0, 10, some (.min, 10), none, true⟩ = .ok [⟨0, one⟩] ∧
      ¬ Same notNumber one :=
  ⟨holding_attainable.1, rfl, rfl, by decide⟩

end Series

end Chronicle

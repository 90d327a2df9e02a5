import Chronicle.Proofs.Series.Stepwise
import Chronicle.Proofs.Series.View

/-!
Retention. A write is refused by a difference, chunks are dropped by a bound, and reads start
at a bound that is computed again; all three draw the same line. What is written is seen at
once, and what is dropped could not be seen any more.
-/

namespace Chronicle

open Timeline

namespace View

variable {view after : View} {timestamp : Timestamp} {value : Value}
  {override : Option DuplicatePolicy} {receipt : Receipt}

/-- That the samples of a view are a timeline within the window of the newest one. -/
structure Windowed (view : View) : Prop where
  increasing : Increasing view.samples
  kept : ∀ newest ∈ view.samples.getLast?, ∀ sample ∈ view.samples,
    keptFrom view.retention newest.timestamp ≤ sample.timestamp

/-- Only a write before the window is refused as such. -/
theorem refused_iff {newest : Sample} (last : view.samples.getLast? = some newest)
    (moment limit : Timestamp) (length : Duration) :
    view.add timestamp value override = .error (.outOfRetention moment limit length) ↔
      timestamp < keptFrom view.retention newest.timestamp ∧
        moment = timestamp ∧ limit = newest.timestamp ∧ length = view.retention := by
  by_cases early : timestamp < keptFrom view.retention newest.timestamp
  · rw [add_old last early]
    simp only [early, Except.error.injEq, Error.outOfRetention.injEq, true_and, eq_comm]
  refine iff_of_false ?_ fun old => early old.1
  intro refused
  by_cases behind : newest.timestamp < timestamp
  · rw [add_newer last behind] at refused
    exact nomatch refused
  rw [add_within last (UInt64.not_lt.mp early) (UInt64.not_lt.mp behind)] at refused
  split at refused
  · exact nomatch refused
  · cases written : write view.samples ⟨timestamp, value⟩ (override.getD view.policy) with
    | ok placed =>
        rw [written] at refused
        exact nomatch refused
    | error reason =>
        rw [written, write_refused written] at refused
        exact nomatch refused

def placing (samples : List Sample) (timestamp : Timestamp) : WriteKind :=
  if ∀ sample ∈ samples, sample.timestamp < timestamp then .appended
  else if valueAt? samples timestamp = none then .inserted
  else .merged

/-- What is seen after an accepted write: the samples seen before with the new one in its
place, as far as they are in the window of what is then the newest. -/
structure Places (view : View) (sample : Sample) (policy : DuplicatePolicy) (kind : WriteKind)
    (seen : List Sample) : Prop where
  stored : kind = placing view.samples sample.timestamp
  placed : ∃ placed inserted newest, write view.samples sample policy = .ok (placed, inserted) ∧
    placed.getLast? = some newest ∧
    seen = since (keptFrom view.retention newest.timestamp) placed
  present : ∃ value, Sample.mk sample.timestamp value ∈ seen

theorem places_append (sample : Sample) (policy : DuplicatePolicy)
    (newer : ∀ other ∈ view.samples, other.timestamp < sample.timestamp) :
    view.Places sample policy (view.append sample).2.kind (view.append sample).1.samples where
  stored := by
    rw [placing, if_pos newer]
    rfl
  placed := by
    have behind : ∀ other ∈ ([] : List Sample), sample.timestamp < other.timestamp :=
      fun _ member => nomatch member
    have written := write_absent policy newer behind
    rw [List.append_nil] at written
    exact ⟨_, true, sample, written, List.getLast?_concat, rfl⟩
  present :=
    ⟨sample.value, mem_since.mpr ⟨List.mem_append_right _ (List.mem_singleton_self _),
      kept_from_le_newest _ _⟩⟩

theorem placing_written {samples placed : List Sample} {policy : DuplicatePolicy}
    {inserted : Bool} (among : ¬ ∀ other ∈ samples, other.timestamp < timestamp)
    (written : write samples ⟨timestamp, value⟩ policy = .ok (placed, inserted)) :
    (if inserted then .inserted else .merged) = placing samples timestamp := by
  rw [placing, if_neg among]
  unfold write at written
  split at written
  · rename_i free
    obtain ⟨_, rfl⟩ := Prod.mk.inj (Except.ok.inj written)
    rw [if_pos free, if_pos rfl]
  · rename_i held taken
    obtain ⟨merged, _, kept⟩ := exists_of_bind_ok written
    obtain ⟨_, rfl⟩ := Prod.mk.inj (Except.ok.inj kept)
    rw [if_neg Bool.false_ne_true, taken, if_neg (Option.some_ne_none held)]

theorem places_within (windowed : view.Windowed) {newest : Sample}
    (last : view.samples.getLast? = some newest)
    (inside : keptFrom view.retention newest.timestamp ≤ timestamp)
    (reached : timestamp ≤ newest.timestamp) {policy : DuplicatePolicy} {placed : List Sample}
    {inserted : Bool} (written : write view.samples ⟨timestamp, value⟩ policy =
      .ok (placed, inserted)) :
    view.Places ⟨timestamp, value⟩ policy (if inserted then .inserted else .merged) placed := by
  obtain ⟨⟨stored, one⟩, _⟩ := write_ok windowed.increasing written
  obtain ⟨final, atEnd, same⟩ :=
    @last_moment_put _ ⟨timestamp, stored⟩ _ windowed.increasing last reached
  rw [← one] at atEnd
  constructor
  · apply placing_written _ written
    intro newer
    have less := newer newest (List.mem_of_getLast? last)
    exact UInt64.not_lt.mpr reached less
  · refine ⟨placed, inserted, final, written, atEnd, ?_⟩
    rw [same, one]
    exact (since_put (windowed.kept newest last) inside).symm
  · refine ⟨stored, ?_⟩
    rw [one, put]
    exact List.mem_append_right _ List.mem_cons_self

theorem places_accepted (windowed : view.Windowed)
    (accepted : view.add timestamp value override = .ok (after, receipt)) :
    view.Places ⟨timestamp, value⟩ (override.getD view.policy) receipt.kind after.samples := by
  cases last : view.samples.getLast? with
  | none =>
      rw [add_empty last] at accepted
      obtain ⟨rfl, rfl⟩ := Prod.mk.inj (Except.ok.inj accepted)
      apply places_append
      rw [List.getLast?_eq_none_iff.mp last]
      exact fun _ member => nomatch member
  | some newest =>
      by_cases early : timestamp < keptFrom view.retention newest.timestamp
      · rw [add_old last early] at accepted
        exact nomatch accepted
      by_cases behind : newest.timestamp < timestamp
      · rw [add_newer last behind] at accepted
        obtain ⟨rfl, rfl⟩ := Prod.mk.inj (Except.ok.inj accepted)
        apply places_append
        intro other member
        have order := le_last_of_increasing windowed.increasing last member
        exact UInt64.lt_of_le_of_lt order behind
      have inside := UInt64.not_lt.mp early
      have reached := UInt64.not_lt.mp behind
      rw [add_within last inside reached] at accepted
      split at accepted
      · exact nomatch accepted
      · cases written : write view.samples ⟨timestamp, value⟩ (override.getD view.policy) with
        | error refused =>
            rw [written] at accepted
            exact nomatch accepted
        | ok result =>
            rw [written] at accepted
            obtain ⟨rfl, rfl⟩ := Prod.mk.inj (Except.ok.inj accepted)
            exact places_within windowed last inside reached written

end View

namespace Series

variable {series : Series} {view : View}

theorem Shows.windowed (shows : series.Shows view) : view.Windowed := by
  obtain ⟨runs, files, rfl⟩ := shows
  constructor
  · exact files.increasing.sublist List.filter_sublist
  · intro newest last sample member
    have stored := (Store.last_window files).symm.trans last
    rw [files.last newest stored]
    exact (mem_since.mp member).2

/-- What retention makes of a write to a series of which some samples are to be seen. -/
structure Retains (series : Series) (visible : List Sample) (timestamp : Timestamp)
    (value : Value) (override : Option DuplicatePolicy) : Prop where
  last : series.lastSample = visible.getLast?
  unchanged : (addInPlace timestamp value override).run series =
    series.inPlace (series.add timestamp value override)
  refused : ∀ newest, visible.getLast? = some newest → ∀ moment limit length,
    series.add timestamp value override = .error (.outOfRetention moment limit length) ↔
      timestamp < windowStart newest.timestamp series.retention ∧
        moment = timestamp ∧ limit = newest.timestamp ∧ length = series.retention
  accepted : ∀ changed written, series.add timestamp value override = .ok (changed, written) →
    ∃ placed inserted newest seen,
      Timeline.write visible ⟨timestamp, value⟩ (override.getD series.duplicatePolicy) =
        .ok (placed, inserted) ∧
      written.kind = View.placing visible timestamp ∧
      placed.getLast? = some newest ∧
      changed.range .everything = .ok seen ∧
      seen = since (windowStart newest.timestamp series.retention) placed ∧
      ∃ stored, ⟨timestamp, stored⟩ ∈ seen

theorem retains_shown (shows : series.Shows view) (limited : series.retention ≠ 0)
    (timestamp : Timestamp) (value : Value) (override : Option DuplicatePolicy) :
    series.Retains view.samples timestamp value override := by
  have follows := add_shown shows timestamp value override
  have retention : view.retention = series.retention := by
    obtain ⟨runs, _, rfl⟩ := shows
    rfl
  have policy : view.policy = series.duplicatePolicy := by
    obtain ⟨runs, _, rfl⟩ := shows
    rfl
  have start (newest : Timestamp) :
      keptFrom view.retention newest = windowStart newest series.retention := by
    rw [retention, keptFrom, if_neg limited]
  refine ⟨last_shown shows, add_in_place series timestamp value override, ?_, ?_⟩
  · intro newest last moment limit length
    rw [← start, ← retention, follows.refuses]
    exact View.refused_iff last moment limit length
  · intro changed written accepted
    rw [accepted] at follows
    generalize told : view.add timestamp value override = expected at follows
    cases follows with
    | taken _ showsAfter =>
        obtain ⟨kind, ⟨placed, inserted, newest, wrote, last, seen⟩, present⟩ :=
          View.places_accepted shows.windowed told
        rw [policy] at wrote
        simp only [start] at seen
        refine ⟨placed, inserted, newest, _, wrote, kind, last, ?_, seen, present⟩
        rw [range_shown showsAfter, View.range_everything]

end Series

end Chronicle

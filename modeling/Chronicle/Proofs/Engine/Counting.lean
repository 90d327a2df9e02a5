import Chronicle.Proofs.Engine.Attained
import Chronicle.Proofs.Engine.Fanout
import Chronicle.Proofs.Series.Count

/-!
Counting. A counter writes the last value of its series again, with a change. At the last
timestamp only the open chunk is touched, behind it a sample is appended, and both are always
possible, whatever the settings of the series; so a count is refused only before the last
timestamp.
-/

namespace Chronicle

open Timeline

theorem bucket_start_le (timestamp : Timestamp) (width : Duration) :
    bucketStart timestamp width ≤ timestamp := by
  rw [UInt64.le_iff_toNat_le, bucket_start_to_nat]
  exact Nat.sub_le _ _

theorem Rule.closes_before {rule : Rule} {sample : Sample} {flush : Flush}
    (closed : (rule.take sample).2 = some flush) : flush.timestamp < sample.timestamp := by
  unfold take at closed
  dsimp only at closed
  split at closed
  · exact nomatch closed
  · split at closed
    · rename_i passed
      obtain ⟨value, _, rfl⟩ := Option.map_eq_some_iff.mp closed
      exact UInt64.lt_of_lt_of_le passed (bucket_start_le _ _)
    · exact nomatch closed

namespace Series

variable {series changed : Series} {timestamp : Timestamp} {value : Value}
  {override : Option DuplicatePolicy} {written : Written}

theorem flush_before (accepted : series.add timestamp value override = .ok (changed, written))
    {flush : Flush} (member : flush ∈ written.flushes) : flush.timestamp < timestamp := by
  rcases add_outcome accepted with ⟨_, _, _, _, _, rfl⟩ | ⟨_, _, _, _, _, rfl⟩
  · exact nomatch member
  · obtain ⟨rule, _, closed⟩ := List.mem_filterMap.mp member
    exact Rule.closes_before closed

theorem empty_of_last (none : series.lastSample = none) : series.store.isEmpty = true := by
  unfold lastSample Store.lastSample at none
  split at none
  · assumption
  · exact nomatch none

theorem filled_of_last {newest : Sample} (last : series.lastSample = some newest) :
    series.store.isEmpty = false ∧ series.store.lastTimestamp = newest.timestamp := by
  unfold lastSample Store.lastSample at last
  split at last
  · exact nomatch last
  · rename_i filled
    obtain rfl := Option.some.inj last
    exact ⟨Bool.eq_false_iff.mpr filled, rfl⟩

theorem fed_by_behind {newest : Sample} (last : series.lastSample = some newest) {flush : Flush}
    (behind : flush.timestamp ≤ newest.timestamp) : series.fedBy flush = series := by
  obtain ⟨filled, ends⟩ := filled_of_last last
  rw [← ends] at behind
  rw [fedBy, appendCompacted, Store.append_refused filled behind]
  rfl

/-- That a series is another one after a sample was counted in: the sample is in its place at
the end, and the others are as they were, less some from before the window that it ends. -/
structure Counted (old new : Series) (sample : Sample) (grown : Nat) : Prop where
  continues : old.Continues new
  last : new.lastSample = some sample
  samples : ∃ stored dropped held, old.store.contents = .ok stored ∧
    new.store.contents = .ok held ∧ Increasing held ∧ put stored sample = dropped ++ held ∧
    (∀ other ∈ dropped, other.timestamp < keptFrom old.retention sample.timestamp) ∧
    new.store.count + dropped.length = old.store.count + grown

theorem counted_of_files {runs kept : List (List Sample)} {dropped : List Sample}
    {sample : Sample} (files : series.store.Files runs) (filesAfter : changed.store.Files kept)
    (continues : series.Continues changed)
    (placed : put runs.flatten sample = dropped ++ kept.flatten)
    (old : ∀ other ∈ dropped, other.timestamp < keptFrom series.retention sample.timestamp)
    (last : kept.flatten.getLast? = some sample) : series.Counted changed sample
      (if valueAt? runs.flatten sample.timestamp = none then 1 else 0) where
  continues := continues
  last := (Store.last_sample_eq filesAfter).trans last
  samples := by
    refine ⟨runs.flatten, dropped, kept.flatten, Store.contents_eq files,
      Store.contents_eq filesAfter, filesAfter.increasing, placed, old, ?_⟩
    rw [Store.count_eq files, Store.count_eq filesAfter, ← length_put files.increasing, placed,
      List.length_append, Nat.add_comm]

/-- Behind the last sample one more is appended. -/
theorem counted_behind (filed : series.Filed) (timestamp : Timestamp) (value : Value)
    (newer : series.store.isEmpty = true ∨ series.store.lastTimestamp < timestamp) :
    ∃ changed written, series.add timestamp value (some .last) = .ok (changed, written) ∧
      written.timestamp = timestamp ∧ series.Counted changed ⟨timestamp, value⟩ 1 := by
  obtain ⟨runs, files⟩ := filed
  have follows := append_shown files timestamp value (some .last) newer
  cases accepted : series.add timestamp value (some .last) with
  | error refused =>
      rw [accepted] at follows
      exact nomatch follows
  | ok result =>
      obtain ⟨changed, written⟩ := result
      have continues := continues_add accepted
      rcases add_outcome accepted with ⟨within, _⟩ | ⟨_, store, trimmed, appended, rfl, rfl⟩
      · exact absurd newer within
      obtain ⟨after, _, count, kept, done, filesAfter, _, shown, old⟩ :=
        Store.append_dropped files timestamp value newer
      obtain ⟨rfl, _⟩ := Prod.mk.inj (Except.ok.inj (appended.symm.trans done))
      have below : ∀ other ∈ runs.flatten,
          other.timestamp < (Sample.mk timestamp value).timestamp := by
        intro other member
        rcases newer with empty | behind
        · rw [(Store.is_empty_eq files).mp empty] at member
          exact nomatch member
        · exact UInt64.lt_of_le_of_lt (Store.le_last_timestamp files member) behind
      obtain ⟨ended, free⟩ := put_behind below
      have placed : put runs.flatten ⟨timestamp, value⟩ =
          (runs.take count).flatten ++ kept.flatten := by
        rw [ended, shown, ← List.append_assoc, ← List.flatten_append, List.take_append_drop]
      have counted := counted_of_files files filesAfter continues placed old
        (by rw [shown, List.getLast?_concat])
      rw [if_pos free] at counted
      exact ⟨_, _, rfl, rfl, counted⟩

theorem counted_again (filed : series.Filed) {newest : Sample}
    (last : series.lastSample = some newest) (value : Value) :
    ∃ changed written, series.add newest.timestamp value (some .last) = .ok (changed, written) ∧
      written.timestamp = newest.timestamp ∧
      series.Counted changed ⟨newest.timestamp, value⟩ 0 := by
  obtain ⟨runs, files⟩ := filed
  have held := (Store.last_sample_eq files).symm.trans last
  obtain ⟨stocked, ends⟩ := filled_of_last last
  have filled : runs ≠ [] := by
    rintro rfl
    exact absurd held (by simp)
  have reached := UInt64.le_of_eq ends.symm
  have unlocked : ¬ Store.Locked series.store newest.timestamp :=
    fun locked => UInt64.ne_of_lt locked.2.2 ends.symm
  have outcome := Store.upsert_files files filled ⟨newest.timestamp, value⟩ reached unlocked .last
  rw [write_last] at outcome
  obtain ⟨store, kept, upserted, filesAfter, shown, _⟩ := outcome
  have recent : ¬ series.isTooOld newest.timestamp = true := by
    rw [is_too_old_iff, ends]
    exact fun old => UInt64.not_lt.mpr (kept_from_le_newest _ _) old.2
  have within : (!series.store.isEmpty && decide (newest.timestamp ≤ series.store.lastTimestamp)) =
      true := by simp [stocked, reached]
  have accepted : ∃ kind, series.add newest.timestamp value (some .last) =
      .ok ({ series with store := store }, ⟨newest.timestamp, kind, .nothing, []⟩) := by
    rw [Series.add, if_neg recent, if_pos within, Option.getD_some]
    dsimp only at upserted ⊢
    rw [upserted]
    exact ⟨_, rfl⟩
  obtain ⟨kind, accepted⟩ := accepted
  have taken : valueAt? runs.flatten newest.timestamp ≠ none := by
    simp only [valueAt?, ne_eq, Option.map_eq_none_iff, List.find?_eq_none, not_forall]
    exact ⟨newest, List.mem_of_getLast? held, by simp⟩
  have whole : put runs.flatten ⟨newest.timestamp, value⟩ = [] ++ kept.flatten := shown.symm
  have ordered : ∀ other ∈ runs.flatten, other.timestamp ≤ newest.timestamp :=
    fun _ member => le_last_of_increasing files.increasing held member
  have atEnd : kept.flatten.getLast? = some ⟨newest.timestamp, value⟩ := by
    rw [shown]
    exact getLast?_put_end ordered
  have counted := counted_of_files files filesAfter (continues_add accepted) whole
    (fun _ member => absurd member List.not_mem_nil) atEnd
  rw [if_neg taken] at counted
  exact ⟨_, _, accepted, rfl, counted⟩

end Series

/-- Deliveries that are not behind the last sample of a series leave it as it is. -/
theorem Session.get?_behind {session : Session} {key source : String} {series : Series}
    {newest : Sample} (present : session.engine.series.get? key = some series)
    (last : series.lastSample = some newest) {flushes : List Flush}
    (behind : ∀ flush ∈ flushes, flush.timestamp ≤ newest.timestamp) :
    (flushes.foldl (delivery source) session).engine.series.get? key = some series := by
  rw [get?_deliveries, present, Option.map_some]
  congr 1
  apply List.foldlRecOn (motive := fun kept => kept = series) _ _ rfl
  rintro _ rfl flush member
  exact Series.fed_by_behind last (behind flush (List.mem_filter.mp member).1)

/-- That an action counts a sample into the series of a key: it succeeds, and afterwards that is
what has become of the series. -/
def Session.Counts (session : Session) (action : Action Timestamp) (key : String) (old : Series)
    (sample : Sample) (grown : Nat) : Prop :=
  ∃ after new, action.perform session = (.ok sample.timestamp, after) ∧
    after.engine.series.get? key = some new ∧ old.Counted new sample grown

namespace Action

variable {session : Session} {key : String} {old : Series}
  (present : session.engine.series.get? key = some old)

include present

theorem refused_ensured {change : Series → Except Error (Series × Written)} {refused : Error}
    (rejected : change old = .error refused) (options : SeriesOptions) :
    ∃ after, (ensure key options >>= fun _ => write key change).perform session =
      (.error refused, after) := by
  rw [perform_bind_ok (ensure_present present options)]
  rcases write_outcome key change session with ⟨absent, _⟩ | ⟨one, there, outcome⟩
  · exact nomatch absent.symm.trans present
  obtain rfl := Option.some.inj (there.symm.trans present)
  rcases outcome with ⟨other, failed, done⟩ | ⟨_, _, accepted, _⟩
  · obtain rfl := Except.error.inj (failed.symm.trans rejected)
    exact ⟨_, done⟩
  · exact nomatch accepted.symm.trans rejected

theorem counts_of_added {change : Series → Except Error (Series × Written)} {new : Series}
    {written : Written} {sample : Sample} {grown : Nat} (counted : old.Counted new sample grown)
    (added : old.add sample.timestamp sample.value (some .last) = .ok (new, written))
    (stamped : written.timestamp = sample.timestamp)
    (same : change old = old.add sample.timestamp sample.value (some .last))
    (options : SeriesOptions) :
    session.Counts (ensure key options >>= fun _ => write key change) key old sample grown := by
  rcases write_outcome key change session with ⟨absent, _⟩ | ⟨one, there, outcome⟩
  · exact nomatch absent.symm.trans present
  obtain rfl := Option.some.inj (there.symm.trans present)
  rcases outcome with ⟨_, rejected, _⟩ | ⟨kept, told, accepted, done⟩
  · exact nomatch rejected.symm.trans (same.trans added)
  obtain ⟨rfl, rfl⟩ := Prod.mk.inj (Except.ok.inj (accepted.symm.trans (same.trans added)))
  rw [stamped] at done
  refine ⟨_, kept, (perform_bind_ok (ensure_present present options)).trans done, ?_, counted⟩
  have stored : (session.stored key kept told).engine.series.get? key = some kept :=
    (SortedMap.get?_insert _ _ _ _).trans (if_pos rfl)
  -- A bucket that the sample closed would be refused here, even if a rule led to its own series.
  apply Session.get?_behind stored counted.last
  intro flush member
  exact UInt64.le_of_lt (Series.flush_before added member)

theorem counts_from_last (filed : old.Filed) {last : Sample} (held : old.lastSample = some last)
    {timestamp : Timestamp} (reached : last.timestamp ≤ timestamp) (change : Value)
    (options : SeriesOptions) :
    session.Counts (increase key change timestamp options) key old
      ⟨timestamp, Arithmetic.add last.value change⟩
      (if last.timestamp < timestamp then 1 else 0) := by
  have steps : step timestamp change old =
      old.add timestamp (Arithmetic.add last.value change) (some .last) := by
    simp only [step, held, if_neg (UInt64.not_lt.mpr reached)]
  rcases UInt64.lt_or_eq_of_le reached with behind | same
  · have newer : old.store.lastTimestamp < timestamp := by
      rw [(Series.filled_of_last held).2]
      exact behind
    obtain ⟨new, written, added, stamped, counted⟩ := Series.counted_behind filed timestamp
      (Arithmetic.add last.value change) (Or.inr newer)
    rw [if_pos behind]
    exact counts_of_added present counted added stamped steps options
  · subst same
    obtain ⟨new, written, added, stamped, counted⟩ := Series.counted_again filed held
      (Arithmetic.add last.value change)
    rw [if_neg (UInt64.lt_irrefl _)]
    exact counts_of_added present counted added stamped steps options

end Action

namespace Session

open Chronicle.Action

/-- Counting in a series that there can be, whatever its settings and whatever it feeds: the first
count starts from zero, a later one from the last value, and it is refused exactly if it is before
the last timestamp. -/
theorem counting_exact {session : Session} (attained : session.Attained) {key : String}
    {old : Series} (present : session.engine.series.get? key = some old) (change : Value)
    (timestamp : Timestamp) (options : SeriesOptions) :
    (old.lastSample = none → session.Counts (increase key change timestamp options) key old
        ⟨timestamp, Arithmetic.add Binary64.zero change⟩ 1) ∧
      (∀ last, old.lastSample = some last →
        (∀ refused, ((increase key change timestamp options).perform session).1 = .error refused ↔
          timestamp < last.timestamp ∧
            refused = .timestampNotIncreasing timestamp last.timestamp) ∧
        (last.timestamp ≤ timestamp →
          session.Counts (increase key change timestamp options) key old
            ⟨timestamp, Arithmetic.add last.value change⟩
            (if last.timestamp < timestamp then 1 else 0))) ∧
      decrease key change timestamp options = increase key change.neg timestamp options := by
  have filed := ((genuine_attained attained).attainable key old present).filed
  refine ⟨?_, ?_, rfl⟩
  · intro none
    have empty := Series.empty_of_last none
    obtain ⟨new, written, added, stamped, counted⟩ := Series.counted_behind filed timestamp
      (Arithmetic.add Binary64.zero change) (Or.inl empty)
    have steps := step_empty empty timestamp change
    exact counts_of_added present counted added stamped steps options
  · intro last held
    refine ⟨?_, fun reached => counts_from_last present filed held reached change options⟩
    intro refused
    by_cases early : timestamp < last.timestamp
    · have rejected : Action.step timestamp change old =
          .error (.timestampNotIncreasing timestamp last.timestamp) := by
        simp only [Action.step, held, if_pos early]
      obtain ⟨after, failed⟩ := refused_ensured present rejected options
      rw [increase, failed]
      simp [early, eq_comm]
    · obtain ⟨after, new, done, _⟩ :=
        counts_from_last present filed held (UInt64.not_lt.mp early) change options
      rw [done]
      simp [early]

/-- A series that takes no second sample at a timestamp and whose chunks are never rebuilt, with
a rule that has a bucket open. -/
def tallied : List Operation :=
  [.request (.create "a" { SeriesOptions.none with
      retention := some 20, encoding := some .compressed, duplicatePolicy := some .block }),
    .request (.create "b" .none), .request (.createRule "a" "b" .sum 10),
    .request (.add "a" 15 ⟨1⟩ none), .request (.add "a" 40 ⟨2⟩ none)]

theorem counting_exact_tallied :
    ((fresh .default ∅).run tallied).Attained ∧ ∃ old,
      ((fresh .default ∅).run tallied).engine.series.get? "a" = some old ∧
      old.lastSample = some ⟨40, ⟨2⟩⟩ ∧ ∀ change,
        ((fresh .default ∅).run tallied).Counts (Action.increase "a" change 40 .none) "a" old
            ⟨40, Arithmetic.add ⟨2⟩ change⟩ 0 ∧
          ((fresh .default ∅).run tallied).Counts (Action.increase "a" change 60 .none) "a" old
            ⟨60, Arithmetic.add ⟨2⟩ change⟩ 1 ∧
          ((Action.increase "a" change 39 .none).perform ((fresh .default ∅).run tallied)).1 =
            .error (.timestampNotIncreasing 39 40) := by
  have attained : ((fresh .default ∅).run tallied).Attained :=
    ⟨.default, ∅, tallied, SortedMap.every_empty,
      ⟨trivial, trivial, trivial, trivial, trivial, trivial⟩, rfl⟩
  have stored : (((fresh .default ∅).run tallied).engine.series.get? "a").map
      (·.lastSample) = some (some ⟨40, ⟨2⟩⟩) := by
    decide +kernel
  obtain ⟨old, present, held⟩ := Option.map_eq_some_iff.mp stored
  refine ⟨attained, old, present, held, ?_⟩
  intro change
  have counting (timestamp : Timestamp) :=
    (counting_exact attained present change timestamp .none).2.1 ⟨40, ⟨2⟩⟩ held
  exact ⟨(counting 40).2 (by decide), (counting 60).2 (by decide),
    ((counting 39).1 _).mpr ⟨by decide, rfl⟩⟩

end Session

end Chronicle

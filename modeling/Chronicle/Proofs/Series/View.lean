import Chronicle.Proofs.Store.Window
import Chronicle.Query.Range

/-!
Series as those who read and write them see them. Which samples a series still shows depends
on its newest one and on its retention alone; chunks, their encoding and what is left in them
of older samples play no part. All that a series answers follows from its view, and a write
takes a view to a view.
-/

namespace Chronicle

/-- What the caller of a write is told, apart from how much retention dropped. -/
structure Receipt where
  timestamp : Timestamp
  kind : WriteKind
  flushes : List Flush
deriving DecidableEq

def Written.receipt (written : Written) : Receipt :=
  ⟨written.timestamp, written.kind, written.flushes⟩

structure View where
  /-- The samples that a read of everything yields. -/
  samples : List Sample
  retention : Duration
  policy : DuplicatePolicy
  rules : List Rule
  /-- Whether samples before the newest can be written. -/
  rewrites : Bool

namespace View

def append (view : View) (sample : Sample) : View × Receipt :=
  ({ view with
      samples := Timeline.since (keptFrom view.retention sample.timestamp)
        (view.samples ++ [sample])
      rules := view.rules.map fun rule => (rule.take sample).1 },
    ⟨sample.timestamp, .appended, view.rules.filterMap fun rule => (rule.take sample).2⟩)

def add (view : View) (timestamp : Timestamp) (value : Value)
    (override : Option DuplicatePolicy) : Except Error (View × Receipt) :=
  match view.samples.getLast? with
  | none => .ok (view.append ⟨timestamp, value⟩)
  | some newest =>
      if timestamp < keptFrom view.retention newest.timestamp then
        .error (.outOfRetention timestamp newest.timestamp view.retention)
      else if newest.timestamp < timestamp then .ok (view.append ⟨timestamp, value⟩)
      else if timestamp < newest.timestamp ∧ view.rewrites = false then
        .error (.upsertUnsupported .compressed)
      else
        (Timeline.write view.samples ⟨timestamp, value⟩ (override.getD view.policy)).map
          fun (samples, inserted) => ({ view with samples := samples },
            ⟨timestamp, if inserted then .inserted else .merged, []⟩)

section Add

variable {view : View} {newest : Sample} {timestamp : Timestamp}

theorem add_empty (none : view.samples.getLast? = .none) (timestamp : Timestamp) (value : Value)
    (override : Option DuplicatePolicy) :
    view.add timestamp value override = .ok (view.append ⟨timestamp, value⟩) := by
  rw [add, none]

theorem add_old (last : view.samples.getLast? = some newest)
    (early : timestamp < keptFrom view.retention newest.timestamp) (value : Value)
    (override : Option DuplicatePolicy) :
    view.add timestamp value override =
      .error (.outOfRetention timestamp newest.timestamp view.retention) := by
  simp only [add, last, if_pos early]

theorem add_newer (last : view.samples.getLast? = some newest)
    (behind : newest.timestamp < timestamp) (value : Value) (override : Option DuplicatePolicy) :
    view.add timestamp value override = .ok (view.append ⟨timestamp, value⟩) := by
  have recent : ¬ timestamp < keptFrom view.retention newest.timestamp := by
    intro early
    have less := UInt64.lt_of_lt_of_le early (kept_from_le_newest _ _)
    exact UInt64.lt_asymm behind less
  simp only [add, last, if_neg recent, if_pos behind]

theorem add_within (last : view.samples.getLast? = some newest)
    (inside : keptFrom view.retention newest.timestamp ≤ timestamp)
    (reached : timestamp ≤ newest.timestamp) (value : Value)
    (override : Option DuplicatePolicy) :
    view.add timestamp value override =
      if timestamp < newest.timestamp ∧ view.rewrites = false then
        .error (.upsertUnsupported .compressed)
      else
        (Timeline.write view.samples ⟨timestamp, value⟩ (override.getD view.policy)).map
          fun (samples, inserted) => ({ view with samples := samples },
            ⟨timestamp, if inserted then .inserted else .merged, []⟩) := by
  simp only [add, last, if_neg (UInt64.not_lt.mpr inside), if_neg (UInt64.not_lt.mpr reached)]

end Add

def range (view : View) (request : RangeRequest) : Except Error (List Sample) := do
  request.check
  let raw : Feed := (request.span.choose view.samples).map .ok
  let feed := match request.aggregation with
    | some (kind, width) => raw.aggregate kind width request.reverse
    | none => raw
  (feed.upTo request.limit).collect

theorem range_everything (view : View) : view.range .everything = .ok view.samples := by
  have whole : RangeRequest.everything.span.choose view.samples = view.samples :=
    Span.choose_always view.samples
  calc view.range .everything
      = Feed.collect ((RangeRequest.everything.span.choose view.samples).map .ok) := rfl
    _ = .ok view.samples := by rw [Feed.collect_ok, whole]

end View

namespace Series

variable {series : Series} {view : View}

def viewOf (series : Series) (samples : List Sample) : View where
  samples := series.store.window samples
  retention := series.retention
  policy := series.duplicatePolicy
  rules := series.rules
  rewrites := series.store.config.encoding = .uncompressed || series.store.config.compressedUpsert

/-- That a view is what there is to be seen of a series. -/
def Shows (series : Series) (view : View) : Prop :=
  ∃ runs, series.store.Files runs ∧ view = series.viewOf runs.flatten

theorem Filed.shows (filed : series.Filed) : ∃ view, series.Shows view := by
  obtain ⟨runs, files⟩ := filed
  exact ⟨_, runs, files, rfl⟩

theorem range_shown (shows : series.Shows view) (request : RangeRequest) :
    series.range request = view.range request := by
  obtain ⟨runs, files, rfl⟩ := shows
  rw [Series.range, View.range, Store.range_window files]
  rfl

theorem last_shown (shows : series.Shows view) : series.lastSample = view.samples.getLast? := by
  obtain ⟨runs, files, rfl⟩ := shows
  rw [lastSample, Store.last_sample_eq files, viewOf, Store.last_window files]

/-- That a write to a series came to what it comes to in its view. -/
inductive Follows : Except Error (Series × Written) → Except Error (View × Receipt) → Prop where
  | refused (reason : Error) : Follows (.error reason) (.error reason)
  | taken {changed : Series} {after : View} (written : Written) (shows : changed.Shows after) :
      Follows (.ok (changed, written)) (.ok (after, written.receipt))

section Follows

variable {outcome : Except Error (Series × Written)} {expected : Except Error (View × Receipt)}

theorem Follows.refuses (follows : Follows outcome expected) (reason : Error) :
    outcome = .error reason ↔ expected = .error reason := by
  cases follows with
  | refused => simp
  | taken => exact iff_of_false (fun same => nomatch same) (fun same => nomatch same)

theorem Follows.answers (follows : Follows outcome expected) :
    (outcome.map fun (_, written) => written.receipt) =
      expected.map fun (_, receipt) => receipt := by
  cases follows <;> rfl

end Follows

theorem is_too_old_iff (series : Series) (timestamp : Timestamp) :
    series.isTooOld timestamp = true ↔ series.store.isEmpty = false ∧
      timestamp < keptFrom series.retention series.store.lastTimestamp := by
  rw [before_kept_iff, isTooOld]
  simp [and_assoc]

section Files

variable {runs : List (List Sample)} (files : series.store.Files runs)

include files

theorem append_shown (timestamp : Timestamp) (value : Value) (override : Option DuplicatePolicy)
    (newer : series.store.isEmpty = true ∨ series.store.lastTimestamp < timestamp) :
    Follows (series.add timestamp value override)
      (.ok ((series.viewOf runs.flatten).append ⟨timestamp, value⟩)) := by
  obtain ⟨after, trimmed, kept, appended, filesAfter, config, shown⟩ :=
    Store.append_window files timestamp value newer
  have recent : ¬ series.isTooOld timestamp = true := by
    rw [is_too_old_iff]
    rintro ⟨filled, early⟩
    rcases newer with empty | behind
    · exact Bool.false_ne_true (filled.symm.trans empty)
    · exact UInt64.lt_asymm behind (UInt64.lt_of_lt_of_le early (kept_from_le_newest _ _))
  have accepted : ¬ (!series.store.isEmpty && decide (timestamp ≤ series.store.lastTimestamp)) =
      true := by
    rcases newer with empty | behind
    · simp [empty]
    · simp [UInt64.not_le.mpr behind]
  rw [Series.add, if_neg recent, if_neg accepted, appended, View.append]
  have told : (series.rules.map fun rule => rule.take ⟨timestamp, value⟩).filterMap (·.2) =
      series.rules.filterMap fun rule => (rule.take ⟨timestamp, value⟩).2 := by
    rw [List.filterMap_map]
    rfl
  dsimp only [viewOf]
  rw [← told]
  apply Follows.taken ⟨timestamp, .appended, trimmed, _⟩
  refine ⟨kept, filesAfter, ?_⟩
  simp only [viewOf, retention, shown, config, List.map_map]
  rfl

/-- A write at or before the newest sample puts a sample in its place, unless what is stored
cannot be rewritten. -/
theorem upsert_shown (filled : runs ≠ []) (timestamp : Timestamp) (value : Value)
    (override : Option DuplicatePolicy) (reached : timestamp ≤ series.store.lastTimestamp)
    (inside : keptFrom series.retention series.store.lastTimestamp ≤ timestamp) :
    Follows (series.add timestamp value override)
      (if timestamp < series.store.lastTimestamp ∧
          (series.viewOf runs.flatten).rewrites = false then .error (.upsertUnsupported .compressed)
        else (Timeline.write (series.store.window runs.flatten) ⟨timestamp, value⟩
          (override.getD series.duplicatePolicy)).map fun (samples, inserted) =>
            ({ series.viewOf runs.flatten with samples := samples },
              ⟨timestamp, if inserted then .inserted else .merged, []⟩)) := by
  have recent : ¬ series.isTooOld timestamp = true := by
    rw [is_too_old_iff]
    exact fun old => UInt64.not_lt.mpr inside old.2
  have within : (!series.store.isEmpty && decide (timestamp ≤ series.store.lastTimestamp)) =
      true := by
    have some : series.store.isEmpty ≠ true := fun none =>
      filled ((Store.is_empty_eq files).mp none)
    simp [some, reached]
  rw [Series.add, if_neg recent, if_pos within]
  have locked : series.store.Locked timestamp ↔ timestamp < series.store.lastTimestamp ∧
      (series.viewOf runs.flatten).rewrites = false := by
    unfold Store.Locked viewOf
    cases series.store.config.encoding <;> simp [and_comm]
  split
  · rename_i shut
    have refused := Store.upsert_locked files filled ⟨timestamp, value⟩ reached
      (locked.mpr shut) (override.getD series.duplicatePolicy)
    dsimp only at refused ⊢
    rw [refused]
    exact .refused _
  · rename_i opened
    have outcome := Store.upsert_window files filled ⟨timestamp, value⟩ reached inside
      (fun shut => opened (locked.mp shut)) (override.getD series.duplicatePolicy)
    cases written : Timeline.write (series.store.window runs.flatten) ⟨timestamp, value⟩
        (override.getD series.duplicatePolicy) with
    | error refused =>
        rw [written] at outcome
        dsimp only at outcome ⊢
        rw [outcome]
        exact .refused _
    | ok result =>
        obtain ⟨changed, inserted⟩ := result
        rw [written] at outcome
        obtain ⟨after, kept, upserted, filesAfter, config, shown⟩ := outcome
        dsimp only at upserted ⊢
        rw [upserted]
        apply Follows.taken ⟨timestamp, if inserted then .inserted else .merged, .nothing, []⟩
        refine ⟨kept, filesAfter, ?_⟩
        simp only [viewOf, retention, shown, config]

end Files

/-- A write does to a series what it does to its view. -/
theorem add_shown (shows : series.Shows view) (timestamp : Timestamp) (value : Value)
    (override : Option DuplicatePolicy) :
    Follows (series.add timestamp value override) (view.add timestamp value override) := by
  obtain ⟨runs, files, rfl⟩ := shows
  have last : (series.viewOf runs.flatten).samples.getLast? = series.store.lastSample := by
    rw [Store.last_sample_eq files, viewOf, Store.last_window files]
  cases empty : series.store.isEmpty with
  | true =>
      rw [Store.lastSample, if_pos empty] at last
      rw [View.add_empty last]
      exact append_shown files timestamp value override (Or.inl empty)
  | false =>
      rw [Store.lastSample, empty, if_neg Bool.false_ne_true] at last
      have filled : runs ≠ [] := by
        intro none
        rw [(Store.is_empty_eq files).mpr none] at empty
        exact nomatch empty
      by_cases early : timestamp < keptFrom series.retention series.store.lastTimestamp
      · have old := (is_too_old_iff series timestamp).mpr ⟨empty, early⟩
        rw [View.add_old last early, Series.add, if_pos old]
        exact .refused _
      by_cases behind : series.store.lastTimestamp < timestamp
      · rw [View.add_newer last behind]
        exact append_shown files timestamp value override (Or.inr behind)
      · have inside := UInt64.not_lt.mp early
        have reached := UInt64.not_lt.mp behind
        rw [View.add_within last inside reached]
        exact upsert_shown files filled timestamp value override reached inside

end Series

end Chronicle

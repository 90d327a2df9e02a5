import Chronicle.Proofs.Compaction.Series
import Chronicle.Proofs.Engine.Retention
import Chronicle.Proofs.Series.Count

/-!
The samples that a series reports to have. It counts what its chunks hold, and chunks are
dropped as wholes, while reads draw the line of retention between samples. What is counted
without being readable are the oldest samples; the report itself tells whether there are any,
and after an append all of them are in the oldest chunk.
-/

namespace Chronicle

open Timeline

namespace Store

variable {store after : Store} {runs kept : List (List Sample)}

theorem first_timestamp_eq (files : Files store runs) :
    store.firstTimestamp = runs.flatten.head?.map (·.timestamp) := by
  rw [firstTimestamp, ← SortedMap.head?_entries, files.entries]
  cases runs with
  | nil => rfl
  | cons run later =>
      cases run with
      | nil => exact absurd rfl (files.nonempty [] List.mem_cons_self)
      | cons first rest =>
          exact congrArg some (Chunk.first_timestamp_run store.config.encoding first rest)

/-- Of the chunks that are not dropped the oldest has not ended, or else it is the newest. -/
theorem expired_stops (earliest : Timestamp) (entries : List (Timestamp × Chunk))
    {oldest : Timestamp × Chunk} {later : List (Timestamp × Chunk)}
    (left : entries.drop (expired earliest entries).length = oldest :: later) :
    earliest ≤ oldest.2.lastTimestamp ∨ later = [] := by
  fun_induction expired earliest entries with
  | case1 key chunk next rest ended ih => exact ih left
  | case2 key chunk next rest going =>
      obtain ⟨rfl, rfl⟩ := List.cons.inj left
      exact Or.inl (UInt64.not_lt.mp going)
  | case3 entries short =>
      -- There are no two chunks, so none is left but the newest.
      rw [List.length_nil, List.drop_zero] at left
      cases later with
      | nil => exact Or.inr rfl
      | cons next rest => exact absurd left (short oldest.1 oldest.2 next rest)

theorem trim_stops (store : Store) (now : Timestamp) {oldest : Timestamp × Chunk}
    {later : List (Timestamp × Chunk)}
    (left : (store.trim now).1.chunks.entries = oldest :: later) :
    keptFrom store.config.retention now ≤ oldest.2.lastTimestamp ∨ later = [] := by
  by_cases unlimited : store.config.retention = 0
  · rw [keptFrom, if_pos unlimited]
    exact Or.inl (UInt64.le_iff_toNat_le.mpr (Nat.zero_le _))
  rw [keptFrom, if_neg unlimited]
  unfold trim at left
  dsimp only at left
  split at left
  · rename_i held
    have first : store.chunks.first? = some oldest := by
      rw [← SortedMap.head?_entries, left, List.head?_cons]
    have going : ¬ oldest.2.lastTimestamp < windowStart now store.config.retention := by
      simpa [unlimited, oldestEnded, first] using held
    exact Or.inl (UInt64.not_lt.mp going)
  · rw [SortedMap.entries_drop] at left
    exact expired_stops _ _ left

theorem append_stops {timestamp : Timestamp} {value : Value} {trimmed : Trimmed}
    (appended : store.append timestamp value = .ok (after, trimmed))
    {oldest : Timestamp × Chunk} {later : List (Timestamp × Chunk)}
    (left : after.chunks.entries = oldest :: later) :
    keptFrom after.config.retention timestamp ≤ oldest.2.lastTimestamp ∨ later = [] := by
  rw [config_append appended]
  unfold append at appended
  split at appended
  · exact nomatch appended
  · obtain rfl : Prod.fst _ = after := congrArg Prod.fst (Except.ok.inj appended)
    have stops := trim_stops _ timestamp left
    exact stops

/-- Samples from before a moment, at the front of all, end within a run that ends after it. -/
theorem old_within {run rest old recent : List Sample} (parts : run ++ rest = old ++ recent)
    {moment : Timestamp} (early : ∀ sample ∈ old, sample.timestamp < moment) {last : Sample}
    (ends : run.getLast? = some last) (stays : moment ≤ last.timestamp) :
    old.length < run.length := by
  by_contra long
  have front : run <+: old :=
    List.prefix_of_prefix_length_le (List.prefix_append run rest)
      (parts ▸ List.prefix_append old recent) (Nat.not_lt.mp long)
  have before := early last (front.subset (List.mem_of_getLast? ends))
  exact UInt64.not_lt.mpr stays before

/-- What an append leaves of samples before the window is within the oldest chunk. -/
theorem old_after_append (files : Files store runs) {timestamp : Timestamp} {value : Value}
    {trimmed : Trimmed} (appended : store.append timestamp value = .ok (after, trimmed))
    (filesAfter : Files after kept) {old recent : List Sample}
    (parts : kept.flatten = old ++ recent) (early : ∀ sample ∈ old,
      sample.timestamp < keptFrom after.config.retention after.lastTimestamp) :
    ∃ oldest, after.chunks.first? = some oldest ∧ old.length < oldest.2.count := by
  have newest := (last_sample_eq filesAfter).symm.trans (last_sample_append files appended)
  have ended : timestamp = after.lastTimestamp :=
    congrArg Sample.timestamp (filesAfter.last _ newest)
  rw [← ended] at early
  cases kept with
  | nil => exact nomatch newest
  | cons run later =>
      have nonempty := filesAfter.nonempty run List.mem_cons_self
      have last := Chunk.last_sample_run after.config.encoding nonempty
      have entries := filesAfter.entries
      rw [List.map_cons] at entries
      refine ⟨_, by rw [← SortedMap.head?_entries, entries, List.head?_cons], ?_⟩
      rw [filed, Chunk.count_run _ nonempty]
      refine old_within parts early last ?_
      rcases append_stops appended entries with inside | alone
      · exact inside
      · -- The newest chunk ends with the sample that was appended.
        obtain rfl := List.map_eq_nil_iff.mp alone
        rw [List.flatten_singleton, last] at newest
        rw [Option.some.inj newest]
        exact kept_from_le_newest _ _

end Store

/-- That the first timestamp of a report is within retention of the last one. -/
def SeriesInfo.Recent (info : SeriesInfo) : Prop :=
  ∀ first ∈ info.firstTimestamp, ∀ last ∈ info.lastTimestamp,
    keptFrom info.retention last ≤ first

namespace Series

variable {series : Series}

/-- That these samples are what a series holds: those that retention hides, before its window,
and after them those that a read yields. All of them are counted. -/
structure Tallies (series : Series) (hidden visible : List Sample) : Prop where
  read : series.range .everything = .ok visible
  stored : series.store.contents = .ok (hidden ++ visible)
  old : ∀ sample ∈ hidden,
    sample.timestamp < keptFrom series.retention series.store.lastTimestamp
  recent : ∀ sample ∈ visible,
    keptFrom series.retention series.store.lastTimestamp ≤ sample.timestamp
  counted : ∀ withChunks,
    (series.info withChunks).totalSamples = hidden.length + visible.length

theorem tallies_of_files {runs : List (List Sample)} (files : series.store.Files runs) :
    ∃ hidden visible, runs.flatten = hidden ++ visible ∧ series.Tallies hidden visible := by
  obtain ⟨hidden, parts, old⟩ := exists_before_since files.increasing
    (keptFrom series.retention series.store.lastTimestamp)
  have shows : series.Shows (series.viewOf runs.flatten) := ⟨runs, files, rfl⟩
  refine ⟨hidden, series.store.window runs.flatten, parts, ?_, ?_, old, ?_, fun _ => ?_⟩
  · rw [range_shown shows, View.range_everything]
    rfl
  · rw [Store.contents_eq files]
    exact congrArg Except.ok parts
  · exact fun sample member => (mem_since.mp member).2
  · have counted := Store.count_eq files
    rw [parts, List.length_append] at counted
    exact counted

theorem last_moment {last : Timestamp}
    (ends : last ∈ series.lastSample.map (·.timestamp)) : last = series.store.lastTimestamp := by
  unfold lastSample Store.lastSample at ends
  split at ends
  · exact nomatch ends
  · exact (Option.some.inj ends).symm

/-- Nothing is hidden exactly if the first timestamp is within the window. -/
theorem Tallies.nothing_hidden_iff {runs : List (List Sample)} (files : series.store.Files runs)
    {hidden visible : List Sample} (tallies : series.Tallies hidden visible)
    (parts : runs.flatten = hidden ++ visible) (withChunks : Bool) :
    hidden = [] ↔ (series.info withChunks).Recent := by
  have begins : (series.info withChunks).firstTimestamp =
      (hidden ++ visible).head?.map (·.timestamp) := by
    rw [← parts]
    exact Store.first_timestamp_eq files
  rw [SeriesInfo.Recent, begins]
  constructor
  · rintro rfl first given last ends
    obtain ⟨sample, among, rfl⟩ := Option.map_eq_some_iff.mp given
    rw [last_moment ends]
    exact tallies.recent sample (List.mem_of_head? among)
  · intro recent
    cases hidden with
    | nil => rfl
    | cons first later =>
        have held := Store.last_sample_eq files
        rw [parts, List.cons_append, List.getLast?_cons] at held
        have ends := Option.mem_map_of_mem Sample.timestamp held
        have inside := recent first.timestamp rfl _ ends
        rw [last_moment ends] at inside
        exact absurd (tallies.old first List.mem_cons_self) (UInt64.not_lt.mpr inside)

/-- How far the total that a series reports is right about what can be read. -/
structure Totals (series : Series) (hidden visible : List Sample) : Prop
    extends Tallies series hidden visible where
  right : ∀ withChunks,
    (series.info withChunks).totalSamples = visible.length ↔ (series.info withChunks).Recent
  appended : ∀ timestamp value override changed written,
    series.add timestamp value override = .ok (changed, written) → written.kind = .appended →
      ∃ hiddenAfter visibleAfter oldest, changed.Tallies hiddenAfter visibleAfter ∧
        changed.store.chunks.first? = some oldest ∧ hiddenAfter.length < oldest.2.count

/-- In every series that there can be, whatever its encoding, its chunks and its earlier
retentions, the total that is reported is of all samples that are stored: those that a read
yields and, before them, those that retention hides. So it is right about what can be read
exactly if its first timestamp is within the window, and what an append leaves hidden is less than
what the oldest chunk holds. -/
theorem total_samples_exact (attainable : series.Attainable) :
    ∃ hidden visible, series.Totals hidden visible := by
  obtain ⟨runs, files⟩ := attainable.filed
  obtain ⟨hidden, visible, parts, tallies⟩ := tallies_of_files files
  refine ⟨hidden, visible, tallies, fun withChunks => ?_, ?_⟩
  · rw [tallies.counted withChunks, ← tallies.nothing_hidden_iff files parts withChunks,
      ← List.length_eq_zero_iff]
    omega
  · intro timestamp value override changed written accepted appended
    rcases add_outcome accepted with ⟨_, _, inserted, _, _, rfl⟩ |
      ⟨_, store, trimmed, done, rfl, _⟩
    · cases inserted <;> exact nomatch appended
    obtain ⟨kept, filesAfter⟩ := (attainable.added accepted).filed
    obtain ⟨old, recent, partsAfter, talliesAfter⟩ := tallies_of_files filesAfter
    obtain ⟨oldest, first, less⟩ :=
      Store.old_after_append files done filesAfter partsAfter talliesAfter.old
    exact ⟨old, recent, oldest, talliesAfter, first, less⟩

theorem read_zeros : (zeros 10 [10, 25]).range .everything = .ok [⟨25, .zero⟩] := rfl

theorem total_samples_exact_zeros :
    (zeros 10 [10, 25]).Attainable ∧
      ∃ hidden, (zeros 10 [10, 25]).Totals hidden [⟨25, .zero⟩] ∧ hidden.length = 1 := by
  obtain ⟨hidden, visible, totals⟩ := total_samples_exact zeros_attainable
  obtain rfl := Except.ok.inj (read_zeros.symm.trans totals.read)
  have counted : 2 = hidden.length + 1 := totals.counted false
  exact ⟨zeros_attainable, hidden, totals, by omega⟩

/-- A sample that no read yields any more may still be counted. -/
theorem hidden_sample_is_counted :
    ¬ ∀ series : Series, series.Attainable → ∀ visible, series.range .everything = .ok visible →
      (series.info false).totalSamples = visible.length := by
  intro right
  have total : (2 : Nat) = 1 := right (zeros 10 [10, 25]) zeros_attainable _ read_zeros
  exact absurd total (by decide)

end Series

end Chronicle

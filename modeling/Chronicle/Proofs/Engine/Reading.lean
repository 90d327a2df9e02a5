import Chronicle.Proofs.Engine.MultiRange
import Chronicle.Proofs.Store.Reader

/-!
Reads of a span. A store that changes have led to shows the samples of its retention window,
and a read yields those of them that are in its span, each once and in the order asked for. The
last sample of a series is the last one of a read of everything.
-/

namespace Chronicle

open Timeline

namespace Store

variable {store : Store} {runs : List (List Sample)}

/-- That a read of a span shows what is stored at a moment: not before the start of the span,
nor, where there is a retention, before the window that ends at the newest sample. -/
def Reaches (store : Store) (span : Span) (moment : Timestamp) : Prop :=
  max span.start.toNat (if store.config.retention = 0 then 0
    else store.lastTimestamp.toNat - store.config.retention.toNat) ≤ moment.toNat ∧
      moment.toNat ≤ span.stop.toNat

instance (store : Store) (span : Span) (moment : Timestamp) :
    Decidable (store.Reaches span moment) := inferInstanceAs (Decidable (_ ∧ _))

theorem kept_from_toNat (retention : Duration) (newest : Timestamp) :
    (keptFrom retention newest).toNat =
      if retention = 0 then 0 else newest.toNat - retention.toNat := by
  unfold keptFrom
  split
  · rfl
  · exact window_start_toNat newest retention

theorem reaches_iff (store : Store) (span : Span) (moment : Timestamp) :
    store.Reaches span moment ↔
      keptFrom store.config.retention store.lastTimestamp ≤ moment ∧
        span.covers moment = true := by
  unfold Reaches Span.covers
  rw [Bool.and_eq_true, decide_eq_true_eq, decide_eq_true_eq, UInt64.le_iff_toNat_le,
    UInt64.le_iff_toNat_le, UInt64.le_iff_toNat_le, kept_from_toNat, Nat.max_le]
  constructor
  · rintro ⟨⟨begun, kept⟩, ended⟩
    exact ⟨kept, begun, ended⟩
  · rintro ⟨kept, begun, ended⟩
    exact ⟨⟨begun, kept⟩, ended⟩

theorem choose_window (store : Store) (span : Span) (samples : List Sample) :
    span.choose (store.window samples) =
      span.order (samples.filter fun sample => store.Reaches span sample.timestamp) := by
  rw [Span.choose, Span.filter_order, window, since, List.filter_filter]
  congr 1
  apply List.filter_congr
  intro sample _
  rw [Bool.eq_iff_iff, decide_eq_true_eq, reaches_iff, Bool.and_eq_true, decide_eq_true_eq]
  exact and_comm

/-- That a read of a span, at once or sample by sample, yields what it should of some samples. -/
structure Reads (store : Store) (samples : List Sample) (span : Span) (read : List Sample) :
    Prop where
  bounded : ∀ low high, store.bounds span = some (low, high) → low ≤ high
  pulled : Pull.Yields Reader.pull (store.reader span) (read.map .ok)
  collected : (store.range span).collect = .ok read
  exact : read = span.order (samples.filter fun sample => store.Reaches span sample.timestamp)
  directed : if span.reverse then read.Pairwise fun newer older => older.timestamp < newer.timestamp
    else Increasing read

theorem reads_files (files : Files store runs) (span : Span) :
    store.Reads runs.flatten span (span.choose (store.window runs.flatten)) where
  bounded := fun _ _ => bounds_ordered
  pulled := by
    rw [← range_window files]
    exact reader_yields store span
  collected := by
    rw [range_window files]
    exact Feed.collect_ok _
  exact := choose_window store span runs.flatten
  directed := by
    rw [choose_window, Span.order]
    have increasing := files.increasing.sublist
      (List.filter_sublist (p := fun sample => store.Reaches span sample.timestamp))
    cases span.reverse with
    | false => exact increasing
    | true => exact List.pairwise_reverse.mpr increasing

/-- That every read of a store yields what it should of what is stored. -/
def ReadsExactly (store : Store) : Prop :=
  ∃ samples, store.contents = .ok samples ∧ ∀ span, ∃ read, store.Reads samples span read

theorem reads_exactly_files (files : Files store runs) : store.ReadsExactly :=
  ⟨runs.flatten, contents_eq files, fun span => ⟨_, reads_files files span⟩⟩

end Store

theorem Series.last_of_everything {series : Series} (filed : series.Filed)
    (stored : series.store.isEmpty = false) : ∃ earlier last,
      series.range .everything = .ok (earlier ++ [last]) ∧ series.lastSample = some last := by
  obtain ⟨view, shows⟩ := filed.shows
  have same := last_shown shows
  have held : series.lastSample = some ⟨series.store.lastTimestamp, series.store.lastValue⟩ := by
    rw [lastSample, Store.lastSample, stored]
    rfl
  obtain ⟨earlier, parts⟩ := List.getLast?_eq_some_iff.mp (same.symm.trans held)
  refine ⟨earlier, _, ?_, held⟩
  rw [range_shown shows, View.range_everything, parts]

/-- Whatever changes a new store went through, and in whatever engine it is, a read of any span
in either direction yields exactly the samples of the span that are in the retention window, and
never asks for chunks between keys in the wrong order. The last sample of a series that has any
is the last one of the read of everything. -/
theorem Session.reads_exactly :
    (∀ (config : StoreConfig) (changes : List StoreChange),
      ((Store.new config).changed changes).ReadsExactly) ∧
    ∀ session : Session, session.Attained → ∀ key one,
      session.engine.series.get? key = some one → one.store.ReadsExactly ∧
        (one.store.isEmpty = false → ∃ earlier last,
          (Action.range key .everything).perform session = (.ok (earlier ++ [last]), session) ∧
          (Action.last key).perform session = (.ok (some last), session)) := by
  constructor
  · intro config changes
    obtain ⟨runs, files, _⟩ := Store.changed_files (Store.files_new config) changes
    exact Store.reads_exactly_files files
  · intro session attained key one present
    have filed := ((genuine_attained attained).attainable key one present).filed
    have reads : one.store.ReadsExactly := by
      obtain ⟨runs, files⟩ := filed
      exact Store.reads_exactly_files files
    refine ⟨reads, ?_⟩
    intro stored
    obtain ⟨earlier, last, read, held⟩ := Series.last_of_everything filed stored
    refine ⟨earlier, last, ?_, ?_⟩
    · rw [Action.perform_range present, read]
    · rw [Action.perform_last present, held]

/-- A sample before the window of what follows it, and one that is put between two others. -/
def Session.backfilled : List Operation :=
  [.request (.create "a"
      { SeriesOptions.none with retention := some 20, encoding := some .uncompressed }),
    .request (.add "a" 10 ⟨1⟩ none), .request (.add "a" 40 ⟨2⟩ none),
    .request (.add "a" 25 ⟨3⟩ none)]

theorem Session.reads_exactly_backfilled :
    ((fresh .default ∅).run backfilled).Attained ∧ ∃ one,
      ((fresh .default ∅).run backfilled).engine.series.get? "a" = some one ∧
      one.store.ReadsExactly ∧ one.store.isEmpty = false ∧ ∃ earlier last,
        (Action.range "a" .everything).perform ((fresh .default ∅).run backfilled) =
          (.ok (earlier ++ [last]), (fresh .default ∅).run backfilled) ∧
        (Action.last "a").perform ((fresh .default ∅).run backfilled) =
          (.ok (some last), (fresh .default ∅).run backfilled) := by
  have attained : ((fresh .default ∅).run backfilled).Attained :=
    ⟨.default, ∅, backfilled, SortedMap.every_empty, ⟨trivial, trivial, trivial, trivial, trivial⟩,
      rfl⟩
  have stored : (((fresh .default ∅).run backfilled).engine.series.get? "a").map
      (·.store.isEmpty) = some false := by
    decide +kernel
  obtain ⟨one, present, filled⟩ := Option.map_eq_some_iff.mp stored
  obtain ⟨reads, whole⟩ := reads_exactly.2 _ attained "a" one present
  exact ⟨attained, one, present, reads, filled, whole filled⟩

end Chronicle

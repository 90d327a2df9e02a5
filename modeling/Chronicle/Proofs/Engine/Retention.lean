import Chronicle.Proofs.Engine.Lasting
import Chronicle.Proofs.Series.Format
import Chronicle.Proofs.Series.Retention

/-!
The series that there can be, and retention in all of them: whatever a series was altered to,
fed with, saved and read back as, the window that it is written in is the window that is read.
-/

namespace Chronicle

namespace Series

variable {series : Series}

/-- The series that there can be. -/
inductive Attainable : Series → Prop where
  | made {key : String} {labels : Labels} {policy : DuplicatePolicy} {config : StoreConfig}
      {series : Series} (made : Series.new key labels policy config = .ok series) :
      Attainable series
  | altered {series : Series} (alteration : Alteration) (attainable : Attainable series) :
      Attainable (series.altered alteration)
  | added {series changed : Series} {timestamp : Timestamp} {value : Value}
      {override : Option DuplicatePolicy} {written : Written} (attainable : Attainable series)
      (accepted : series.add timestamp value override = .ok (changed, written)) : Attainable changed
  | received {series changed : Series} {timestamp : Timestamp} {value : Value}
      {trimmed : Trimmed} (attainable : Attainable series)
      (accepted : series.appendCompacted timestamp value = .ok (changed, trimmed)) :
      Attainable changed
  | linked {series : Series} (source : Option String) (rules : List Rule)
      (attainable : Attainable series) :
      Attainable { series with sourceKey := source, rules := rules }
  | reread {series other : Series} (attainable : Attainable series) (storable : series.Storable)
      (read : ofBlob series.toBlob = .ok other) : Attainable other

theorem lasting_attainable : Lasting Attainable where
  made := .made
  altered := .altered
  added := .added
  received := .received
  ruled := fun attainable _ => attainable.linked _ _
  struck := fun _ attainable => attainable.linked _ _
  sourced := fun source attainable => attainable.linked source _

/-- All series of a session are, as long as it takes none in from outside. -/
theorem attainable_run (config : EngineConfig) (directory : Directory) {operations : List Operation}
    (stay : ∀ operation ∈ operations, operation.isLocal = true) {key : String}
    (present : ((Session.fresh config directory).run operations).engine.series.get? key =
      some series) : series.Attainable := by
  have empty : (Session.fresh config directory).engine.All Attainable :=
    fun _ _ among => nomatch among
  exact Session.all_run lasting_attainable stay empty key series present

theorem Attainable.filed (attainable : series.Attainable) : series.Filed := by
  induction attainable with
  | made made => exact filed_new made
  | altered alteration _ ih => exact lasting_filed.altered alteration ih
  | added _ accepted ih => exact filed_add ih accepted
  | received _ accepted ih => exact filed_append_compacted ih accepted
  | linked source rules _ ih => exact ih
  | @reread series _ _ storable read ih =>
      rw [(blob_round_trip series storable).1] at read
      exact Except.ok.inj read ▸ ih

/-- In every series that there can be, whatever its encoding, its chunks and its earlier
retentions, a write is refused exactly if it is before the window that is read, and an
accepted one adds its sample to what is read, less what the window has then left behind. -/
theorem retention_exact {series : Series} (attainable : series.Attainable)
    (limited : series.retention ≠ 0) :
    ∃ visible, series.range .everything = .ok visible ∧ ∀ timestamp value override,
      series.Retains visible timestamp value override := by
  obtain ⟨view, shows⟩ := attainable.filed.shows
  refine ⟨view.samples, ?_, retains_shown shows limited⟩
  rw [range_shown shows, View.range_everything]

/-- A series of zeros, all in one chunk. -/
def zeros (retention : Duration) (moments : List Timestamp) : Series where
  key := "a"
  labels := ∅
  duplicatePolicy := .last
  store :=
    { config := ⟨.uncompressed, 4096, retention, false⟩
      chunks := .ofList (moments.head?.toList.map fun first =>
        (first, .uncompressed (.ofList (moments.map fun moment => ⟨moment, .zero⟩))))
      lastTimestamp := moments.getLast?.getD 0
      lastValue := .zero
      totalSamples := (moments.length : Int) }
  sourceKey := none
  rules := []

/-- Retention may set in within a chunk that is there already. -/
theorem zeros_attainable : (zeros 10 [10, 25]).Attainable := by
  have created : Series.new "a" ∅ .last ⟨.uncompressed, 4096, 0, false⟩ = .ok (zeros 0 []) := rfl
  have begun : (zeros 0 []).add 10 .zero none =
      .ok (zeros 0 [10], ⟨10, .appended, .nothing, []⟩) := rfl
  have filled : (zeros 0 [10]).add 25 .zero none =
      .ok (zeros 0 [10, 25], ⟨25, .appended, .nothing, []⟩) := rfl
  exact (((Attainable.made created).added begun).added filled).altered ⟨some 10, none, none, none⟩

theorem retention_exact_zeros :
    (zeros 10 [10, 25]).Attainable ∧ (zeros 10 [10, 25]).retention ≠ 0 ∧
      ∃ visible, (zeros 10 [10, 25]).range .everything = .ok visible ∧
        ∀ timestamp value override,
          (zeros 10 [10, 25]).Retains visible timestamp value override :=
  ⟨zeros_attainable, by decide, retention_exact zeros_attainable (by decide)⟩

end Series

end Chronicle

import Chronicle.Proofs.Series.Change

/-!
How many samples a series holds. A write adds one, unless it is merged into a sample that is
there, and what it trims is taken off, as the answer of the write says.
-/

namespace Chronicle

namespace Store

variable {store after : Store} {runs : List (List Sample)} {timestamp : Timestamp} {value : Value}

def count (store : Store) : Nat := store.totalSamples.shown

theorem count_eq (files : store.Files runs) : store.count = runs.flatten.length := by
  rw [count, files.total, Counter.shown_ofNat]

theorem count_append (files : store.Files runs) {trimmed : Trimmed}
    (appended : store.append timestamp value = .ok (after, trimmed)) :
    after.count + trimmed.samples = store.count + 1 ∧
      (trimmed.isEmpty = true → trimmed.samples = 0) := by
  by_cases newer : store.isEmpty = true ∨ store.lastTimestamp < timestamp
  · obtain ⟨longer, dropped, kept, done, filesAfter, shown, _⟩ :=
      append_files files timestamp value newer
    rw [done] at appended
    obtain ⟨rfl, rfl⟩ := Prod.mk.inj (Except.ok.inj appended)
    have whole : (runs.take dropped).flatten.length + (runs.drop dropped).flatten.length =
        runs.flatten.length := by
      rw [← List.length_append, ← List.flatten_append, List.take_append_drop]
    rw [count_eq filesAfter, count_eq files, shown, List.length_append, List.length_singleton]
    refine ⟨by dsimp only; omega, fun none => ?_⟩
    have zero : dropped = 0 := by simpa [Trimmed.isEmpty] using none
    rw [zero, List.take_zero]
    rfl
  · obtain ⟨filled, reached⟩ := not_or.mp newer
    rw [append_refused (Bool.eq_false_iff.mpr filled) (UInt64.not_lt.mp reached)] at appended
    exact nomatch appended

theorem count_upsert (files : store.Files runs) {policy : DuplicatePolicy} {inserted : Bool}
    (within : ¬ (store.isEmpty = true ∨ store.lastTimestamp < timestamp))
    (written : store.upsert timestamp value policy = .ok (after, inserted)) :
    after.count = store.count + (if inserted then 1 else 0) := by
  obtain ⟨some, behind⟩ := not_or.mp within
  have reached := UInt64.not_lt.mp behind
  have filled : runs ≠ [] := fun none => some ((is_empty_eq files).mpr none)
  by_cases locked : Locked store timestamp
  · have refused := upsert_locked files filled ⟨timestamp, value⟩ reached locked policy
    exact nomatch written.symm.trans refused
  have outcome := upsert_files files filled ⟨timestamp, value⟩ reached locked policy
  cases changed : Timeline.write runs.flatten ⟨timestamp, value⟩ policy with
  | error refused =>
      rw [changed] at outcome
      exact nomatch written.symm.trans outcome
  | ok result =>
      rw [changed] at outcome
      obtain ⟨other, kept, done, filesAfter, shown, _⟩ := outcome
      obtain ⟨rfl, rfl⟩ := Prod.mk.inj (Except.ok.inj (written.symm.trans done))
      rw [count_eq filesAfter, count_eq files, shown]
      exact (Timeline.write_ok files.increasing changed).2

end Store

namespace Series

variable {series changed : Series} {timestamp : Timestamp} {value : Value}

theorem count_new {key : String} {labels : Labels} {policy : DuplicatePolicy}
    {config : StoreConfig} (made : Series.new key labels policy config = .ok series) :
    series.store.count = 0 := by
  rw [Series.new_outcome made]
  rfl

theorem count_add (filed : series.Filed) {override : Option DuplicatePolicy} {written : Written}
    (accepted : series.add timestamp value override = .ok (changed, written)) :
    changed.store.count + written.trimmed.samples =
        series.store.count + (if written.kind = .merged then 0 else 1) ∧
      (written.trimmed.isEmpty = true → written.trimmed.samples = 0) := by
  obtain ⟨runs, files⟩ := filed
  rcases add_outcome accepted with ⟨within, store, inserted, upserted, rfl, rfl⟩ |
    ⟨_, store, trimmed, appended, rfl, rfl⟩
  · refine ⟨?_, fun _ => rfl⟩
    have counted := Store.count_upsert files within upserted
    cases inserted <;> exact counted
  · exact Store.count_append files appended

theorem count_append_compacted (filed : series.Filed) {trimmed : Trimmed}
    (accepted : series.appendCompacted timestamp value = .ok (changed, trimmed)) :
    changed.store.count + trimmed.samples = series.store.count + 1 ∧
      (trimmed.isEmpty = true → trimmed.samples = 0) := by
  obtain ⟨runs, files⟩ := filed
  obtain ⟨store, appended, rfl⟩ := append_compacted_outcome accepted
  exact Store.count_append files appended

end Series

end Chronicle

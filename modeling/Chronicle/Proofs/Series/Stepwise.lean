import Chronicle.Proofs.Series.Change
import Chronicle.Proofs.Store.Stepwise

/-!
Altering and writing to a series where it stands, one assignment after the other. Whatever
fails has assigned nothing yet: the series is as it was, and otherwise it is the series that
the operation gives.
-/

namespace Chronicle

namespace Series

theorem on_store_in_place {α : Type} {change : Store.InPlace α} {series : Series}
    {outcome : Except Error (Store × α)}
    (same : change.run series.store = series.store.inPlace outcome) :
    (onStore change).run series = series.inPlace
      (outcome.map fun (store, answer) => ({ series with store := store }, answer)) := by
  show onStore change series = _
  rw [onStore, same]
  cases outcome <;> rfl

theorem assign_in_place (series : Series) (alteration : Alteration) :
    (assign alteration).run series = .ok () (series.altered alteration) := by
  obtain ⟨retention, chunkSize, policy, labels⟩ := alteration
  cases retention <;> cases chunkSize <;> cases policy <;> cases labels <;> rfl

theorem alter_in_place (series : Series) (alteration : Alteration) :
    (alterInPlace alteration).run series = series.inPlace
      ((Error.ofArgument (series.alter alteration)).map fun after => (after, ())) := by
  obtain ⟨retention, chunkSize, policy, labels⟩ := alteration
  have assigned := assign_in_place series ⟨retention, chunkSize, policy, labels⟩
  unfold alterInPlace Series.alter
  cases labels with
  | none =>
      cases chunkSize with
      | none => exact assigned
      | some bytes =>
          dsimp only
          cases checkChunkSize bytes with
          | error fault => rfl
          | ok => exact assigned
  | some labels =>
      dsimp only
      cases checkLabels labels with
      | error fault => rfl
      | ok =>
          cases chunkSize with
          | none => exact assigned
          | some bytes =>
              dsimp only
              cases checkChunkSize bytes with
              | error fault => rfl
              | ok => exact assigned

theorem add_in_place (series : Series) (timestamp : Timestamp) (value : Value)
    (override : Option DuplicatePolicy) :
    (addInPlace timestamp value override).run series =
      series.inPlace (series.add timestamp value override) := by
  unfold addInPlace
  rw [EStateM.run_bind, EStateM.run_get]
  dsimp only
  by_cases old : series.isTooOld timestamp = true
  · rw [Series.add, if_pos old, if_pos old]
    rfl
  rw [Series.add, if_neg old, if_neg old]
  split
  · have stored := on_store_in_place
      (Store.upsert_in_place series.store timestamp value (override.getD series.duplicatePolicy))
    rw [EStateM.run_bind, stored]
    dsimp only
    cases series.store.upsert timestamp value (override.getD series.duplicatePolicy) <;> rfl
  · have stored := on_store_in_place (Store.append_in_place series.store timestamp value)
    rw [EStateM.run_bind, stored]
    simp only [List.map_map, List.filterMap_map]
    cases series.store.append timestamp value <;> rfl

end Series

end Chronicle

import Chronicle.Proofs.Store.Invariant
import Chronicle.Series

/-!
What becomes of a series that is created, altered or written to. Each operation is described
once, with everything that it checked; that writes touch samples and rules only, and that the
samples of a series always are a timeline, follows from the descriptions.
-/

namespace Chronicle

theorem exists_of_bind_ok {ε γ δ : Type} {first : Except ε γ} {next : γ → Except ε δ}
    {answer : δ} (done : first >>= next = .ok answer) :
    ∃ between, first = .ok between ∧ next between = .ok answer := by
  cases first with
  | error refused => exact nomatch done
  | ok between => exact ⟨between, rfl, done⟩

namespace Store

variable {store after : Store} {timestamp : Timestamp} {value : Value}

theorem config_trim (store : Store) (now : Timestamp) :
    (store.trim now).1.config = store.config := by
  unfold trim
  dsimp only
  split <;> rfl

theorem config_append {trimmed : Trimmed}
    (appended : store.append timestamp value = .ok (after, trimmed)) :
    after.config = store.config := by
  unfold append at appended
  split at appended
  · exact nomatch appended
  · have kept := congrArg Prod.fst (Except.ok.inj appended)
    rw [← show _ = after from kept, config_trim]

theorem end_upsert {policy : DuplicatePolicy} {inserted : Bool}
    (within : ¬ (store.isEmpty = true ∨ store.lastTimestamp < timestamp))
    (written : store.upsert timestamp value policy = .ok (after, inserted)) :
    after.config = store.config ∧ after.lastTimestamp = store.lastTimestamp := by
  unfold upsert at written
  rw [if_neg (by simpa using within)] at written
  split at written
  · exact nomatch written
  · obtain ⟨⟨changed, isNew⟩, _, rest⟩ := exists_of_bind_ok written
    dsimp only at rest
    split at rest
    · obtain ⟨halves, _, kept⟩ := exists_of_bind_ok rest
      obtain ⟨rfl, _⟩ := Prod.mk.inj (Except.ok.inj kept)
      exact ⟨rfl, rfl⟩
    · obtain ⟨rfl, _⟩ := Prod.mk.inj (Except.ok.inj rest)
      exact ⟨rfl, rfl⟩

end Store

namespace Rule

def outline (rule : Rule) : String × AggregationKind × Duration :=
  (rule.destination, rule.kind, rule.width)

theorem outline_take (rule : Rule) (sample : Sample) :
    (rule.take sample).1.outline = rule.outline := by
  unfold take
  dsimp only
  split
  · rfl
  · split <;> rfl

theorem destination_flush {rule : Rule} {sample : Sample} {flush : Flush}
    (closed : (rule.take sample).2 = some flush) : flush.destination = rule.destination := by
  unfold take at closed
  dsimp only at closed
  split at closed
  · exact nomatch closed
  · split at closed
    · obtain ⟨value, _, rfl⟩ := Option.map_eq_some_iff.mp closed
      rfl
    · exact nomatch closed

end Rule

namespace Series

variable {series changed : Series}

def destinations (series : Series) : List String := series.rules.map (·.destination)

/-- That a series is another one after samples came in: only its samples, and what its rules
have taken in, may differ. -/
structure Continues (old new : Series) : Prop where
  key : new.key = old.key
  labels : new.labels = old.labels
  policy : new.duplicatePolicy = old.duplicatePolicy
  config : new.store.config = old.store.config
  source : new.sourceKey = old.sourceKey
  rules : new.rules.map Rule.outline = old.rules.map Rule.outline

/-- That the samples of a series are a timeline, filed in runs. -/
def Filed (series : Series) : Prop := ∃ runs, series.store.Files runs

theorem destinations_outline (series : Series) :
    series.destinations = (series.rules.map Rule.outline).map (·.1) := by
  rw [List.map_map]
  rfl

theorem Continues.destinations {old new : Series} (continues : old.Continues new) :
    new.destinations = old.destinations := by
  rw [destinations_outline, destinations_outline, continues.rules]

theorem new_outcome {key : String} {labels : Labels} {policy : DuplicatePolicy}
    {config : StoreConfig} (made : Series.new key labels policy config = .ok series) :
    series = ⟨key, labels, policy, .new config, none, []⟩ := by
  obtain ⟨_, _, rest⟩ := exists_of_bind_ok made
  obtain ⟨_, _, kept⟩ := exists_of_bind_ok rest
  exact (Except.ok.inj kept).symm

theorem filed_new {key : String} {labels : Labels} {policy : DuplicatePolicy}
    {config : StoreConfig} (made : Series.new key labels policy config = .ok series) :
    series.Filed := by
  rw [new_outcome made]
  exact ⟨[], Store.files_new config⟩

def altered (series : Series) (alteration : Alteration) : Series :=
  { series with
    labels := alteration.labels.getD series.labels
    duplicatePolicy := alteration.duplicatePolicy.getD series.duplicatePolicy
    store := { series.store with
      config := { series.store.config with
        retention := alteration.retention.getD series.store.config.retention
        chunkSize := alteration.chunkSize.getD series.store.config.chunkSize } } }

theorem alter_outcome {alteration : Alteration}
    (accepted : series.alter alteration = .ok changed) : changed = series.altered alteration := by
  unfold Series.alter at accepted
  cases labels : alteration.labels <;> cases size : alteration.chunkSize <;>
    simp only [labels, size] at accepted
  · rw [← Except.ok.inj accepted, altered, labels, size]
  · obtain ⟨_, _, kept⟩ := exists_of_bind_ok accepted
    rw [← Except.ok.inj kept, altered, labels, size]
  · obtain ⟨_, _, kept⟩ := exists_of_bind_ok accepted
    rw [← Except.ok.inj kept, altered, labels, size]
  · obtain ⟨_, _, checked⟩ := exists_of_bind_ok accepted
    obtain ⟨_, _, kept⟩ := exists_of_bind_ok checked
    rw [← Except.ok.inj kept, altered, labels, size]

theorem files_altered {runs : List (List Sample)} (files : series.store.Files runs)
    (alteration : Alteration) : (series.altered alteration).store.Files runs := { files with }

/-- What a write that was accepted came to: a change in place, which no rule sees, or a
sample behind all others, which every rule takes in. -/
theorem add_outcome {timestamp : Timestamp} {value : Value} {override : Option DuplicatePolicy}
    {written : Written} (accepted : series.add timestamp value override = .ok (changed, written)) :
    (¬ (series.store.isEmpty = true ∨ series.store.lastTimestamp < timestamp) ∧
      ∃ store inserted, series.store.upsert timestamp value
          (override.getD series.duplicatePolicy) = .ok (store, inserted) ∧
        changed = { series with store := store } ∧
        written = ⟨timestamp, if inserted then .inserted else .merged, .nothing, []⟩) ∨
    ((series.store.isEmpty = true ∨ series.store.lastTimestamp < timestamp) ∧
      ∃ store trimmed, series.store.append timestamp value = .ok (store, trimmed) ∧
        changed = { series with
          store := store
          rules := series.rules.map fun rule => (rule.take ⟨timestamp, value⟩).1 } ∧
        written = ⟨timestamp, .appended, trimmed,
          series.rules.filterMap fun rule => (rule.take ⟨timestamp, value⟩).2⟩) := by
  unfold Series.add at accepted
  split at accepted
  · exact nomatch accepted
  split at accepted
  · rename_i within
    obtain ⟨⟨store, inserted⟩, upserted, kept⟩ := exists_of_bind_ok accepted
    obtain ⟨rfl, rfl⟩ := Prod.mk.inj (Except.ok.inj kept)
    refine Or.inl ⟨?_, store, inserted, upserted, rfl, rfl⟩
    simpa using within
  · rename_i newer
    obtain ⟨⟨store, trimmed⟩, appended, kept⟩ := exists_of_bind_ok accepted
    obtain ⟨rfl, rfl⟩ := Prod.mk.inj (Except.ok.inj kept)
    refine Or.inr ⟨?_, store, trimmed, appended, ?_, ?_⟩
    · by_cases empty : series.store.isEmpty = true
      · exact Or.inl empty
      · exact Or.inr (by simpa [empty] using newer)
    · rw [List.map_map]
      rfl
    · rw [List.filterMap_map]
      rfl

section Add

variable {timestamp : Timestamp} {value : Value} {override : Option DuplicatePolicy}
  {written : Written}

theorem continues_add
    (accepted : series.add timestamp value override = .ok (changed, written)) :
    series.Continues changed := by
  rcases add_outcome accepted with ⟨within, store, inserted, upserted, rfl, _⟩ |
    ⟨newer, store, trimmed, appended, rfl, _⟩
  · exact ⟨rfl, rfl, rfl, (Store.end_upsert within upserted).1, rfl, rfl⟩
  · refine ⟨rfl, rfl, rfl, Store.config_append appended, rfl, ?_⟩
    rw [List.map_map]
    exact List.map_congr_left fun rule _ => rule.outline_take _

theorem filed_add (filed : series.Filed)
    (accepted : series.add timestamp value override = .ok (changed, written)) :
    changed.Filed := by
  obtain ⟨runs, files⟩ := filed
  rcases add_outcome accepted with ⟨_, store, inserted, upserted, rfl, _⟩ |
    ⟨_, store, trimmed, appended, rfl, _⟩
  · rcases Store.upsert_outcome files timestamp value _ with ⟨refused, failed⟩ |
      ⟨after, isNew, kept, done, filesAfter, _⟩
    · rw [failed] at upserted
      exact nomatch upserted
    · rw [done] at upserted
      obtain ⟨rfl, _⟩ := Prod.mk.inj (Except.ok.inj upserted)
      exact ⟨kept, filesAfter⟩
  · rcases Store.append_outcome files timestamp value with ⟨refused, failed⟩ |
      ⟨after, dropped, kept, done, filesAfter, _⟩
    · rw [failed] at appended
      exact nomatch appended
    · rw [done] at appended
      obtain ⟨rfl, _⟩ := Prod.mk.inj (Except.ok.inj appended)
      exact ⟨kept, filesAfter⟩

theorem destination_flushed
    (accepted : series.add timestamp value override = .ok (changed, written)) {flush : Flush}
    (member : flush ∈ written.flushes) : flush.destination ∈ series.destinations := by
  rcases add_outcome accepted with ⟨_, _, _, _, _, rfl⟩ | ⟨_, _, _, _, _, rfl⟩
  · exact nomatch member
  · obtain ⟨rule, among, closed⟩ := List.mem_filterMap.mp member
    rw [Rule.destination_flush closed]
    exact List.mem_map_of_mem among

end Add

section Compacted

variable {timestamp : Timestamp} {value : Value} {trimmed : Trimmed}

theorem append_compacted_outcome
    (accepted : series.appendCompacted timestamp value = .ok (changed, trimmed)) :
    ∃ store, series.store.append timestamp value = .ok (store, trimmed) ∧
      changed = { series with store := store } := by
  obtain ⟨⟨store, dropped⟩, appended, kept⟩ := exists_of_bind_ok accepted
  obtain ⟨rfl, rfl⟩ := Prod.mk.inj (Except.ok.inj kept)
  exact ⟨store, appended, rfl⟩

theorem continues_append_compacted
    (accepted : series.appendCompacted timestamp value = .ok (changed, trimmed)) :
    series.Continues changed := by
  obtain ⟨store, appended, rfl⟩ := append_compacted_outcome accepted
  exact ⟨rfl, rfl, rfl, Store.config_append appended, rfl, rfl⟩

theorem filed_append_compacted (filed : series.Filed)
    (accepted : series.appendCompacted timestamp value = .ok (changed, trimmed)) :
    changed.Filed := by
  obtain ⟨runs, files⟩ := filed
  obtain ⟨store, appended, rfl⟩ := append_compacted_outcome accepted
  rcases Store.append_outcome files timestamp value with ⟨refused, failed⟩ |
    ⟨after, dropped, kept, done, filesAfter, _⟩
  · rw [failed] at appended
    exact nomatch appended
  · rw [done] at appended
    obtain ⟨rfl, _⟩ := Prod.mk.inj (Except.ok.inj appended)
    exact ⟨kept, filesAfter⟩

end Compacted

end Series

end Chronicle

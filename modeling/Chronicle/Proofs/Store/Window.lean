import Chronicle.Proofs.Series.Change
import Chronicle.Proofs.Store.Range

/-!
What a store shows, and what its writes do to that. A store may keep samples that are too old
to be read, as many as its chunks happen to hold; none of them comes back into what is shown,
and none has a say in a write that is taken.
-/

namespace Chronicle

section Kept

variable {retention : Duration} {timestamp newest : Timestamp}

theorem kept_from_le_newest (retention : Duration) (newest : Timestamp) :
    keptFrom retention newest ≤ newest := by
  rw [UInt64.le_iff_toNat_le, keptFrom]
  split
  · exact Nat.zero_le _
  · rw [window_start_toNat]
    exact Nat.sub_le _ _

theorem kept_from_mono {earlier later : Timestamp} (order : earlier ≤ later) :
    keptFrom retention earlier ≤ keptFrom retention later := by
  unfold keptFrom
  split
  · exact UInt64.le_refl 0
  · rw [UInt64.le_iff_toNat_le] at order ⊢
    rw [window_start_toNat, window_start_toNat]
    exact Nat.sub_le_sub_right order _

/-- The difference that a write is checked by says the same as the bound that a read starts
at and that chunks are dropped by. -/
theorem before_kept_iff : timestamp < keptFrom retention newest ↔
    retention ≠ 0 ∧ timestamp < newest ∧ retention < newest - timestamp := by
  unfold keptFrom
  by_cases unlimited : retention = 0
  · simp [unlimited]
  rw [if_neg unlimited, UInt64.lt_iff_toNat_lt, window_start_toNat]
  constructor
  · intro early
    have less : timestamp.toNat < newest.toNat := by omega
    refine ⟨unlimited, UInt64.lt_iff_toNat_lt.mpr less, ?_⟩
    rw [UInt64.lt_iff_toNat_lt,
      UInt64.toNat_sub_of_le _ _ (UInt64.le_iff_toNat_le.mpr (Nat.le_of_lt less))]
    omega
  · rintro ⟨_, less, apart⟩
    rw [UInt64.lt_iff_toNat_lt, UInt64.toNat_sub_of_le _ _ (UInt64.le_of_lt less)] at apart
    omega

end Kept

namespace Store

open Timeline

variable {store after : Store} {runs kept : List (List Sample)}

theorem last_window (files : Files store runs) :
    (store.window runs.flatten).getLast? = runs.flatten.getLast? := by
  cases newest : runs.flatten.getLast? with
  | none =>
      rw [List.getLast?_eq_none_iff.mp newest]
      rfl
  | some last =>
      obtain ⟨front, parts⟩ := List.getLast?_eq_some_iff.mp newest
      have stored := files.last last newest
      have shown : since (keptFrom store.config.retention store.lastTimestamp) [last] = [last] := by
        apply since_all
        intro sample member
        rw [List.mem_singleton.mp member, stored]
        exact kept_from_le_newest _ _
      rw [parts, window, since_append, shown, List.getLast?_concat]

/-- Without retention an append drops nothing. -/
theorem append_unlimited {timestamp : Timestamp} {value : Value} {trimmed : Trimmed}
    (unlimited : store.config.retention = 0)
    (appended : store.append timestamp value = .ok (after, trimmed)) : trimmed = .nothing := by
  unfold append at appended
  split at appended
  · exact nomatch appended
  · have trimmed := congrArg Prod.snd (Except.ok.inj appended)
    unfold trim at trimmed
    dsimp only at trimmed
    rw [if_pos (by simp [unlimited])] at trimmed
    exact trimmed.symm

/-- What an append drops is before the window of the new sample. -/
theorem append_dropped (files : Files store runs) (timestamp : Timestamp) (value : Value)
    (newer : store.isEmpty = true ∨ store.lastTimestamp < timestamp) :
    ∃ after trimmed count kept, store.append timestamp value = .ok (after, trimmed) ∧
      Files after kept ∧ after.config = store.config ∧
      kept.flatten = (runs.drop count).flatten ++ [⟨timestamp, value⟩] ∧
      ∀ sample ∈ (runs.take count).flatten,
        sample.timestamp < keptFrom store.config.retention timestamp := by
  obtain ⟨after, count, kept, appended, filesAfter, shown, config, _, old⟩ :=
    append_files files timestamp value newer
  refine ⟨after, _, count, kept, appended, filesAfter, config, shown, ?_⟩
  intro sample member
  by_cases unlimited : store.config.retention = 0
  · have none : count = 0 :=
      congrArg Trimmed.chunks (append_unlimited unlimited appended)
    rw [none] at member
    exact absurd member List.not_mem_nil
  · rw [keptFrom, if_neg unlimited]
    exact old sample member

/-- What an append leaves to be seen: what was seen before it and the new sample, as far as
that is in the new window. -/
theorem append_window (files : Files store runs) (timestamp : Timestamp) (value : Value)
    (newer : store.isEmpty = true ∨ store.lastTimestamp < timestamp) :
    ∃ after trimmed kept, store.append timestamp value = .ok (after, trimmed) ∧
      Files after kept ∧ after.config = store.config ∧
      after.window kept.flatten = since (keptFrom store.config.retention timestamp)
        (store.window runs.flatten ++ [Sample.mk timestamp value]) := by
  obtain ⟨after, trimmed, count, kept, appended, filesAfter, config, shown, old⟩ :=
    append_dropped files timestamp value newer
  have newest : kept.flatten.getLast? = some ⟨timestamp, value⟩ := by
    rw [shown, List.getLast?_concat]
  have ended : after.lastTimestamp = timestamp :=
    (congrArg Sample.timestamp (filesAfter.last _ newest)).symm
  refine ⟨after, trimmed, kept, appended, filesAfter, config, ?_⟩
  have hidden : since (keptFrom store.config.retention timestamp) (store.window runs.flatten) =
      since (keptFrom store.config.retention timestamp) runs.flatten := by
    rcases newer with empty | behind
    · rw [(is_empty_eq files).mp empty]
      rfl
    · exact since_since (kept_from_mono (UInt64.le_of_lt behind)) _
  have parts : runs.flatten = (runs.take count).flatten ++ (runs.drop count).flatten := by
    rw [← List.flatten_append, List.take_append_drop]
  rw [window, config, ended, shown, since_append, since_append, hidden, parts, since_append,
    since_none old, List.nil_append]

/-- What a write that is not behind the end of a store and not before its window does to
what is seen. -/
theorem upsert_window (files : Files store runs) (filled : runs ≠ []) (sample : Sample)
    (reached : sample.timestamp ≤ store.lastTimestamp)
    (inside : keptFrom store.config.retention store.lastTimestamp ≤ sample.timestamp)
    (unlocked : ¬ Locked store sample.timestamp) (policy : DuplicatePolicy) :
    match write (store.window runs.flatten) sample policy with
    | .error refused => store.upsert sample.timestamp sample.value policy = .error refused
    | .ok (changed, inserted) => ∃ after kept,
        store.upsert sample.timestamp sample.value policy = .ok (after, inserted) ∧
          Files after kept ∧ after.config = store.config ∧
          after.window kept.flatten = changed := by
  obtain ⟨hidden, parts, old⟩ := exists_before_since files.increasing
    (keptFrom store.config.retention store.lastTimestamp)
  rw [← window] at parts
  have below : ∀ other ∈ hidden, other.timestamp < sample.timestamp :=
    fun other member => UInt64.lt_of_lt_of_le (old other member) inside
  have whole := @write_between hidden (store.window runs.flatten) [] sample policy below
    (fun other member => absurd member List.not_mem_nil)
  rw [List.append_nil, ← parts] at whole
  have outcome := upsert_files files filled sample reached unlocked policy
  rw [whole] at outcome
  cases written : write (store.window runs.flatten) sample policy with
  | error refused =>
      rw [written] at outcome
      exact outcome
  | ok result =>
      obtain ⟨changed, inserted⟩ := result
      rw [written] at outcome
      obtain ⟨after, kept, upserted, filesAfter, shown, config⟩ := outcome
      refine ⟨after, kept, upserted, filesAfter, config, ?_⟩
      have within : ¬ (store.isEmpty = true ∨ store.lastTimestamp < sample.timestamp) := by
        simpa using not_newer files filled reached
      have increasing : Increasing (store.window runs.flatten) :=
        files.increasing.sublist List.filter_sublist
      obtain ⟨⟨value, one⟩, _⟩ := write_ok increasing written
      have recent : ∀ other ∈ store.window runs.flatten,
          keptFrom store.config.retention store.lastTimestamp ≤ other.timestamp :=
        fun other member => (mem_since.mp member).2
      have placed : since (keptFrom store.config.retention store.lastTimestamp) changed =
          changed := by
        rw [one]
        exact since_put recent inside
      rw [window, config, (end_upsert within upserted).2, shown, List.append_nil, since_append,
        since_none old, placed, List.nil_append]

end Store

end Chronicle

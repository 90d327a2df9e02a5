import Chronicle.Proofs.Store.Invariant
import Chronicle.Proofs.Store.Stepwise

/-!
A store is a sorted map from timestamps to values. Its contents are the map; appending
adds a last sample and may drop whole chunks from the front, writing elsewhere changes
exactly one place, and whatever fails changes nothing.
-/

namespace Chronicle

namespace Store

open Timeline

/-- What appending is to a store that contains some samples: refused if the store has
reached the timestamp, and otherwise one more sample behind all that stay, where those
that go are whole chunks, as many as it says with as many samples as it says. -/
def AppendsBehind (store : Store) (samples : List Sample) (timestamp : Timestamp)
    (value : Value) : Prop :=
  if store.isEmpty = false ∧ timestamp ≤ store.lastTimestamp then
    store.append timestamp value = .error (.timestampNotIncreasing timestamp store.lastTimestamp)
  else ∃ after trimmed dropped stay,
    store.append timestamp value = .ok (after, trimmed) ∧
      (store.chunks.values.take trimmed.chunks).mapM Chunk.samples = .ok dropped ∧
      dropped.length = trimmed.chunks ∧ dropped.flatten.length = trimmed.samples ∧
      samples = dropped.flatten ++ stay ∧
      after.contents = .ok (stay ++ [⟨timestamp, value⟩])

/-- What writing is to a store that contains some samples: appending if the timestamp is
behind them, and otherwise, unless the store is locked there, a change in one place. A free
place takes the sample. At a taken one the write is refused if the policy blocks it, and any
other policy merges both values. -/
def WritesInPlace (store : Store) (samples : List Sample) (timestamp : Timestamp)
    (value : Value) (policy : DuplicatePolicy) : Prop :=
  if store.isEmpty = true ∨ store.lastTimestamp < timestamp then
    store.upsert timestamp value policy =
      (store.append timestamp value).map fun (longer, _) => (longer, true)
  else if Locked store timestamp then
    store.upsert timestamp value policy = .error (.upsertUnsupported .compressed)
  else ∃ before here after, samples = before ++ here ++ after ∧
    (∀ other ∈ before, other.timestamp < timestamp) ∧
    (∀ other ∈ after, timestamp < other.timestamp) ∧
    ((here = [] ∧ ∃ next, store.upsert timestamp value policy = .ok (next, true) ∧
        next.contents = .ok (before ++ ⟨timestamp, value⟩ :: after)) ∨
      ∃ stored, here = [⟨timestamp, stored⟩] ∧
        (policy = .block →
          store.upsert timestamp value policy = .error (.duplicateSample timestamp)) ∧
        (policy ≠ .block → ∃ merged next, policy.combine timestamp stored value = .ok merged ∧
          store.upsert timestamp value policy = .ok (next, false) ∧
          next.contents = .ok (before ++ ⟨timestamp, merged⟩ :: after)))

section Files

variable {store : Store} {runs : List (List Sample)}

theorem appends_behind (files : Files store runs) (timestamp : Timestamp) (value : Value) :
    AppendsBehind store runs.flatten timestamp value := by
  unfold AppendsBehind
  split
  · rename_i reached
    exact append_refused reached.1 reached.2 value
  · rename_i behind
    have newer : store.isEmpty = true ∨ store.lastTimestamp < timestamp := by
      cases empty : store.isEmpty with
      | true => exact Or.inl rfl
      | false => exact Or.inr (UInt64.not_le.mp fun reached => behind ⟨empty, reached⟩)
    obtain ⟨after, count, kept, appended, filesAfter, shown, _, fits, _⟩ :=
      append_files files timestamp value newer
    have dropped : (store.chunks.values.take count).mapM Chunk.samples =
        .ok (runs.take count) := by
      rw [values_eq files, ← List.map_take]
      exact map_samples_runs _ fun run member => files.nonempty run (List.mem_of_mem_take member)
    refine ⟨after, _, runs.take count, (runs.drop count).flatten, appended, dropped, ?_, rfl,
      ?_, ?_⟩
    · rw [List.length_take, Nat.min_eq_left fits]
    · rw [← List.flatten_append, List.take_append_drop]
    · rw [contents_eq filesAfter, shown]

theorem combine_merges {policy : DuplicatePolicy} (merges : policy ≠ .block)
    (timestamp : Timestamp) (stored value : Value) :
    ∃ merged, policy.combine timestamp stored value = .ok merged := by
  cases policy with
  | block => exact absurd rfl merges
  | first | last | min | max | sum => exact ⟨_, rfl⟩

theorem writes_in_place (files : Files store runs) (timestamp : Timestamp) (value : Value)
    (policy : DuplicatePolicy) : WritesInPlace store runs.flatten timestamp value policy := by
  unfold WritesInPlace
  split
  · rename_i newer
    exact upsert_newer newer value policy
  rename_i behind
  obtain ⟨some, notBehind⟩ := not_or.mp behind
  have reached := UInt64.not_lt.mp notBehind
  have filled : runs ≠ [] := fun none => some ((is_empty_eq files).mpr none)
  split
  · rename_i locked
    exact upsert_locked files filled ⟨timestamp, value⟩ reached locked policy
  · rename_i unlocked
    have outcome := upsert_files files filled ⟨timestamp, value⟩ reached unlocked policy
    obtain ⟨before, here, after, parts, below, above, shape⟩ :=
      exists_place files.increasing timestamp
    refine ⟨before, here, after, parts, below, above, ?_⟩
    rw [parts] at outcome
    rcases shape with rfl | ⟨present, rfl, same⟩
    · rw [List.append_nil, write_absent policy below above] at outcome
      obtain ⟨next, kept, written, filesNext, shown, _⟩ := outcome
      exact Or.inl ⟨rfl, next, written, by rw [contents_eq filesNext, shown]⟩
    · obtain ⟨moment, stored⟩ := present
      obtain rfl : moment = timestamp := same
      have taken : write (before ++ ⟨moment, stored⟩ :: after) ⟨moment, value⟩ policy = _ :=
        write_present policy rfl below above
      rw [List.append_assoc, List.singleton_append, taken] at outcome
      refine Or.inr ⟨stored, rfl, ?_, ?_⟩
      · rintro rfl
        have refused : DuplicatePolicy.block.combine moment stored value =
            .error (.duplicateSample moment) := rfl
        rw [refused] at outcome
        exact outcome
      · intro merges
        obtain ⟨merged, combined⟩ := combine_merges merges moment stored value
        rw [combined] at outcome
        obtain ⟨next, kept, written, filesNext, shown, _⟩ := outcome
        exact ⟨merged, next, combined, written, by rw [contents_eq filesNext, shown]⟩

end Files

/-- Whatever changes a new store went through, it contains a timeline, to which appending
and writing do what they should, and in place what fails leaves the store as it was. -/
theorem refines_timeline (config : StoreConfig) (changes : List StoreChange)
    (timestamp : Timestamp) (value : Value) (policy : DuplicatePolicy) :
    ∃ samples, ((new config).changed changes).contents = .ok samples ∧ Increasing samples ∧
      AppendsBehind ((new config).changed changes) samples timestamp value ∧
      WritesInPlace ((new config).changed changes) samples timestamp value policy ∧
      (appendInPlace timestamp value).run ((new config).changed changes) =
        ((new config).changed changes).inPlace
          (((new config).changed changes).append timestamp value) ∧
      (upsertInPlace timestamp value policy).run ((new config).changed changes) =
        ((new config).changed changes).inPlace
          (((new config).changed changes).upsert timestamp value policy) := by
  obtain ⟨runs, files, _, _⟩ := changed_files (files_new config) changes
  exact ⟨runs.flatten, contents_eq files, files.increasing, appends_behind files timestamp value,
    writes_in_place files timestamp value policy, append_in_place _ timestamp value,
    upsert_in_place _ timestamp value policy⟩

end Store

end Chronicle

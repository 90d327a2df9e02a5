import Chronicle.Proofs.Store.Upsert

/-!
Writing to a store where it stands. Every failure comes before the first assignment: a
write that fails leaves the store as it was, and one that succeeds leaves the store that
writing without assignments gives.
-/

namespace Chronicle

namespace Store

theorem append_in_place (store : Store) (timestamp : Timestamp) (value : Value) :
    (appendInPlace timestamp value).run store = store.inPlace (store.append timestamp value) := by
  unfold appendInPlace append
  rw [EStateM.run_bind, EStateM.run_get]
  dsimp only
  split
  · rfl
  · rfl

theorem decodes_upserted {chunk changed : Chunk} {sample : Sample} {policy : DuplicatePolicy}
    {rebuild inserted : Bool}
    (written : chunk.upsert sample policy rebuild = .ok (changed, inserted)) :
    ∃ samples, changed.samples = .ok samples := by
  cases chunk with
  | uncompressed samples =>
      simp only [Chunk.upsert, bind, Except.bind] at written
      split at written
      · simp at written
      · obtain ⟨rfl, _⟩ := Prod.mk.inj (Except.ok.inj written)
        exact ⟨_, rfl⟩
  | compressed run =>
      cases decoded : run.samples with
      | error damage => cases rebuild <;> simp [Chunk.upsert, decoded, bind, Except.bind] at written
      | ok samples =>
          cases rebuild with
          | false => simp [Chunk.upsert] at written
          | true =>
              simp only [Chunk.upsert, decoded, bind, Except.bind, Bool.not_true,
                Bool.false_eq_true, if_false] at written
              split at written
              · simp at written
              · rename_i result placed
                obtain ⟨rfl, _⟩ := Prod.mk.inj (Except.ok.inj written)
                cases result.1 with
                | nil => exact ⟨samples, decoded⟩
                | cons first later =>
                    exact ⟨_, CompressedChunk.samples_of_samples first later⟩

theorem split_ok {chunk : Chunk} {samples : List Sample} (decoded : chunk.samples = .ok samples)
    (budget : Nat) :
    ∃ halves, (if chunk.needsSplit budget then chunk.split else .ok none) = .ok halves := by
  split
  · unfold Chunk.split
    split
    · exact ⟨none, rfl⟩
    · simp only [decoded, bind, Except.bind]
      split <;> exact ⟨_, rfl⟩
  · exact ⟨none, rfl⟩

section Steps

variable {chunks : SortedMap Timestamp Chunk}

def stays (chunk : Chunk) (halves : Option (Chunk × Chunk)) : Chunk :=
  (halves.map (·.1)).getD chunk

/-- Splitting in place is splitting, once nothing can fail any more. -/
theorem split_in_place (store : Store) (key : Timestamp) (chunk : Chunk)
    (kept : store.chunks = chunks.insert key chunk)
    {halves : Option (Chunk × Chunk)}
    (halved : (if chunk.needsSplit store.config.chunkSize then chunk.split else .ok none) =
      .ok halves) :
    (splitInPlace key chunk).run store = .ok (stays chunk halves, halves.map (·.2))
      { store with chunks := chunks.insert key (stays chunk halves) } := by
  have unchanged : store = { store with chunks := chunks.insert key chunk } := by rw [← kept]
  unfold splitInPlace
  rw [EStateM.run_bind, EStateM.run_get]
  dsimp only
  split
  · rename_i grown
    rw [if_pos grown] at halved
    rw [halved]
    cases halves with
    | none => exact congrArg (EStateM.Result.ok (chunk, none)) unchanged
    | some pair =>
        simp only [attempt, keep, EStateM.run_bind, EStateM.run_pure, EStateM.run_modify, kept,
          SortedMap.insert_insert]
        rfl
  · rename_i small
    rw [if_neg small] at halved
    obtain rfl := Except.ok.inj halved
    exact congrArg (EStateM.Result.ok (chunk, none)) unchanged

theorem rekey_in_place (store : Store) (key : Timestamp) (chunk : Chunk)
    (kept : store.chunks = chunks.insert key chunk) :
    (rekey key chunk).run store = .ok () { store with chunks := refile chunks key chunk } := by
  unfold rekey refile
  by_cases same : chunk.firstTimestamp = key
  · simp only [same, ne_eq, not_true_eq_false, if_false, if_true, EStateM.run_pure, ← kept]
  · simp only [same, ne_eq, not_false_eq_true, if_true, if_false, EStateM.run_modify, kept,
      SortedMap.erase_insert]

theorem keep_upper_in_place (store : Store) (key : Timestamp) (chunk : Chunk)
    (halves : Option (Chunk × Chunk))
    (moved : store.chunks = refile chunks key (stays chunk halves)) :
    (keepUpper (halves.map (·.2))).run store =
      .ok () { store with chunks := rewritten chunks key chunk halves } := by
  cases halves with
  | none =>
      have unchanged : store = { store with chunks := refile chunks key chunk } := by
        rw [← show store.chunks = refile chunks key chunk from moved]
      exact congrArg (EStateM.Result.ok ()) unchanged
  | some pair =>
      simp only [Option.map_some, keepUpper, keep, EStateM.run_modify, moved]
      rfl

theorem count_in_place (store : Store) (inserted : Bool) :
    (countInserted inserted).run store = .ok ()
      { store with totalSamples := store.totalSamples + (if inserted then 1 else 0) } := by
  cases inserted with
  | true => rfl
  | false =>
      have unchanged : store = { store with totalSamples := store.totalSamples + 0 } := by simp
      exact congrArg (EStateM.Result.ok ()) unchanged

theorem settle_in_place (store : Store) (timestamp : Timestamp) :
    (settleLast timestamp).run store = .ok () { store with
      lastValue := if timestamp = store.lastTimestamp then
        ((store.chunks.last?).map (·.2.lastSample.value)).getD store.lastValue
        else store.lastValue } := by
  unfold settleLast
  rw [EStateM.run_bind, EStateM.run_get]
  dsimp only
  by_cases atEnd : timestamp = store.lastTimestamp
  · rw [if_pos atEnd, if_pos atEnd, EStateM.run_modify]
  · rw [if_neg atEnd, if_neg atEnd, EStateM.run_pure]

end Steps

/-- Writing in place is writing, and a write that fails leaves the store as it was. -/
theorem upsert_in_place (store : Store) (timestamp : Timestamp) (value : Value)
    (policy : DuplicatePolicy) :
    (upsertInPlace timestamp value policy).run store =
      store.inPlace (store.upsert timestamp value policy) := by
  unfold upsertInPlace
  rw [EStateM.run_bind, EStateM.run_get]
  dsimp only
  split
  · rename_i newer
    rw [upsert, if_pos newer, EStateM.run_bind, append_in_place]
    cases store.append timestamp value <;> rfl
  rename_i within
  cases covered : store.covering? timestamp with
  | none =>
      rw [upsert, if_neg within, covered]
      rfl
  | some entry =>
      obtain ⟨key, covering⟩ := entry
      dsimp only
      cases written : covering.upsert ⟨timestamp, value⟩ policy
          (store.config.compressedUpsert || timestamp = store.lastTimestamp) with
      | error refused =>
          rw [upsert_failed within covered written]
          rfl
      | ok result =>
          obtain ⟨changed, inserted⟩ := result
          obtain ⟨samples, decoded⟩ := decodes_upserted written
          obtain ⟨halves, halved⟩ := split_ok decoded store.config.chunkSize
          rw [upsert_settled within covered written halved]
          have splits := split_in_place { store with chunks := store.chunks.insert key changed }
            key changed rfl halved
          have moves := rekey_in_place { store with
            chunks := store.chunks.insert key (stays changed halves) } key
            (stays changed halves) rfl
          have uppers := keep_upper_in_place { store with
            chunks := refile store.chunks key (stays changed halves) } key changed halves rfl
          simp only [attempt, keep, EStateM.run_bind, EStateM.run_pure, EStateM.run_modify,
            splits, moves, uppers, count_in_place, settle_in_place]
          rfl

end Store

end Chronicle

import Chronicle.Proofs.Store.Refinement
import Mathlib.Data.List.Induction

/-!
Where the chunks of a store come from. A change opens a chunk, adds a sample to one that has
room, or rewrites one and may leave it in two halves; every other chunk it leaves alone or
drops. So each chunk that a run of changes leads to was made by one of the changes, from a
chunk that was there before, and what follows at the change that made it holds of it since.
-/

namespace Chronicle

namespace Store

/-- That a chunk is one of the two halves in which a change leaves a chunk that it rewrote. -/
inductive LeavesHalf (store : Store) : StoreChange → Chunk → Prop where
  | of_upsert {timestamp key : Timestamp} {value : Value} {policy : DuplicatePolicy}
      {old changed lower upper half : Chunk} {inserted : Bool}
      (covered : store.covering? timestamp = some (key, old))
      (written : old.upsert ⟨timestamp, value⟩ policy
        (store.config.compressedUpsert || timestamp = store.lastTimestamp) =
          .ok (changed, inserted))
      (grown : changed.needsSplit store.config.chunkSize = true)
      (split : changed.split = .ok (some (lower, upper)))
      (part : half = lower ∨ half = upper) :
      LeavesHalf store (.upsert timestamp value policy) half

inductive Makes (store : Store) : StoreChange → Chunk → Prop where
  | opened (change : StoreChange) (sample : Sample) :
      Makes store change (.ofSample store.config.encoding sample)
  | pushed (change : StoreChange) (sample : Sample) {old : Chunk}
      (among : old ∈ store.chunks.values)
      (room : old.isFull store.config.chunkSize = false) : Makes store change (old.push sample)
  | rewritten {timestamp key : Timestamp} {value : Value} {policy : DuplicatePolicy}
      {old changed : Chunk} {inserted : Bool}
      (covered : store.covering? timestamp = some (key, old))
      (written : old.upsert ⟨timestamp, value⟩ policy
        (store.config.compressedUpsert || timestamp = store.lastTimestamp) =
          .ok (changed, inserted))
      (whole : (if changed.needsSplit store.config.chunkSize then changed.split else .ok none) =
        .ok none) :
      Makes store (.upsert timestamp value policy) changed
  | halved {change : StoreChange} {chunk : Chunk} (half : LeavesHalf store change chunk) :
      Makes store change chunk

section Step

variable {store after : Store} {change : StoreChange}

/-- That every chunk of a map was there before a change or is made by it. -/
def Descends (store : Store) (change : StoreChange) (chunks : SortedMap Timestamp Chunk) : Prop :=
  chunks.Every fun _ chunk => chunk ∈ store.chunks.values ∨ Makes store change chunk

theorem descends_same (store : Store) (change : StoreChange) :
    Descends store change store.chunks :=
  fun key chunk present => Or.inl ((store.chunks.mem_values_iff chunk).mpr ⟨key, present⟩)

theorem descends_trim (now : Timestamp) (descends : Descends store change after.chunks) :
    Descends store change (after.trim now).1.chunks := by
  unfold trim
  dsimp only
  split
  · exact descends
  · exact SortedMap.every_drop descends _

theorem descends_extend (store : Store) (change : StoreChange) (sample : Sample) :
    Descends store change (store.extend sample) := by
  have same := descends_same store change
  unfold extend
  split
  · rename_i key newest last
    have among : newest ∈ store.chunks.values :=
      List.mem_map_of_mem (List.mem_of_getLast? ((SortedMap.getLast?_entries _).trans last))
    split
    · exact SortedMap.every_insert same (Or.inr (.opened change sample))
    · rename_i room
      have pushed := Makes.pushed change sample among (Bool.eq_false_iff.mpr room)
      exact SortedMap.every_insert same (Or.inr pushed)
  · exact SortedMap.every_insert same (Or.inr (.opened change sample))

theorem descends_append {timestamp : Timestamp} {value : Value} {trimmed : Trimmed}
    (appended : store.append timestamp value = .ok (after, trimmed)) :
    Descends store change after.chunks := by
  unfold append at appended
  split at appended
  · simp at appended
  · obtain ⟨rfl, _⟩ := Prod.mk.inj (Except.ok.inj appended)
    exact descends_trim timestamp (descends_extend store change ⟨timestamp, value⟩)

theorem descends_refile {chunks : SortedMap Timestamp Chunk} {key : Timestamp} {chunk : Chunk}
    (descends : Descends store change chunks) (made : Makes store change chunk) :
    Descends store change (refile chunks key chunk) := by
  unfold refile
  split
  · exact SortedMap.every_insert descends (Or.inr made)
  · exact SortedMap.every_insert (SortedMap.every_erase descends key) (Or.inr made)

theorem appended_of_newer {timestamp : Timestamp} {value : Value} {policy : DuplicatePolicy}
    {inserted : Bool} (newer : store.isEmpty = true ∨ store.lastTimestamp < timestamp)
    (upserted : store.upsert timestamp value policy = .ok (after, inserted)) :
    ∃ trimmed, store.append timestamp value = .ok (after, trimmed) := by
  rw [upsert_newer newer] at upserted
  cases appended : store.append timestamp value with
  | error refused => simp [appended, Except.map] at upserted
  | ok result =>
      rw [appended] at upserted
      obtain ⟨rfl, _⟩ := Prod.mk.inj (Except.ok.inj upserted)
      exact ⟨result.2, rfl⟩

theorem descends_upsert {timestamp : Timestamp} {value : Value} {policy : DuplicatePolicy}
    {inserted : Bool} (upserted : store.upsert timestamp value policy = .ok (after, inserted)) :
    Descends store (.upsert timestamp value policy) after.chunks := by
  by_cases newer : store.isEmpty = true ∨ store.lastTimestamp < timestamp
  · obtain ⟨trimmed, appended⟩ := appended_of_newer newer upserted
    exact descends_append appended
  have within : ¬ (store.isEmpty || decide (store.lastTimestamp < timestamp)) = true := by
    simpa using newer
  cases covered : store.covering? timestamp with
  | none =>
      rw [upsert, if_neg within, covered] at upserted
      simp at upserted
  | some entry =>
      obtain ⟨key, old⟩ := entry
      cases written : old.upsert ⟨timestamp, value⟩ policy
          (store.config.compressedUpsert || timestamp = store.lastTimestamp) with
      | error refused =>
          rw [upsert_failed within covered written] at upserted
          simp at upserted
      | ok result =>
          obtain ⟨changed, added⟩ := result
          obtain ⟨samples, decoded⟩ := decodes_upserted written
          obtain ⟨halves, halved⟩ := split_ok decoded store.config.chunkSize
          rw [upsert_settled within covered written halved] at upserted
          obtain ⟨rfl, _⟩ := Prod.mk.inj (Except.ok.inj upserted)
          have same := descends_same store (.upsert timestamp value policy)
          cases halves with
          | none => exact descends_refile same (.rewritten covered written halved)
          | some pair =>
              obtain ⟨lower, upper⟩ := pair
              obtain ⟨grown, split⟩ : changed.needsSplit store.config.chunkSize = true ∧
                  changed.split = .ok (some (lower, upper)) := by
                split at halved
                · rename_i grown
                  exact ⟨grown, halved⟩
                · simp at halved
              -- the lower half is filed in place of the chunk, the upper one behind it
              have first := LeavesHalf.of_upsert covered written grown split (Or.inl rfl)
              have second := LeavesHalf.of_upsert covered written grown split (Or.inr rfl)
              exact SortedMap.every_insert (descends_refile same (.halved first))
                (Or.inr (.halved second))

theorem descends_change (store : Store) (change : StoreChange) :
    Descends store change (store.change change).chunks := by
  have same := descends_same store change
  cases change with
  | append timestamp value =>
      cases appended : store.append timestamp value with
      | error refused => simpa only [Store.change, appended] using same
      | ok result =>
          simp only [Store.change, appended]
          exact descends_append appended
  | upsert timestamp value policy =>
      cases upserted : store.upsert timestamp value policy with
      | error refused => simpa only [Store.change, upserted] using same
      | ok result =>
          simp only [Store.change, upserted]
          exact descends_upsert upserted
  | trim now => exact descends_trim now same
  | setRetention retention => exact same
  | setChunkSize bytes => exact same

end Step

theorem changed_append (store : Store) (before : List StoreChange) (change : StoreChange) :
    store.changed (before ++ [change]) = (store.changed before).change change := by
  simp [changed]

/-- Every chunk of a store was made by one of the changes that led to it. -/
theorem exists_origin (config : StoreConfig) (changes : List StoreChange) {chunk : Chunk}
    (among : chunk ∈ ((new config).changed changes).chunks.values) :
    ∃ before change after, changes = before ++ change :: after ∧
      Makes ((new config).changed before) change chunk := by
  induction changes using List.reverseRecOn with
  | nil =>
      obtain ⟨key, present⟩ := (SortedMap.mem_values_iff _ chunk).mp among
      exact nomatch present
  | append_singleton before last ih =>
      obtain ⟨key, present⟩ := (SortedMap.mem_values_iff _ chunk).mp among
      rw [changed_append] at present
      rcases descends_change _ last key chunk present with old | made
      · obtain ⟨first, change, after, parts, made⟩ := ih old
        exact ⟨first, change, after ++ [last], by simp [parts], made⟩
      · exact ⟨before, last, [], rfl, made⟩

/-- What follows for a chunk from the chunks that were there at the change that made it
holds of every chunk of a store. -/
theorem of_origin (config : StoreConfig) (holds : List StoreChange → Chunk → Prop)
    (step : ∀ before change after chunk,
      (∀ old ∈ ((new config).changed before).chunks.values, holds before old) →
      Makes ((new config).changed before) change chunk →
      holds (before ++ change :: after) chunk)
    (changes : List StoreChange) :
    ∀ chunk ∈ ((new config).changed changes).chunks.values, holds changes chunk := by
  -- the chunk was made before the end of the run, so the run is what gets shorter
  induction steps : changes.length using Nat.strong_induction_on generalizing changes with
  | h total ih =>
      intro chunk among
      obtain ⟨before, change, after, parts, made⟩ := exists_origin config changes among
      have shorter : before.length < total := by
        rw [← steps, parts, List.length_append, List.length_cons]
        omega
      rw [parts]
      exact step before change after chunk (ih _ shorter before rfl) made

end Store

end Chronicle

import Chronicle.Proofs.Store.Upsert

/-!
What holds of every store that changes have led to from a new one. One change takes runs
to runs, so a run of changes does, and a store that files runs is sound.
-/

namespace Chronicle

/-- A change of a store, as it is asked for. -/
inductive StoreChange where
  | append (timestamp : Timestamp) (value : Value)
  | upsert (timestamp : Timestamp) (value : Value) (policy : DuplicatePolicy)
  | trim (now : Timestamp)
  | setRetention (retention : Duration)
  | setChunkSize (bytes : Nat)
deriving DecidableEq

namespace Store

open Timeline

/-- The store after a change; a change that fails leaves it as it was. -/
def change (store : Store) : StoreChange → Store
  | .append timestamp value =>
      match store.append timestamp value with
      | .ok (longer, _) => longer
      | .error _ => store
  | .upsert timestamp value policy =>
      match store.upsert timestamp value policy with
      | .ok (written, _) => written
      | .error _ => store
  | .trim now => (store.trim now).1
  | .setRetention retention => store.setRetention retention
  | .setChunkSize bytes => store.setChunkSize bytes

def stores (store : Store) : StoreChange → Bool
  | .append timestamp value => (store.append timestamp value).isOk
  | .upsert timestamp value policy => (store.upsert timestamp value policy).isOk
  | _ => false

def changed (store : Store) (changes : List StoreChange) : Store := changes.foldl change store

/-- That a chunk that holds some samples is as a store files it under a key. -/
structure SoundChunk (config : StoreConfig) (key : Timestamp) (chunk : Chunk)
    (samples : List Sample) : Prop where
  encoding : chunk.encoding = config.encoding
  decodes : chunk.samples = .ok samples
  nonempty : samples ≠ []
  increasing : Increasing samples
  begins : samples.head?.map (·.timestamp) = some key
  first : chunk.firstTimestamp = key
  last : samples.getLast? = some chunk.lastSample
  count : chunk.count = samples.length

/-- That a store is as its writes and its readers rely on. -/
structure Sound (store : Store) : Prop where
  chunks : ∀ entry ∈ store.chunks.entries,
    ∃ samples, SoundChunk store.config entry.1 entry.2 samples
  apart : store.chunks.entries.Pairwise fun earlier later => earlier.2.lastTimestamp < later.1
  total : store.totalSamples = (total Chunk.count store.chunks.values : Int)
  last : store.lastSample = store.chunks.last?.map (·.2.lastSample)

section Runs

variable {store : Store} {runs : List (List Sample)}

theorem sound_chunk_filed (config : StoreConfig) {run : List Sample} (nonempty : run ≠ [])
    (increasing : Increasing run) :
    SoundChunk config (filed config.encoding run).1 (filed config.encoding run).2 run where
  encoding := Chunk.encoding_run _ nonempty
  decodes := Chunk.samples_run _ nonempty
  nonempty := nonempty
  increasing := increasing
  begins := by
    obtain ⟨first, later, rfl⟩ := List.exists_cons_of_ne_nil nonempty
    simp [filed, Chunk.first_timestamp_run]
  first := rfl
  last := Chunk.last_sample_run _ nonempty
  count := Chunk.count_run _ nonempty

theorem apart_filed (encoding : ChunkEncoding) (nonempty : ∀ run ∈ runs, run ≠ [])
    (increasing : Increasing runs.flatten) :
    (runs.map (filed encoding)).Pairwise fun earlier later =>
      earlier.2.lastTimestamp < later.1 := by
  refine List.pairwise_map.mpr ((before_next_key encoding nonempty increasing).imp_of_mem ?_)
  intro earlier later early _ apart
  have newest := List.mem_of_getLast? (Chunk.last_sample_run encoding (nonempty earlier early))
  exact apart _ newest

theorem total_counts (encoding : ChunkEncoding) (nonempty : ∀ run ∈ runs, run ≠ []) :
    total Chunk.count (runs.map (Chunk.ofRun encoding)) = runs.flatten.length := by
  induction runs with
  | nil => rfl
  | cons run later ih =>
      have first := Chunk.count_run encoding (nonempty run (by simp))
      have others := ih fun run member => nonempty run (List.mem_cons_of_mem _ member)
      rw [List.map_cons, total, first, others, List.flatten_cons, List.length_append]

theorem sound_of_files (files : Files store runs) : Sound store where
  chunks := by
    intro entry member
    rw [files.entries] at member
    obtain ⟨run, among, rfl⟩ := List.mem_map.mp member
    exact ⟨run, sound_chunk_filed _ (files.nonempty run among) (increasing_run files among)⟩
  apart := by
    rw [files.entries]
    exact apart_filed _ files.nonempty files.increasing
  total := by rw [files.total, values_eq files, total_counts _ files.nonempty]
  last := by rw [last_sample_eq files, last_chunk_eq _ files.entries files.nonempty]

end Runs

section Changes

variable {store : Store} {runs : List (List Sample)}

theorem append_outcome (files : Files store runs) (timestamp : Timestamp) (value : Value) :
    (∃ refused, store.append timestamp value = .error refused) ∨
      ∃ after trimmed kept, store.append timestamp value = .ok (after, trimmed) ∧
        Files after kept ∧ kept ≠ [] ∧ after.config = store.config := by
  by_cases newer : store.isEmpty = true ∨ store.lastTimestamp < timestamp
  · obtain ⟨after, count, kept, appended, filesAfter, shown, config, _⟩ :=
      append_files files timestamp value newer
    have filled : kept ≠ [] := by
      rintro rfl
      simp at shown
    exact Or.inr ⟨after, _, kept, appended, filesAfter, filled, config⟩
  · obtain ⟨filled, reached⟩ := not_or.mp newer
    exact Or.inl ⟨_, append_refused (Bool.eq_false_iff.mpr filled)
      (UInt64.not_lt.mp reached) value⟩

theorem upsert_outcome (files : Files store runs) (timestamp : Timestamp) (value : Value)
    (policy : DuplicatePolicy) :
    (∃ refused, store.upsert timestamp value policy = .error refused) ∨
      ∃ after inserted kept, store.upsert timestamp value policy = .ok (after, inserted) ∧
        Files after kept ∧ kept ≠ [] ∧ after.config = store.config := by
  by_cases newer : store.isEmpty = true ∨ store.lastTimestamp < timestamp
  · rw [upsert_newer newer]
    rcases append_outcome files timestamp value with ⟨refused, failed⟩ |
      ⟨after, trimmed, kept, appended, filesAfter, filled, config⟩
    · exact Or.inl ⟨refused, by rw [failed]; rfl⟩
    · exact Or.inr ⟨after, true, kept, by rw [appended]; rfl, filesAfter, filled, config⟩
  obtain ⟨some, behind⟩ := not_or.mp newer
  have reached := UInt64.not_lt.mp behind
  have filled : runs ≠ [] := fun none => some ((is_empty_eq files).mpr none)
  by_cases locked : Locked store timestamp
  · exact Or.inl ⟨_, upsert_locked files filled ⟨timestamp, value⟩ reached locked policy⟩
  have outcome := upsert_files files filled ⟨timestamp, value⟩ reached locked policy
  cases written : write runs.flatten ⟨timestamp, value⟩ policy with
  | error refused =>
      rw [written] at outcome
      exact Or.inl ⟨refused, outcome⟩
  | ok result =>
      rw [written] at outcome
      obtain ⟨after, kept, upserted, filesAfter, shown, config⟩ := outcome
      obtain ⟨⟨_, one⟩, _⟩ := write_ok files.increasing written
      refine Or.inr ⟨after, _, kept, upserted, filesAfter, ?_, config⟩
      rintro rfl
      exact put_ne_nil _ _ (one.symm.trans shown.symm)

/-- A change of a store is a change of its runs, which there are from the first sample
that is stored. -/
theorem change_files (files : Files store runs) (change : StoreChange) :
    ∃ kept, Files (store.change change) kept ∧
      (store.change change).config.encoding = store.config.encoding ∧
      (kept = [] ↔ runs = [] ∧ store.stores change = false) := by
  cases change with
  | append timestamp value =>
      rcases append_outcome files timestamp value with ⟨refused, failed⟩ |
        ⟨after, trimmed, kept, appended, filesAfter, filled, config⟩
      · have same : store.change (.append timestamp value) = store := by
          simp only [Store.change, failed]
        rw [same]
        exact ⟨runs, files, rfl, by simp [stores, failed, Except.isOk, Except.toBool]⟩
      · have becomes : store.change (.append timestamp value) = after := by
          simp only [Store.change, appended]
        have stored : store.stores (.append timestamp value) = true := by
          simp [stores, appended, Except.isOk, Except.toBool]
        rw [becomes, config, stored]
        exact ⟨kept, filesAfter, rfl, by simp [filled]⟩
  | upsert timestamp value policy =>
      rcases upsert_outcome files timestamp value policy with ⟨refused, failed⟩ |
        ⟨after, inserted, kept, upserted, filesAfter, filled, config⟩
      · have same : store.change (.upsert timestamp value policy) = store := by
          simp only [Store.change, failed]
        rw [same]
        exact ⟨runs, files, rfl, by simp [stores, failed, Except.isOk, Except.toBool]⟩
      · have becomes : store.change (.upsert timestamp value policy) = after := by
          simp only [Store.change, upserted]
        have stored : store.stores (.upsert timestamp value policy) = true := by
          simp [stores, upserted, Except.isOk, Except.toBool]
        rw [becomes, config, stored]
        exact ⟨kept, filesAfter, rfl, by simp [filled]⟩
  | trim now =>
      obtain ⟨after, count, trimmed, filesAfter, config, short, _⟩ := trim_files files now
      simp only [Store.change, stores, trimmed]
      refine ⟨_, filesAfter, by rw [config], ?_⟩
      rw [List.drop_eq_nil_iff, ← List.length_eq_zero_iff]
      simp only [and_true]
      omega
  | setRetention retention =>
      exact ⟨runs, { files with }, rfl, by simp [stores]⟩
  | setChunkSize bytes =>
      exact ⟨runs, { files with }, rfl, by simp [stores]⟩

theorem changed_files (files : Files store runs) (changes : List StoreChange) :
    ∃ kept, Files (store.changed changes) kept ∧
      (store.changed changes).config.encoding = store.config.encoding ∧
      (kept = [] ↔ runs = [] ∧ ∀ before change after, changes = before ++ change :: after →
        (store.changed before).stores change = false) := by
  induction changes generalizing store runs with
  | nil => exact ⟨runs, files, rfl, by simp⟩
  | cons change later ih =>
      obtain ⟨between, filesBetween, encoding, first⟩ := change_files files change
      obtain ⟨kept, filesAfter, encodingAfter, others⟩ := ih filesBetween
      refine ⟨kept, filesAfter, encodingAfter.trans encoding, ?_⟩
      rw [others, first]
      constructor
      · rintro ⟨⟨none, idle⟩, idleLater⟩
        refine ⟨none, ?_⟩
        intro before other after parts
        cases before with
        | nil =>
            obtain ⟨rfl, rfl⟩ := List.cons.inj parts
            exact idle
        | cons head before =>
            obtain ⟨rfl, rest⟩ := List.cons.inj parts
            exact idleLater before other after rest
      · rintro ⟨none, idle⟩
        refine ⟨⟨none, idle [] change later rfl⟩, ?_⟩
        intro before other after parts
        exact idle (change :: before) other after (by rw [parts, List.cons_append])

end Changes

/-- Whatever changes a new store goes through, it is sound, it has the encoding that it
was opened with, and it is empty only as long as no change stored a sample. -/
theorem sound_changed (config : StoreConfig) (changes : List StoreChange) :
    Sound ((new config).changed changes) ∧
      ((new config).changed changes).config.encoding = config.encoding ∧
      (((new config).changed changes).isEmpty = false ↔
        ∃ before change after, changes = before ++ change :: after ∧
          ((new config).changed before).stores change = true) := by
  obtain ⟨kept, files, encoding, none⟩ := changed_files (files_new config) changes
  refine ⟨sound_of_files files, encoding, ?_⟩
  rw [Bool.eq_false_iff, ne_eq, is_empty_eq files, none]
  simp

end Store

end Chronicle

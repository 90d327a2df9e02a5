import Chronicle.Proofs.Chunk.Run
import Chronicle.Proofs.SortedMap
import Chronicle.Store

/-!
Stores as the runs of samples that they file. All runs together are one timeline, each
run is kept as one chunk under its first timestamp, and what the store keeps beside the
chunks (the last sample and the count) is what the timeline says. Every change of a
store is described by the runs before and after it.
-/

namespace Chronicle

namespace Store

open Timeline

def filed (encoding : ChunkEncoding) (run : List Sample) : Timestamp × Chunk :=
  ((Chunk.ofRun encoding run).firstTimestamp, Chunk.ofRun encoding run)

/-- That a store files these runs. -/
structure Files (store : Store) (runs : List (List Sample)) : Prop where
  entries : store.chunks.entries = runs.map (filed store.config.encoding)
  nonempty : ∀ run ∈ runs, run ≠ []
  increasing : Increasing runs.flatten
  total : store.totalSamples = (runs.flatten.length : Int)
  last : ∀ sample ∈ runs.flatten.getLast?, sample = ⟨store.lastTimestamp, store.lastValue⟩

theorem files_new (config : StoreConfig) : Files (new config) [] where
  entries := rfl
  nonempty := by simp
  increasing := List.Pairwise.nil
  total := rfl
  last := by simp

section Shown

variable {store : Store} {runs : List (List Sample)}

theorem values_eq (files : Files store runs) :
    store.chunks.values = runs.map (Chunk.ofRun store.config.encoding) := by
  simp [SortedMap.values, files.entries, filed]

theorem map_samples_runs (encoding : ChunkEncoding) (nonempty : ∀ run ∈ runs, run ≠ []) :
    (runs.map (Chunk.ofRun encoding)).mapM Chunk.samples = .ok runs := by
  induction runs with
  | nil => rfl
  | cons run later ih =>
      have shown := Chunk.samples_run encoding (nonempty run (by simp))
      have others := ih fun run member => nonempty run (List.mem_cons_of_mem _ member)
      simp only [List.map_cons, List.mapM_cons, shown, others, bind, Except.bind]
      rfl

theorem contents_eq (files : Files store runs) : store.contents = .ok runs.flatten := by
  rw [contents, values_eq files, map_samples_runs _ files.nonempty]
  rfl

theorem is_empty_eq (files : Files store runs) : store.isEmpty = true ↔ runs = [] := by
  rw [isEmpty, SortedMap.is_empty_iff, files.entries, List.map_eq_nil_iff]

theorem flatten_ne_nil (nonempty : ∀ run ∈ runs, run ≠ []) (some : runs ≠ []) :
    runs.flatten ≠ [] := by
  cases runs with
  | nil => contradiction
  | cons run later =>
      have first := nonempty run (by simp)
      simp [first]

theorem last_sample_eq (files : Files store runs) :
    store.lastSample = runs.flatten.getLast? := by
  unfold lastSample
  by_cases empty : store.isEmpty = true
  · have none := (is_empty_eq files).mp empty
    simp [empty, none]
  · have some := flatten_ne_nil files.nonempty fun none => empty ((is_empty_eq files).mpr none)
    have newest := List.getLast?_eq_some_getLast some
    rw [if_neg empty, newest, ← files.last _ newest]

theorem increasing_run (files : Files store runs) {run : List Sample} (member : run ∈ runs) :
    Increasing run :=
  (List.pairwise_flatten.mp files.increasing).1 run member

theorem last_append_filled {front back : List Sample} (filled : back ≠ []) :
    (front ++ back).getLast? = back.getLast? := by
  rw [List.getLast?_append, List.getLast?_eq_some_getLast filled, Option.some_or]

theorem last_chunk_eq {chunks : SortedMap Timestamp Chunk} (encoding : ChunkEncoding)
    (entries : chunks.entries = runs.map (filed encoding)) (nonempty : ∀ run ∈ runs, run ≠ []) :
    chunks.last?.map (·.2.lastSample) = runs.flatten.getLast? := by
  rw [← SortedMap.getLast?_entries, entries]
  rcases List.eq_nil_or_concat runs with none | ⟨older, newest, atEnd⟩
  · simp [none]
  · rw [List.concat_eq_append] at atEnd
    subst atEnd
    have filled := nonempty newest (by simp)
    rw [List.flatten_append, List.flatten_singleton, last_append_filled filled,
      Chunk.last_sample_run encoding filled]
    simp [filed]

end Shown

section Trim

theorem expired_eq_take (earliest : Timestamp) (entries : List (Timestamp × Chunk)) :
    ∃ count, expired earliest entries = (entries.take count).map (·.2) ∧
      (count < entries.length ∨ count = 0) ∧
      ∀ entry ∈ entries.take count, entry.2.lastTimestamp < earliest := by
  fun_induction expired earliest entries with
  | case1 key chunk next later ended ih =>
      obtain ⟨count, same, short, old⟩ := ih
      refine ⟨count + 1, by simp [same], Or.inl ?_, ?_⟩
      · simp only [List.length_cons] at short ⊢
        omega
      · intro entry member
        rcases List.mem_cons.mp (by simpa using member) with rfl | rest
        · exact ended
        · exact old entry rest
  | case2 key chunk next later going => exact ⟨0, rfl, Or.inr rfl, by simp⟩
  | case3 entries short => exact ⟨0, by simp, Or.inr rfl, by simp⟩

theorem sum_counters (encoding : ChunkEncoding) (runs : List (List Sample))
    (nonempty : ∀ run ∈ runs, run ≠ []) :
    Counter.sum ((runs.map (Chunk.ofRun encoding)).map Chunk.counter) =
      (runs.flatten.length : Int) := by
  induction runs with
  | nil => rfl
  | cons run later ih =>
      have first := Chunk.counter_run encoding (nonempty run (by simp))
      have others := ih fun run member => nonempty run (List.mem_cons_of_mem _ member)
      unfold Counter.sum at others ⊢
      simp only [List.map_cons, List.foldr_cons, first, others, List.flatten_cons,
        List.length_append]
      exact (Int.natCast_add _ _).symm

theorem less_length (before after : List Sample) :
    Counter.less ((before ++ after).length : Int) (before.length : Int) =
      (after.length : Int) := by
  have left : (if (before ++ after).length ≤ before.length then (0 : Int)
      else ((before ++ after).length : Int) - (before.length : Int)) = (after.length : Int) := by
    rw [List.length_append]
    split <;> omega
  simpa only [Counter.less, Counter.shown_ofNat] using left

/-- A store without its oldest runs, the newest excepted, files the others. -/
theorem files_drop {store : Store} {runs : List (List Sample)} (files : Files store runs)
    {count : Nat} (short : count < runs.length ∨ count = 0) :
    Files { store with
        chunks := store.chunks.drop count
        totalSamples := store.totalSamples.less ((runs.take count).flatten.length : Int) }
      (runs.drop count) := by
  have parts : runs.flatten = (runs.take count).flatten ++ (runs.drop count).flatten := by
    rw [← List.flatten_append, List.take_append_drop]
  have kept : ∀ run ∈ runs.drop count, run ≠ [] :=
    fun run member => files.nonempty run (List.mem_of_mem_drop member)
  constructor
  · rw [SortedMap.entries_drop, files.entries, List.map_drop]
  · exact kept
  · have increasing := files.increasing
    rw [parts] at increasing
    exact (List.pairwise_append.mp increasing).2.1
  · have total := files.total
    rw [parts] at total
    rw [total]
    exact less_length _ _
  · rcases short with some | none
    · have filled := flatten_ne_nil kept (List.length_pos_iff.mp (by rw [List.length_drop]; omega))
      have last := files.last
      rwa [parts, last_append_filled filled] at last
    · simpa [none] using files.last

/-- Trimming drops the oldest runs, as many and with as many samples as it says; the newest
run stays, and every sample dropped was before the window. -/
theorem trim_files {store : Store} {runs : List (List Sample)} (files : Files store runs)
    (now : Timestamp) :
    ∃ after count, store.trim now = (after, ⟨count, (runs.take count).flatten.length⟩) ∧
      Files after (runs.drop count) ∧ after.config = store.config ∧
      (count < runs.length ∨ count = 0) ∧
      ∀ sample ∈ (runs.take count).flatten,
        sample.timestamp < windowStart now store.config.retention := by
  unfold trim
  dsimp only
  split
  · exact ⟨store, 0, rfl, by simpa using files, rfl, Or.inr rfl, by simp⟩
  · obtain ⟨count, same, short, old⟩ :=
      expired_eq_take (windowStart now store.config.retention) store.chunks.entries
    rw [files.entries, List.length_map] at short
    rw [files.entries, ← List.map_take] at same old
    have dropped : expired (windowStart now store.config.retention) store.chunks.entries =
        (runs.take count).map (Chunk.ofRun store.config.encoding) := by
      rw [files.entries, same, List.map_map]
      rfl
    have kept : ∀ run ∈ runs.take count, run ≠ [] :=
      fun run member => files.nonempty run (List.mem_of_mem_take member)
    have samples := sum_counters store.config.encoding (runs.take count) kept
    have size : (runs.take count).length = count := by
      rw [List.length_take]
      omega
    refine ⟨_, count, ?_, files_drop files short, rfl, short, ?_⟩
    · simp only [dropped, samples, List.length_map, size, Counter.shown_ofNat]
    · intro sample member
      obtain ⟨run, among, inside⟩ := List.mem_flatten.mp member
      have ended := old (filed store.config.encoding run) (List.mem_map_of_mem among)
      have ordered := increasing_run files (List.mem_of_mem_take among)
      exact UInt64.lt_of_le_of_lt (Chunk.within_run store.config.encoding ordered inside).2 ended

end Trim

end Store

end Chronicle

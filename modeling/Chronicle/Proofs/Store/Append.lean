import Chronicle.Proofs.Store.Runs

/-!
Appending to a store. The new sample joins the newest run or opens one behind it, and
then the oldest runs may go; the store that is left files what remains of the runs, with
the new sample as its last.
-/

namespace Chronicle

namespace Store

open Timeline

variable {store : Store} {runs : List (List Sample)}

theorem le_last_timestamp (files : Files store runs) {sample : Sample}
    (member : sample ∈ runs.flatten) : sample.timestamp ≤ store.lastTimestamp := by
  have newest := List.getLast?_eq_some_getLast (List.ne_nil_of_mem member)
  rw [files.last _ newest] at newest
  exact le_last_of_increasing files.increasing newest member

theorem exists_sample_at_key (encoding : ChunkEncoding) (nonempty : ∀ run ∈ runs, run ≠ [])
    {entry : Timestamp × Chunk} (member : entry ∈ runs.map (filed encoding)) :
    ∃ sample ∈ runs.flatten, entry.1 = sample.timestamp := by
  obtain ⟨run, among, rfl⟩ := List.mem_map.mp member
  obtain ⟨first, inside, key⟩ := Chunk.first_mem_run encoding (nonempty run among)
  exact ⟨first, List.mem_flatten.mpr ⟨run, among, inside⟩, key⟩

/-- The runs with one more sample at the end, which joins the newest run or opens one. -/
inductive Longer (runs : List (List Sample)) (sample : Sample) : List (List Sample) → Prop where
  | opened : Longer runs sample (runs ++ [[sample]])
  | joined {older : List (List Sample)} {newest : List Sample}
      (parts : runs = older ++ [newest]) : Longer runs sample (older ++ [newest ++ [sample]])

theorem extend_files (files : Files store runs) (sample : Sample)
    (newer : ∀ other ∈ runs.flatten, other.timestamp < sample.timestamp) :
    ∃ longer, Longer runs sample longer ∧
      (store.extend sample).entries = longer.map (filed store.config.encoding) := by
  have opened : (store.chunks.insert sample.timestamp
      (.ofSample store.config.encoding sample)).entries =
        (runs ++ [[sample]]).map (filed store.config.encoding) := by
    have below : ∀ entry ∈ store.chunks.entries, compare entry.1 sample.timestamp = .lt := by
      intro entry member
      rw [files.entries] at member
      obtain ⟨first, inside, key⟩ := exists_sample_at_key _ files.nonempty member
      exact Std.compare_eq_lt.mpr (key ▸ newer first inside)
    have placed := SortedMap.entries_insert_between (List.append_nil _).symm sample.timestamp
      (Chunk.ofSample store.config.encoding sample) below (by simp)
    rw [placed, files.entries, List.map_append]
    simp [filed, Chunk.of_sample_run, Chunk.first_timestamp_run]
  rcases List.eq_nil_or_concat runs with rfl | ⟨older, newest, parts⟩
  · refine ⟨_, .opened, ?_⟩
    have last : store.chunks.last? = none := by
      rw [← SortedMap.getLast?_entries, files.entries]
      rfl
    rw [extend, last]
    exact opened
  · rw [List.concat_eq_append] at parts
    subst parts
    have filled := files.nonempty newest (by simp)
    have last : store.chunks.last? = some (filed store.config.encoding newest) := by
      rw [← SortedMap.getLast?_entries, files.entries]
      simp
    rw [extend, last]
    dsimp only [filed]
    split
    · exact ⟨_, .opened, opened⟩
    · refine ⟨_, .joined rfl, ?_⟩
      have parts : store.chunks.entries = older.map (filed store.config.encoding) ++
          filed store.config.encoding newest :: [] := by simp [files.entries]
      have same : (Chunk.ofRun store.config.encoding (newest ++ [sample])).firstTimestamp =
          (Chunk.ofRun store.config.encoding newest).firstTimestamp := by
        obtain ⟨first, later, rfl⟩ := List.exists_cons_of_ne_nil filled
        rw [List.cons_append, Chunk.first_timestamp_run, Chunk.first_timestamp_run]
      rw [SortedMap.entries_insert_over parts, Chunk.push_run _ filled]
      simp [filed, same]

theorem flatten_longer {sample : Sample} {longer : List (List Sample)}
    (grown : Longer runs sample longer) : longer.flatten = runs.flatten ++ [sample] := by
  cases grown with
  | opened => simp
  | joined parts => simp [parts]

theorem nonempty_longer {sample : Sample} {longer : List (List Sample)}
    (nonempty : ∀ run ∈ runs, run ≠ []) (grown : Longer runs sample longer) :
    ∀ run ∈ longer, run ≠ [] := by
  intro run member
  cases grown with
  | opened =>
      rcases List.mem_append.mp member with old | new
      · exact nonempty run old
      · simp [List.mem_singleton.mp new]
  | joined parts =>
      rcases List.mem_append.mp member with old | new
      · exact nonempty run (by simp [parts, old])
      · simp [List.mem_singleton.mp new]

/-- Dropping runs that are older than the newest one has nothing to do with growing. -/
theorem drop_longer {sample : Sample} {longer : List (List Sample)} {count : Nat}
    (grown : Longer runs sample longer) (short : count < longer.length ∨ count = 0) :
    count ≤ runs.length ∧ longer.take count = runs.take count ∧
      (longer.drop count).flatten = (runs.drop count).flatten ++ [sample] := by
  cases grown with
  | opened =>
      have fits : count ≤ runs.length := by
        simp only [List.length_append, List.length_singleton] at short
        omega
      rw [List.take_append_of_le_length fits, List.drop_append_of_le_length fits]
      simp [fits]
  | @joined older newest parts =>
      have fits : count ≤ older.length := by
        simp only [List.length_append, List.length_singleton] at short
        omega
      rw [parts, List.take_append_of_le_length fits, List.take_append_of_le_length fits,
        List.drop_append_of_le_length fits, List.drop_append_of_le_length fits]
      simp [Nat.le_succ_of_le fits]

theorem append_refused (filled : store.isEmpty = false) {timestamp : Timestamp}
    (reached : timestamp ≤ store.lastTimestamp) (value : Value) :
    store.append timestamp value =
      .error (.timestampNotIncreasing timestamp store.lastTimestamp) := by
  rw [append, if_pos (by simp [filled, reached])]

/-- Appending a newer sample succeeds: what is left of the runs is followed by the sample,
and what went are as many whole runs, with as many samples, as the answer says. -/
theorem append_files (files : Files store runs) (timestamp : Timestamp) (value : Value)
    (newer : store.isEmpty = true ∨ store.lastTimestamp < timestamp) :
    ∃ after count kept,
      store.append timestamp value = .ok (after, ⟨count, (runs.take count).flatten.length⟩) ∧
      Files after kept ∧ kept.flatten = (runs.drop count).flatten ++ [⟨timestamp, value⟩] ∧
      after.config = store.config ∧ count ≤ runs.length ∧
      ∀ sample ∈ (runs.take count).flatten,
        sample.timestamp < windowStart timestamp store.config.retention := by
  have above : ∀ other ∈ runs.flatten, other.timestamp < timestamp := by
    intro other member
    rcases newer with empty | late
    · rw [is_empty_eq files] at empty
      simp [empty] at member
    · exact UInt64.lt_of_le_of_lt (le_last_timestamp files member) late
  have accepted : ¬ (!store.isEmpty && decide (timestamp ≤ store.lastTimestamp)) = true := by
    rcases newer with empty | late
    · simp [empty]
    · simp [UInt64.not_le.mpr late]
  obtain ⟨longer, grown, entries⟩ := extend_files files ⟨timestamp, value⟩ above
  have extended : Files { store with
      chunks := store.extend ⟨timestamp, value⟩
      lastTimestamp := timestamp
      lastValue := value
      totalSamples := store.totalSamples + 1 } longer := by
    constructor
    · exact entries
    · exact nonempty_longer files.nonempty grown
    · rw [flatten_longer grown]
      refine List.pairwise_append.mpr ⟨files.increasing, by simp, ?_⟩
      intro other member sample newest
      exact List.mem_singleton.mp newest ▸ above other member
    · rw [flatten_longer grown, files.total, List.length_append, List.length_singleton]
      rfl
    · rw [flatten_longer grown]
      simp
  obtain ⟨after, count, trimmed, filed, config, short, old⟩ := trim_files extended timestamp
  obtain ⟨fits, taken, left⟩ := drop_longer grown short
  rw [taken] at trimmed old
  refine ⟨after, count, longer.drop count, ?_, filed, left, config, fits, old⟩
  rw [append, if_neg accepted]
  exact congrArg Except.ok trimmed

end Store

end Chronicle

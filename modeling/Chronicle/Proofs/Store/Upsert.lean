import Chronicle.Proofs.Store.Append

/-!
Writing at or before the end of a store. The chunk that a timestamp belongs to is the only
one that changes, and what it changes to takes its place among the others, whole or in two
halves: together the chunks go through one write of the timeline.
-/

namespace Chronicle

namespace Store

open Timeline

def Ordered (bindings : List (Timestamp × Chunk)) : Prop :=
  bindings.Pairwise (fun earlier later => compare earlier.1 later.1 = .lt)

section Keys

variable {store : Store} {runs : List (List Sample)}

/-- The key of a run is later than all samples of the runs before it. -/
theorem before_next_key (encoding : ChunkEncoding) (nonempty : ∀ run ∈ runs, run ≠ [])
    (increasing : Increasing runs.flatten) :
    runs.Pairwise fun earlier later => ∀ sample ∈ earlier,
      sample.timestamp < (Chunk.ofRun encoding later).firstTimestamp := by
  refine (List.pairwise_flatten.mp increasing).2.imp_of_mem ?_
  intro earlier later _ late apart sample member
  obtain ⟨first, inside, key⟩ := Chunk.first_mem_run encoding (nonempty later late)
  exact key ▸ apart sample member first inside

theorem ordered_filed (encoding : ChunkEncoding) (nonempty : ∀ run ∈ runs, run ≠ [])
    (increasing : Increasing runs.flatten) : Ordered (runs.map (filed encoding)) := by
  refine List.pairwise_map.mpr ((before_next_key encoding nonempty increasing).imp_of_mem ?_)
  intro earlier later early _ apart
  obtain ⟨first, inside, key⟩ := Chunk.first_mem_run encoding (nonempty earlier early)
  have less := apart first inside
  rw [← key] at less
  exact Std.compare_eq_lt.mpr less

/-- Every timestamp separates the runs that begin at or before it from the others. -/
theorem exists_boundary (encoding : ChunkEncoding)
    (ordered : Ordered (runs.map (filed encoding))) (timestamp : Timestamp) :
    ∃ lower upper, runs = lower ++ upper ∧
      (∀ run ∈ lower, (Chunk.ofRun encoding run).firstTimestamp ≤ timestamp) ∧
      (∀ run ∈ upper, timestamp < (Chunk.ofRun encoding run).firstTimestamp) := by
  induction runs with
  | nil => exact ⟨[], [], rfl, by simp, by simp⟩
  | cons run later ih =>
      obtain ⟨beyond, orderedLater⟩ := List.pairwise_cons.mp ordered
      by_cases reached : (Chunk.ofRun encoding run).firstTimestamp ≤ timestamp
      · obtain ⟨lower, upper, parts, begun, ahead⟩ := ih orderedLater
        refine ⟨run :: lower, upper, by simp [parts], ?_, ahead⟩
        intro other member
        rcases List.mem_cons.mp member with rfl | rest
        · exact reached
        · exact begun other rest
      · refine ⟨[], run :: later, rfl, by simp, ?_⟩
        have first := UInt64.not_le.mp reached
        intro other member
        rcases List.mem_cons.mp member with rfl | rest
        · exact first
        · have next := beyond _ (List.mem_map_of_mem rest)
          exact UInt64.lt_trans first (Std.compare_eq_lt.mp next)

theorem samples_above (encoding : ChunkEncoding) (increasing : Increasing runs.flatten)
    {timestamp : Timestamp}
    (ahead : ∀ run ∈ runs, timestamp < (Chunk.ofRun encoding run).firstTimestamp) :
    ∀ sample ∈ runs.flatten, timestamp < sample.timestamp := by
  intro sample member
  obtain ⟨run, among, inside⟩ := List.mem_flatten.mp member
  have ordered := (List.pairwise_flatten.mp increasing).1 run among
  exact UInt64.lt_of_lt_of_le (ahead run among)
    (Chunk.within_run encoding ordered inside).1

/-- A store that is not empty has a chunk for every timestamp, and all samples outside that
chunk are on their side of the timestamp. -/
theorem covering_files (files : Files store runs) (filled : runs ≠ []) (timestamp : Timestamp) :
    ∃ before run after, runs = before ++ run :: after ∧
      store.covering? timestamp = some (filed store.config.encoding run) ∧
      (∀ other ∈ before.flatten, other.timestamp < timestamp) ∧
      (∀ other ∈ after.flatten, timestamp < other.timestamp) := by
  have ordered := ordered_filed store.config.encoding files.nonempty files.increasing
  obtain ⟨lower, upper, parts, begun, ahead⟩ := exists_boundary _ ordered timestamp
  have increasing := files.increasing
  have entries := files.entries
  have behind : ∀ entry ∈ upper.map (filed store.config.encoding),
      (compare entry.1 timestamp).isLE = false := by
    intro entry member
    obtain ⟨run, among, rfl⟩ := List.mem_map.mp member
    have late := Std.compare_eq_gt.mpr (ahead run among)
    simp [filed, late]
  rcases List.eq_nil_or_concat lower with rfl | ⟨before, run, atEnd⟩
  · -- every run begins behind the timestamp, so the first of all takes it
    rw [List.nil_append] at parts
    subst parts
    obtain ⟨run, after, rfl⟩ := List.exists_cons_of_ne_nil filled
    refine ⟨[], run, after, rfl, ?_, by simp, ?_⟩
    · have none := SortedMap.floor?_eq_none (entries ▸ behind)
      have first : store.chunks.first? = some (filed store.config.encoding run) := by
        rw [← SortedMap.head?_entries, entries]
        rfl
      rw [covering?, none, first, Option.none_or]
    · rw [List.flatten_cons] at increasing
      exact samples_above _ (List.pairwise_append.mp increasing).2.1
        fun other member => ahead other (List.mem_cons_of_mem _ member)
  · rw [List.concat_eq_append] at atEnd
    subst atEnd
    rw [List.append_assoc, List.singleton_append] at parts
    subst parts
    refine ⟨before, run, upper, rfl, ?_, ?_, ?_⟩
    · rw [List.map_append, List.map_cons] at entries
      have reached : (compare (filed store.config.encoding run).1 timestamp).isLE :=
        Std.isLE_compare.mpr (begun run (by simp))
      rw [covering?, SortedMap.floor?_of_parts entries reached behind, Option.some_or]
    · rw [List.flatten_append, List.flatten_cons] at increasing
      obtain ⟨_, _, apart⟩ := List.pairwise_append.mp increasing
      obtain ⟨first, inside, key⟩ :=
        Chunk.first_mem_run store.config.encoding (files.nonempty run (by simp))
      intro other member
      have less := apart other member first (List.mem_append_left _ inside)
      exact UInt64.lt_of_lt_of_le less (key ▸ begun run (by simp))
    · rw [List.flatten_append, List.flatten_cons] at increasing
      obtain ⟨_, within, _⟩ := List.pairwise_append.mp increasing
      exact samples_above _ (List.pairwise_append.mp within).2.1 ahead

end Keys

section Replace

variable {chunks : SortedMap Timestamp Chunk} {before after : List (Timestamp × Chunk)}

theorem entries_insert_ordered (parts : chunks.entries = before ++ after) (key : Timestamp)
    (chunk : Chunk) (ordered : Ordered (before ++ (key, chunk) :: after)) :
    (chunks.insert key chunk).entries = before ++ (key, chunk) :: after := by
  obtain ⟨_, behind, across⟩ := List.pairwise_append.mp ordered
  exact SortedMap.entries_insert_between parts key chunk
    (fun entry member => across entry member (key, chunk) (by simp))
    (List.pairwise_cons.mp behind).1

theorem entries_refile {key : Timestamp} {old : Chunk}
    (parts : chunks.entries = before ++ (key, old) :: after) (chunk : Chunk)
    (ordered : Ordered (before ++ (chunk.firstTimestamp, chunk) :: after)) :
    (refile chunks key chunk).entries = before ++ (chunk.firstTimestamp, chunk) :: after := by
  unfold refile
  split
  · rename_i same
    rw [SortedMap.entries_insert_over parts, same]
  · exact entries_insert_ordered (SortedMap.entries_erase parts) _ _ ordered

end Replace

section Rewrite

variable {before after : List (List Sample)} {run changed : List Sample}

def rewritten (chunks : SortedMap Timestamp Chunk) (key : Timestamp) (chunk : Chunk) :
    Option (Chunk × Chunk) → SortedMap Timestamp Chunk
  | some (lower, upper) => (refile chunks key lower).insert upper.firstTimestamp upper
  | none => refile chunks key chunk

/-- A chunk that is rewritten leaves its place to the halves of its new run. -/
theorem entries_rewritten {chunks : SortedMap Timestamp Chunk} {encoding : ChunkEncoding}
    (budget : Nat) (parts : chunks.entries = (before ++ run :: after).map (filed encoding))
    (nonempty : changed ≠ [])
    (ordered : Ordered
      ((before ++ Chunk.halves encoding budget changed ++ after).map (filed encoding))) :
    ∃ split, (if (Chunk.ofRun encoding changed).needsSplit budget then
          (Chunk.ofRun encoding changed).split else .ok none) = .ok split ∧
      (rewritten chunks (filed encoding run).1 (Chunk.ofRun encoding changed) split).entries =
        (before ++ Chunk.halves encoding budget changed ++ after).map (filed encoding) := by
  rw [List.map_append, List.map_cons] at parts
  unfold Chunk.halves at ordered ⊢
  split
  · rename_i grown
    have several := Chunk.several_of_needs_split encoding nonempty grown
    refine ⟨_, Chunk.split_run encoding several, ?_⟩
    rw [if_pos grown] at ordered
    simp only [List.append_assoc, List.map_append, List.map_cons, List.cons_append,
      List.nil_append] at ordered ⊢
    have without := ordered.sublist
      (List.Sublist.append_left (List.Sublist.cons_cons _ (List.sublist_cons_self ..)) _)
    have lower := entries_refile parts _ without
    rw [List.append_cons] at lower
    -- the upper half comes behind the lower one, also where its key is the old key
    rw [List.append_cons] at ordered ⊢
    exact entries_insert_ordered lower _ _ ordered
  · rename_i small
    refine ⟨none, rfl, ?_⟩
    rw [if_neg small] at ordered
    simp only [List.append_assoc, List.map_append, List.map_cons, List.cons_append,
      List.nil_append] at ordered ⊢
    exact entries_refile parts _ ordered

end Rewrite

section Write

variable {store : Store} {runs kept : List (List Sample)} {sample : Sample}

theorem last_rewritten (files : Files store runs) (filled : runs ≠ []) (sample : Sample)
    (reached : sample.timestamp ≤ store.lastTimestamp)
    (nonempty : ∀ run ∈ kept, run ≠ []) (shown : kept.flatten = put runs.flatten sample)
    {chunks : SortedMap Timestamp Chunk}
    (entries : chunks.entries = kept.map (filed store.config.encoding)) :
    ∀ newest ∈ kept.flatten.getLast?,
      newest = ⟨store.lastTimestamp, if sample.timestamp = store.lastTimestamp then
        ((chunks.last?).map (·.2.lastSample.value)).getD store.lastValue
        else store.lastValue⟩ := by
  intro newest member
  split
  · rename_i same
    have ended : (put runs.flatten sample).getLast? = some sample :=
      getLast?_put_end fun other inside => same ▸ le_last_timestamp files inside
    rw [← shown] at ended
    have last := last_chunk_eq _ entries nonempty
    rw [ended] at member last
    obtain rfl := Option.some.inj member
    have value : chunks.last?.map (·.2.lastSample.value) = some sample.value := by
      simpa using congrArg (Option.map Sample.value) last
    simp [value, ← same]
  · rename_i different
    have early := UInt64.lt_of_le_of_ne reached different
    have stored := List.getLast?_eq_some_getLast (flatten_ne_nil files.nonempty filled)
    rw [files.last _ stored] at stored
    obtain ⟨front, parts⟩ := List.getLast?_eq_some_iff.mp stored
    rw [shown, parts, getLast?_put_before early] at member
    exact (Option.some.inj member).symm

theorem upsert_newer {timestamp : Timestamp}
    (newer : store.isEmpty = true ∨ store.lastTimestamp < timestamp) (value : Value)
    (policy : DuplicatePolicy) :
    store.upsert timestamp value policy =
      (store.append timestamp value).map fun (longer, _) => (longer, true) := by
  have behind : (store.isEmpty || decide (store.lastTimestamp < timestamp)) = true := by
    simpa using newer
  rw [upsert, if_pos behind]
  cases store.append timestamp value <;> rfl

def settled (store : Store) (timestamp key : Timestamp) (changed : Chunk)
    (split : Option (Chunk × Chunk)) (inserted : Bool) : Store :=
  let chunks := rewritten store.chunks key changed split
  { store with
    chunks := chunks
    lastValue := if timestamp = store.lastTimestamp then
        ((chunks.last?).map (·.2.lastSample.value)).getD store.lastValue
      else store.lastValue
    totalSamples := store.totalSamples + (if inserted then 1 else 0) }

section Covered

variable {timestamp key : Timestamp} {value : Value} {policy : DuplicatePolicy}
  {covering changed : Chunk} {inserted : Bool} {split : Option (Chunk × Chunk)}

theorem upsert_failed {refused : Error}
    (within : ¬ (store.isEmpty || decide (store.lastTimestamp < timestamp)) = true)
    (covered : store.covering? timestamp = some (key, covering))
    (failed : covering.upsert ⟨timestamp, value⟩ policy
      (store.config.compressedUpsert || timestamp = store.lastTimestamp) = .error refused) :
    store.upsert timestamp value policy = .error refused := by
  rw [upsert, if_neg within, covered]
  simp only [failed, bind, Except.bind]

theorem upsert_settled
    (within : ¬ (store.isEmpty || decide (store.lastTimestamp < timestamp)) = true)
    (covered : store.covering? timestamp = some (key, covering))
    (written : covering.upsert ⟨timestamp, value⟩ policy
      (store.config.compressedUpsert || timestamp = store.lastTimestamp) =
        .ok (changed, inserted))
    (halved : (if changed.needsSplit store.config.chunkSize then changed.split else .ok none) =
      .ok split) :
    store.upsert timestamp value policy =
      .ok (store.settled timestamp key changed split inserted, inserted) := by
  rw [upsert, if_neg within, covered]
  simp only [written, bind, Except.bind]
  by_cases grown : changed.needsSplit store.config.chunkSize = true
  · rw [if_pos grown] at halved ⊢
    rw [halved]
    cases split <;> rfl
  · rw [if_neg grown] at halved ⊢
    obtain rfl := Except.ok.inj halved
    rfl

end Covered

/-- A write to the run that a timestamp belongs to settles as a store that files its halves
in its place. -/
theorem files_settled {before after : List (List Sample)} {run changed : List Sample}
    {inserted : Bool} (files : Files store (before ++ run :: after)) (sample : Sample)
    (reached : sample.timestamp ≤ store.lastTimestamp)
    (below : ∀ other ∈ before.flatten, other.timestamp < sample.timestamp)
    (above : ∀ other ∈ after.flatten, sample.timestamp < other.timestamp)
    {policy : DuplicatePolicy} (written : write run sample policy = .ok (changed, inserted)) :
    ∃ split, (if (Chunk.ofRun store.config.encoding changed).needsSplit store.config.chunkSize
        then (Chunk.ofRun store.config.encoding changed).split else .ok none) = .ok split ∧
      Files (store.settled sample.timestamp (filed store.config.encoding run).1
          (Chunk.ofRun store.config.encoding changed) split inserted)
        (before ++ Chunk.halves store.config.encoding store.config.chunkSize changed ++ after) := by
  have whole : (before ++ run :: after).flatten = before.flatten ++ run ++ after.flatten := by
    simp
  obtain ⟨⟨value, one⟩, size⟩ := write_ok (increasing_run files (by simp)) written
  have nonempty : changed ≠ [] := one ▸ put_ne_nil _ _
  have flat : (before ++ Chunk.halves store.config.encoding store.config.chunkSize changed ++
      after).flatten = before.flatten ++ changed ++ after.flatten := by
    simp [Chunk.flatten_halves]
  have spread := put_between run ⟨sample.timestamp, value⟩ below above
  rw [← one, ← whole] at spread
  have shown := flat.trans spread.symm
  have increasing := increasing_put files.increasing ⟨sample.timestamp, value⟩
  rw [← shown] at increasing
  have filled : ∀ other ∈ before ++
      Chunk.halves store.config.encoding store.config.chunkSize changed ++ after,
      other ≠ [] := by
    intro other member
    rcases List.mem_append.mp member with front | behind
    · rcases List.mem_append.mp front with early | half
      · exact files.nonempty other (by simp [early])
      · exact Chunk.nonempty_halves _ nonempty _ other half
    · exact files.nonempty other (by simp [behind])
  have ordered := ordered_filed store.config.encoding filled increasing
  obtain ⟨split, halved, entries⟩ :=
    entries_rewritten store.config.chunkSize files.entries nonempty ordered
  refine ⟨split, halved, entries, filled, increasing, ?_, ?_⟩
  · have total : store.totalSamples + (if inserted then 1 else 0) =
        ((before.flatten ++ changed ++ after.flatten).length : Int) := by
      rw [files.total, whole]
      simp only [List.length_append, size]
      cases inserted
      · simp
      · simp [Int.add_right_comm, ← Int.add_assoc]
    rw [flat]
    exact total
  · exact last_rewritten files (by simp) ⟨sample.timestamp, value⟩ reached filled shown entries

/-- Whether a store refuses to write at a timestamp that is not behind its end. -/
def Locked (store : Store) (timestamp : Timestamp) : Prop :=
  store.config.encoding = .compressed ∧ store.config.compressedUpsert = false ∧
    timestamp < store.lastTimestamp

instance (store : Store) (timestamp : Timestamp) : Decidable (Locked store timestamp) :=
  inferInstanceAs (Decidable (_ ∧ _ ∧ _))

theorem locked_iff (reached : sample.timestamp ≤ store.lastTimestamp) :
    Locked store sample.timestamp ↔ store.config.encoding = .compressed ∧
      (store.config.compressedUpsert || sample.timestamp = store.lastTimestamp) = false := by
  have early : sample.timestamp < store.lastTimestamp ↔
      ¬ sample.timestamp = store.lastTimestamp :=
    ⟨UInt64.ne_of_lt, UInt64.lt_of_le_of_ne reached⟩
  simp [Locked, early]

theorem not_newer (files : Files store runs) (filled : runs ≠ []) {timestamp : Timestamp}
    (reached : timestamp ≤ store.lastTimestamp) :
    ¬ (store.isEmpty || decide (store.lastTimestamp < timestamp)) = true := by
  have some : store.isEmpty ≠ true := fun empty => filled ((is_empty_eq files).mp empty)
  simp [some, UInt64.not_lt.mpr reached]

theorem upsert_locked (files : Files store runs) (filled : runs ≠ []) (sample : Sample)
    (reached : sample.timestamp ≤ store.lastTimestamp)
    (locked : Locked store sample.timestamp) (policy : DuplicatePolicy) :
    store.upsert sample.timestamp sample.value policy =
      .error (.upsertUnsupported .compressed) := by
  have within := not_newer files filled reached
  obtain ⟨before, run, after, parts, covered, _, _⟩ :=
    covering_files files filled sample.timestamp
  subst parts
  have refused := Chunk.upsert_run store.config.encoding (files.nonempty run (by simp))
    (increasing_run files (by simp)) sample policy
    (store.config.compressedUpsert || sample.timestamp = store.lastTimestamp)
  rw [if_pos ((locked_iff reached).mp locked)] at refused
  exact upsert_failed within covered refused

/-- Where it is not refused, a write that is not behind the end of a store is one write of
its timeline: it fails for the same reason, or it leaves a store of what that leaves. -/
theorem upsert_files (files : Files store runs) (filled : runs ≠ []) (sample : Sample)
    (reached : sample.timestamp ≤ store.lastTimestamp)
    (unlocked : ¬ Locked store sample.timestamp) (policy : DuplicatePolicy) :
    match write runs.flatten sample policy with
    | .error refused => store.upsert sample.timestamp sample.value policy = .error refused
    | .ok (changed, inserted) => ∃ after kept,
        store.upsert sample.timestamp sample.value policy = .ok (after, inserted) ∧
          Files after kept ∧ kept.flatten = changed ∧ after.config = store.config := by
  have within := not_newer files filled reached
  obtain ⟨before, run, after, parts, covered, below, above⟩ :=
    covering_files files filled sample.timestamp
  subst parts
  have placed := Chunk.upsert_run store.config.encoding (files.nonempty run (by simp))
    (increasing_run files (by simp)) sample policy
    (store.config.compressedUpsert || sample.timestamp = store.lastTimestamp)
  rw [if_neg fun shut => unlocked ((locked_iff reached).mpr shut)] at placed
  have whole : (before ++ run :: after).flatten = before.flatten ++ run ++ after.flatten := by
    simp
  rw [whole, write_between policy below above]
  cases written : write run sample policy with
  | error refused =>
      rw [written] at placed
      exact upsert_failed within covered placed
  | ok result =>
      obtain ⟨changed, inserted⟩ := result
      rw [written] at placed
      obtain ⟨split, halved, settledFiles⟩ :=
        files_settled files sample reached below above written
      refine ⟨_, _, upsert_settled within covered placed halved, settledFiles, ?_, rfl⟩
      simp [Chunk.flatten_halves]

end Write

end Store

end Chronicle

import Chronicle.Proofs.Store.Append
import Chronicle.Proofs.Store.Upsert
import Chronicle.Store.Range

/-!
What a read yields. A read decodes only the chunks that can hold a sample of its span, which
comes to the same as reading all of them: it yields the samples of its span that are in the
retention window, in the direction asked for, and it never fails.
-/

namespace Chronicle

def keptFrom (retention : Duration) (newest : Timestamp) : Timestamp :=
  if retention = 0 then 0 else windowStart newest retention

namespace Span

/-- The samples of a span, in the direction of the read. -/
def choose (span : Span) (samples : List Sample) : List Sample :=
  (span.order samples).filter fun sample => span.covers sample.timestamp

theorem filter_order (span : Span) (keep : Sample → Bool) (samples : List Sample) :
    (span.order samples).filter keep = span.order (samples.filter keep) := by
  unfold order
  split
  · exact List.filter_reverse
  · rfl

theorem choose_always (samples : List Sample) : always.choose samples = samples := by
  rw [choose, order, if_neg (by decide), List.filter_eq_self]
  intro sample _
  have bound := sample.timestamp.toNat_lt
  have below : sample.timestamp ≤ 0xffffffffffffffff := by
    rw [UInt64.le_iff_toNat_le]
    exact Nat.le_of_lt_succ bound
  simp [covers, always, below]

end Span

namespace Feed

theorem of_chunks_runs (encoding : ChunkEncoding) (keep : Sample → Bool)
    {runs : List (List Sample)} (nonempty : ∀ run ∈ runs, run ≠ []) (reverse : Bool) :
    ofChunks reverse keep (runs.map (Chunk.ofRun encoding)) =
      ((runs.flatMap fun run => if reverse then run.reverse else run).filter keep).map .ok := by
  induction runs with
  | nil => rfl
  | cons run later ih =>
      have shown := Chunk.samples_run encoding (nonempty run List.mem_cons_self)
      have others := ih fun run member => nonempty run (List.mem_cons_of_mem _ member)
      rw [List.map_cons, ofChunks, shown]
      dsimp only
      rw [others, List.flatMap_cons, List.filter_append, List.map_append]

/-- Reading chunks in a direction, each in the same direction, is reading their samples so. -/
theorem of_chunks_ordered (encoding : ChunkEncoding) (keep : Sample → Bool)
    {runs : List (List Sample)} (nonempty : ∀ run ∈ runs, run ≠ []) (span : Span) :
    ofChunks span.reverse keep
        (if span.reverse then (runs.map (Chunk.ofRun encoding)).reverse
          else runs.map (Chunk.ofRun encoding)) =
      ((span.order runs.flatten).filter keep).map .ok := by
  unfold Span.order
  cases span.reverse with
  | false =>
      have shown := of_chunks_runs encoding keep nonempty false
      simpa [List.flatMap_id'] using shown
  | true =>
      have backwards : ∀ run ∈ runs.reverse, run ≠ [] :=
        fun run member => nonempty run (List.mem_reverse.mp member)
      have shown := of_chunks_runs encoding keep backwards true
      simpa [List.flatMap_def, List.reverse_flatten] using shown

theorem collect_ok (samples : List Sample) : collect (samples.map .ok) = .ok samples := by
  unfold collect
  induction samples with
  | nil => rfl
  | cons sample later ih =>
      simp only [List.map_cons, List.mapM_cons, ih, id, bind, Except.bind]
      rfl

end Feed

namespace Store

open Timeline

variable {store : Store} {runs : List (List Sample)}

/-- A chunk that is passed over at the beginning of a read ended before its start. -/
theorem before_seek (files : Files store runs) {run : List Sample} (member : run ∈ runs)
    {start : Timestamp} (passed : (filed store.config.encoding run).1 < store.seek start) :
    ∀ sample ∈ run, sample.timestamp < start := by
  unfold seek at passed
  have listed : filed store.config.encoding run ∈ store.chunks.entries := by
    rw [files.entries]
    exact List.mem_map_of_mem member
  cases floor : store.chunks.floor? start with
  | none =>
      have above := SortedMap.floor?_none floor listed
      rw [Std.isLE_compare] at above
      rw [floor] at passed
      exact absurd (UInt64.le_of_lt passed) above
  | some found =>
      obtain ⟨inside, reached⟩ := SortedMap.floor?_some floor
      rw [files.entries] at inside
      obtain ⟨last, among, rfl⟩ := List.mem_map.mp inside
      rw [Std.isLE_compare] at reached
      rw [floor] at passed
      have apart := before_next_key store.config.encoding files.nonempty files.increasing
      obtain ⟨before, after, parts⟩ := List.append_of_mem among
      rw [parts] at apart member
      obtain ⟨_, behind, across⟩ := List.pairwise_append.mp apart
      rcases List.mem_append.mp member with early | rest
      · intro sample within
        exact UInt64.lt_of_lt_of_le (across run early last List.mem_cons_self sample within) reached
      · -- a run from there on does not begin before it
        exfalso
        rcases List.mem_cons.mp rest with rfl | late
        · exact UInt64.lt_irrefl _ passed
        · obtain ⟨first, within, key⟩ :=
            Chunk.first_mem_run store.config.encoding (files.nonempty last among)
          have order := (List.pairwise_cons.mp behind).1 run late first within
          rw [← key] at order
          exact UInt64.lt_asymm order passed

/-- Runs that hold nothing of what is looked for may be passed over. -/
theorem filter_passed {chosen : List Sample → Bool} {keep : Sample → Bool}
    (nothing : ∀ run ∈ runs, chosen run = false → ∀ sample ∈ run, keep sample = false) :
    (runs.filter chosen).flatten.filter keep = runs.flatten.filter keep := by
  induction runs with
  | nil => rfl
  | cons run later ih =>
      have others := ih fun run member => nothing run (List.mem_cons_of_mem _ member)
      cases chose : chosen run with
      | true =>
          rw [List.filter_cons_of_pos chose, List.flatten_cons, List.filter_append, others,
            List.flatten_cons, List.filter_append]
      | false =>
          have none : run.filter keep = [] := by
            rw [List.filter_eq_nil_iff]
            intro sample inside
            simp [nothing run List.mem_cons_self chose sample inside]
          rw [List.filter_cons_of_neg (by simp [chose]), others, List.flatten_cons,
            List.filter_append, none, List.nil_append]

def keyWithin (encoding : ChunkEncoding) (low high : Timestamp) (run : List Sample) : Bool :=
  decide (low ≤ (filed encoding run).1) && decide ((filed encoding run).1 ≤ high)

theorem between_files (files : Files store runs) (low high : Timestamp) :
    store.chunks.between low high =
      (runs.filter (keyWithin store.config.encoding low high)).map
        (Chunk.ofRun store.config.encoding) := by
  rw [SortedMap.between, files.entries, List.filter_map, List.map_map]
  congr 1
  apply List.filter_congr
  intro run _
  rw [Bool.eq_iff_iff]
  simp only [keyWithin, Function.comp_apply, Bool.and_eq_true, Std.isLE_compare,
    decide_eq_true_eq]

theorem range_files (files : Files store runs) (span : Span) :
    store.range span = ((span.order runs.flatten).filter fun sample =>
      (store.visible span).covers sample.timestamp).map .ok := by
  unfold range
  dsimp only
  split
  · rename_i none
    have uncovered : (span.order runs.flatten).filter
        (fun sample => (store.visible span).covers sample.timestamp) = [] := by
      rw [List.filter_eq_nil_iff]
      intro sample _ covered
      rw [Span.covers, Bool.and_eq_true, decide_eq_true_eq, decide_eq_true_eq] at covered
      exact absurd (UInt64.le_trans covered.1 covered.2) (UInt64.not_le.mpr none)
    rw [uncovered]
    rfl
  · have nonempty : ∀ run ∈ runs.filter (keyWithin store.config.encoding
        (store.seek (store.visible span).start) (store.visible span).stop), run ≠ [] :=
      fun run member => files.nonempty run (List.mem_filter.mp member).1
    rw [← seek, between_files files, Feed.of_chunks_ordered _ _ nonempty, Span.filter_order,
      Span.filter_order, filter_passed]
    intro run member passed sample inside
    rw [keyWithin, Bool.and_eq_false_iff, decide_eq_false_iff_not, decide_eq_false_iff_not,
      UInt64.not_le, UInt64.not_le] at passed
    rw [Span.covers, Bool.and_eq_false_iff, decide_eq_false_iff_not, decide_eq_false_iff_not,
      UInt64.not_le, UInt64.not_le]
    rcases passed with early | late
    · exact Or.inl (before_seek files member early sample inside)
    · have begun := (Chunk.within_run store.config.encoding (increasing_run files member)
        inside).1
      exact Or.inr (UInt64.lt_of_lt_of_le late begun)

/-- The samples that a store still shows. -/
def window (store : Store) (samples : List Sample) : List Sample :=
  since (keptFrom store.config.retention store.lastTimestamp) samples

theorem covers_visible (filled : store.isEmpty = false) (span : Span) (timestamp : Timestamp) :
    (store.visible span).covers timestamp =
      (decide (keptFrom store.config.retention store.lastTimestamp ≤ timestamp) &&
        span.covers timestamp) := by
  unfold visible keptFrom Span.covers
  by_cases unlimited : store.config.retention = 0
  · simp [unlimited]
  · simp only [unlimited, filled, decide_false, Bool.or_self, Bool.false_eq_true, if_false]
    rw [Bool.eq_iff_iff]
    simp only [Bool.and_eq_true, decide_eq_true_eq]
    split
    · rename_i early
      constructor
      · rintro ⟨kept, ended⟩
        exact ⟨kept, UInt64.le_of_lt (UInt64.lt_of_lt_of_le early kept), ended⟩
      · rintro ⟨kept, _, ended⟩
        exact ⟨kept, ended⟩
    · rename_i late
      constructor
      · rintro ⟨begun, ended⟩
        exact ⟨UInt64.le_trans (UInt64.not_lt.mp late) begun, begun, ended⟩
      · rintro ⟨_, begun, ended⟩
        exact ⟨begun, ended⟩

/-- A read yields the samples of its span that the store still shows. -/
theorem range_window (files : Files store runs) (span : Span) :
    store.range span = (span.choose (store.window runs.flatten)).map .ok := by
  rw [range_files files, Span.filter_order, Span.choose, Span.filter_order, window,
    since, List.filter_filter]
  cases empty : store.isEmpty with
  | true =>
      have none := (is_empty_eq files).mp empty
      rw [none]
      rfl
  | false => simp only [covers_visible empty, Bool.and_comm]

end Store

end Chronicle

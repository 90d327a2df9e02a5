import Chronicle.Proofs.Chunk.Size
import Chronicle.Proofs.Series.Change
import Chronicle.Proofs.Store.Origin

/-!
Chunks and the byte budget. A chunk that only grew at its end stays within the budget that
was in force when it last grew. A rewrite can take it a fifth beyond, and no further as long
as every sample takes the same room: then one split is always enough.
-/

namespace Chronicle

namespace StoreChange

def budget? : StoreChange → Option Nat
  | .setChunkSize bytes => some bytes
  | _ => none

def isUpsert : StoreChange → Bool
  | .upsert _ _ _ => true
  | _ => false

end StoreChange

namespace Store

open Timeline

/-- The budgets that have been in force. -/
def budgets (config : StoreConfig) (changes : List StoreChange) : List Nat :=
  config.chunkSize :: changes.filterMap StoreChange.budget?

def largestBudget (config : StoreConfig) (changes : List StoreChange) : Nat :=
  (budgets config changes).max (List.cons_ne_nil _ _)

theorem config_upsert {store after : Store} {timestamp : Timestamp} {value : Value}
    {policy : DuplicatePolicy} {inserted : Bool}
    (upserted : store.upsert timestamp value policy = .ok (after, inserted)) :
    after.config = store.config := by
  by_cases newer : store.isEmpty = true ∨ store.lastTimestamp < timestamp
  · obtain ⟨trimmed, appended⟩ := appended_of_newer newer upserted
    exact config_append appended
  · exact (end_upsert newer upserted).1

theorem chunk_size_change (store : Store) (change : StoreChange) :
    (store.change change).config.chunkSize = change.budget?.getD store.config.chunkSize := by
  cases change with
  | append timestamp value =>
      cases appended : store.append timestamp value with
      | error refused => simp only [Store.change, appended, StoreChange.budget?, Option.getD_none]
      | ok result =>
          simp only [Store.change, appended, StoreChange.budget?, Option.getD_none,
            config_append appended]
  | upsert timestamp value policy =>
      cases upserted : store.upsert timestamp value policy with
      | error refused => simp only [Store.change, upserted, StoreChange.budget?, Option.getD_none]
      | ok result =>
          simp only [Store.change, upserted, StoreChange.budget?, Option.getD_none,
            config_upsert upserted]
  | trim now => exact congrArg StoreConfig.chunkSize (config_trim store now)
  | setRetention retention => rfl
  | setChunkSize bytes => rfl

theorem chunk_size_mem_budgets (config : StoreConfig) (changes : List StoreChange) :
    ((new config).changed changes).config.chunkSize ∈ budgets config changes := by
  induction changes using List.reverseRecOn with
  | nil => exact List.mem_cons_self
  | append_singleton before change ih =>
      have longer : budgets config (before ++ [change]) =
          budgets config before ++ change.budget?.toList := by
        cases set : change.budget? <;> simp [budgets, set]
      rw [changed_append, chunk_size_change, longer, List.mem_append]
      cases change.budget? with
      | none => exact Or.inl ih
      | some bytes => exact Or.inr List.mem_cons_self

theorem budgets_subset (config : StoreConfig) (before after : List StoreChange) :
    budgets config before ⊆ budgets config (before ++ after) := by
  intro budget member
  rw [budgets, List.filterMap_append, ← List.cons_append]
  exact List.mem_append_left _ member

theorem largest_budget_mono (config : StoreConfig) (before after : List StoreChange) :
    largestBudget config before ≤ largestBudget config (before ++ after) :=
  List.le_max_of_mem (budgets_subset config before after (List.max_mem _))

theorem chunk_size_le (config : StoreConfig) (before after : List StoreChange) :
    ((new config).changed before).config.chunkSize ≤ largestBudget config (before ++ after) :=
  Nat.le_trans (List.le_max_of_mem (chunk_size_mem_budgets config before))
    (largest_budget_mono config before after)

theorem min_le_of_checked {bytes : Nat} (checked : checkChunkSize bytes = .ok ()) :
    48 ≤ bytes := by
  unfold checkChunkSize at checked
  split at checked
  · rename_i allowed
    exact allowed.1
  · exact nomatch checked

section Made

variable {store : Store} {runs : List (List Sample)} {chunk : Chunk}

theorem exists_run (files : Files store runs) (among : chunk ∈ store.chunks.values) :
    ∃ run ∈ runs, chunk = Chunk.ofRun store.config.encoding run := by
  rw [values_eq files] at among
  obtain ⟨run, member, same⟩ := List.mem_map.mp among
  exact ⟨run, member, same.symm⟩

theorem run_among (files : Files store runs) {run : List Sample} (member : run ∈ runs) :
    Chunk.ofRun store.config.encoding run ∈ store.chunks.values := by
  rw [values_eq files]
  exact List.mem_map_of_mem member

theorem covering_mem {timestamp key : Timestamp}
    (covered : store.covering? timestamp = some (key, chunk)) : chunk ∈ store.chunks.values := by
  rcases Option.or_eq_some_iff.mp covered with found | ⟨_, first⟩
  · exact List.mem_map_of_mem (SortedMap.floor?_some found).1
  · rw [← SortedMap.head?_entries] at first
    exact List.mem_map_of_mem (List.mem_of_head? first)

theorem upserted_run {encoding : ChunkEncoding} {run : List Sample} {sample : Sample}
    {policy : DuplicatePolicy} {rebuild inserted : Bool} {changed : Chunk} (nonempty : run ≠ [])
    (increasing : Increasing run)
    (written : (Chunk.ofRun encoding run).upsert sample policy rebuild = .ok (changed, inserted)) :
    ∃ next, changed = Chunk.ofRun encoding next ∧ next ≠ [] ∧ next.length ≤ run.length + 1 := by
  rw [Chunk.upsert_run encoding nonempty increasing] at written
  split at written
  · exact nomatch written
  · cases placed : write run sample policy with
    | error refused =>
        rw [placed] at written
        exact nomatch written
    | ok result =>
        rw [placed] at written
        obtain ⟨same, _⟩ := Prod.mk.inj (Except.ok.inj written)
        obtain ⟨⟨value, one⟩, length⟩ := write_ok increasing placed
        refine ⟨result.1, same.symm, one ▸ put_ne_nil run _, ?_⟩
        rw [length]
        split <;> omega

/-- The chunks that a change can make of the runs that a store files: a run of one sample, a
run with room and one sample more, a run that needs no split, and half of one that did. -/
inductive MakesRun (store : Store) (runs : List (List Sample)) (change : StoreChange)
    (chunk : Chunk) : Prop where
  | opened (sample : Sample) (made : chunk = Chunk.ofRun store.config.encoding [sample])
  | pushed {run : List Sample} (sample : Sample) (member : run ∈ runs)
      (room : (Chunk.ofRun store.config.encoding run).isFull store.config.chunkSize = false)
      (made : chunk = Chunk.ofRun store.config.encoding (run ++ [sample]))
  | whole {run : List Sample} (nonempty : run ≠ []) (upserts : change.isUpsert = true)
      (small : (Chunk.ofRun store.config.encoding run).needsSplit store.config.chunkSize = false)
      (made : chunk = Chunk.ofRun store.config.encoding run)
  | half {run half : List Sample} (nonempty : half ≠ []) (upserts : change.isUpsert = true)
      (member : run ∈ runs) (short : 2 * half.length ≤ run.length + 2)
      (left : LeavesHalf store change chunk)
      (made : chunk = Chunk.ofRun store.config.encoding half)

theorem makes_run (files : Files store runs) {change : StoreChange}
    (made : Makes store change chunk) : MakesRun store runs change chunk := by
  cases made with
  | opened _ sample => exact .opened sample (Chunk.of_sample_run _ sample)
  | pushed _ sample among room =>
      obtain ⟨run, member, rfl⟩ := exists_run files among
      exact .pushed sample member room (Chunk.push_run _ (files.nonempty run member) sample)
  | rewritten covered written whole =>
      obtain ⟨run, member, rfl⟩ := exists_run files (covering_mem covered)
      obtain ⟨next, rfl, nonempty, _⟩ :=
        upserted_run (files.nonempty run member) (increasing_run files member) written
      refine .whole nonempty rfl ?_ rfl
      -- a run that needs a split has samples for both halves, so it would have been split
      by_contra grown
      rw [Bool.not_eq_false] at grown
      rw [if_pos grown, Chunk.split_run _ (Chunk.several_of_needs_split _ nonempty grown)] at whole
      exact nomatch whole
  | halved left =>
      cases left with
      | of_upsert covered written grown split part =>
          obtain ⟨run, member, rfl⟩ := exists_run files (covering_mem covered)
          obtain ⟨next, rfl, nonempty, length⟩ :=
            upserted_run (files.nonempty run member) (increasing_run files member) written
          have several := Chunk.several_of_needs_split _ nonempty grown
          have halves := Chunk.nonempty_parts several
          have left := LeavesHalf.of_upsert covered written grown split part
          rw [Chunk.split_run _ several] at split
          obtain ⟨rfl, rfl⟩ := Prod.mk.inj (Option.some.inj (Except.ok.inj split))
          rcases part with rfl | rfl
          · refine .half halves.1 rfl member ?_ left rfl
            rw [List.length_take]
            omega
          · refine .half halves.2 rfl member ?_ left rfl
            rw [List.length_drop]
            omega

end Made

section Bounds

variable {config : StoreConfig} {changes : List StoreChange}

theorem size_appended (valid : ∀ budget ∈ budgets config changes, checkChunkSize budget = .ok ())
    (appends : ∀ change ∈ changes, change.isUpsert = false) :
    ∀ chunk ∈ ((new config).changed changes).chunks.values,
      chunk.size ≤ largestBudget config changes := by
  intro chunk among
  obtain ⟨before, change, after, parts, made⟩ := exists_origin config changes among
  obtain ⟨runs, files, _, _⟩ := changed_files (files_new config) before
  have within := chunk_size_le config before (change :: after)
  have least := min_le_of_checked (valid _ (List.max_mem (List.cons_ne_nil _ _)))
  have quiet := appends change (by simp [parts])
  rw [← parts] at within
  change 48 ≤ largestBudget config changes at least
  cases makes_run files made with
  | opened sample same =>
      rw [same, ← Chunk.of_sample_run, Chunk.size_of_sample]
      omega
  | pushed sample member room same =>
      have nonempty := files.nonempty _ member
      rw [same, ← Chunk.push_run _ nonempty]
      exact Nat.le_trans (Chunk.size_push_le _ nonempty room sample) within
  | whole _ upserts => simp [quiet] at upserts
  | half _ upserts => simp [quiet] at upserts

/-- Samples that all take the same room fit again after one split. -/
theorem size_of_uncompressed (uncompressed : config.encoding = .uncompressed) :
    ∀ chunk ∈ ((new config).changed changes).chunks.values,
      (∀ budget ∈ budgets config changes, checkChunkSize budget = .ok ()) →
        5 * chunk.size ≤ 6 * largestBudget config changes := by
  refine of_origin config (fun changes chunk =>
    (∀ budget ∈ budgets config changes, checkChunkSize budget = .ok ()) →
      5 * chunk.size ≤ 6 * largestBudget config changes) ?_ changes
  intro before change after chunk older made valid
  obtain ⟨runs, files, encoding, _⟩ := changed_files (files_new config) before
  have within := chunk_size_le config before (change :: after)
  have least := min_le_of_checked (valid _ (List.max_mem (List.cons_ne_nil _ _)))
  change 48 ≤ largestBudget config (before ++ change :: after) at least
  have same : ((new config).changed before).config.encoding = .uncompressed :=
    encoding.trans uncompressed
  cases makes_run files made with
  | opened sample made =>
      rw [made, same, Chunk.size_uncompressed, List.length_singleton]
      omega
  | pushed sample member room made =>
      have nonempty := files.nonempty _ member
      have grown := Chunk.size_push_le _ nonempty room sample
      rw [Chunk.push_run _ nonempty] at grown
      rw [made]
      omega
  | whole nonempty _ small made =>
      rw [made]
      rcases Chunk.size_of_whole _ nonempty small with single | fits
      · rw [same, Chunk.size_uncompressed, single]
        omega
      · omega
  | @half run part nonempty _ member short left made =>
      have earlier := older _ (run_among files member) fun budget inForce =>
        valid budget (budgets_subset config before _ inForce)
      have larger := largest_budget_mono config before (change :: after)
      rw [same, Chunk.size_uncompressed] at earlier
      -- one sample came to a run that was within the bound, and half of that many are left
      rw [made, same, Chunk.size_uncompressed]
      omega

end Bounds

/-- Chunks that are only appended to stay within the largest budget so far, and chunks that
hold their samples as they stand within a fifth more, whatever is written. One more sample
adds at most the bytes that are allowed for it to a compressed chunk whose window is at most
82 bits wide, and all windows that pushing leads to are at most 64 bits wide. -/
theorem chunks_within_budget (config : StoreConfig) (changes : List StoreChange)
    (valid : ∀ budget ∈ budgets config changes, checkChunkSize budget = .ok ()) :
    ((∀ change ∈ changes, change.isUpsert = false) →
      ∀ chunk ∈ ((new config).changed changes).chunks.values,
        chunk.size ≤ largestBudget config changes) ∧
    (config.encoding = .uncompressed →
      ∀ chunk ∈ ((new config).changed changes).chunks.values,
        5 * chunk.size ≤ 6 * largestBudget config changes) ∧
    (∀ (run : CompressedChunk) (sample : Sample), run.values.width.toNat ≤ 82 →
      ((Chunk.compressed run).push sample).size ≤
        (Chunk.compressed run).size + maxCompressedSampleBytes) ∧
    ∀ first later, (CompressedChunk.ofSamples first later).values.width.toNat ≤ 64 := by
  refine ⟨size_appended valid, ?_, Chunk.size_push_narrow, ?_⟩
  · intro uncompressed chunk among
    exact size_of_uncompressed uncompressed chunk among valid
  · intro first later
    exact WindowState.width_le_of_inside (CompressedChunk.inside_of_samples first later)

/-- A compressed store whose budget is raised and lowered again, and an uncompressed one with
writes between those that it has. -/
theorem chunks_within_budget_resized :
    let values : List StoreChange := [.append 1 ⟨0x3ff0000000000000⟩,
      .append 2 ⟨0x7ff8000000000001⟩, .setChunkSize 64, .append 70000 ⟨0x4000000000000000⟩,
      .append 70001 .zero, .setChunkSize 48, .append 90000 ⟨1⟩, .trim 90000]
    let rewrites : List StoreChange := [.append 10 .zero, .append 20 .zero, .append 30 .zero,
      .upsert 15 .zero .last, .upsert 5 .zero .last, .setChunkSize 64, .upsert 7 .zero .last]
    let compressed : StoreConfig := ⟨.compressed, 48, 10, false⟩
    let uncompressed : StoreConfig := ⟨.uncompressed, 48, 0, false⟩
    (∀ budget ∈ budgets compressed values, checkChunkSize budget = .ok ()) ∧
      (∀ change ∈ values, change.isUpsert = false) ∧
      (∀ chunk ∈ ((new compressed).changed values).chunks.values, chunk.size ≤ 64) ∧
      (∀ budget ∈ budgets uncompressed rewrites, checkChunkSize budget = .ok ()) ∧
      ∀ chunk ∈ ((new uncompressed).changed rewrites).chunks.values, 5 * chunk.size ≤ 6 * 64 := by
  intro values rewrites compressed uncompressed
  have valid : ∀ budget ∈ budgets compressed values, checkChunkSize budget = .ok () := by decide
  have appends : ∀ change ∈ values, change.isUpsert = false := by decide
  have allowed : ∀ budget ∈ budgets uncompressed rewrites, checkChunkSize budget = .ok () := by
    decide
  have raised : largestBudget compressed values = 64 := by decide
  have enlarged : largestBudget uncompressed rewrites = 64 := by decide
  have appended := (chunks_within_budget compressed values valid).1 appends
  have rewritten := (chunks_within_budget uncompressed rewrites allowed).2.1 rfl
  rw [raised] at appended
  rw [enlarged] at rewritten
  exact ⟨valid, appends, appended, allowed, rewritten⟩

/-- In a run with a wider window, which no writer leads to but which can be read from a file,
a sample can take one byte more than it is allowed. -/
theorem wide_window_outgrows :
    let wide : CompressedChunk :=
      { CompressedChunk.ofSample ⟨0, .zero⟩ with values := ⟨0, 0, 0, 83⟩ }
    ((Chunk.compressed wide).push ⟨1000000000000000, ⟨0x3ff0000000000000⟩⟩).size =
      (Chunk.compressed wide).size + maxCompressedSampleBytes + 1 := by
  decide +kernel

end Store

end Chronicle

import Chronicle.Proofs.Store.Budget

/-!
Halves of rewritten compressed chunks. A rewrite can widen the window of every sample behind
it, and the split that follows halves the samples and not the bytes, so a half can be beyond
the budget. Nothing else can, and since every sample takes some bits before the rewrite and
only so many after it, a half is never beyond a fixed multiple of the budget.
-/

namespace Chronicle

namespace Store

variable {config : StoreConfig} {changes : List StoreChange}

/-- That one of some changes left a chunk as one of two halves. -/
def LeftHalf (config : StoreConfig) (changes : List StoreChange) (chunk : Chunk) : Prop :=
  ∃ before change after, changes = before ++ change :: after ∧
    LeavesHalf ((new config).changed before) change chunk

theorem constant_budget (config : StoreConfig) {before after : List StoreChange}
    (constant : ∀ change ∈ before ++ after, change.budget? = none) :
    ((new config).changed before).config.chunkSize = config.chunkSize := by
  have unset : before.filterMap StoreChange.budget? = [] :=
    List.filterMap_eq_nil_iff.mpr fun change member =>
      constant change (List.mem_append_left _ member)
  have member := chunk_size_mem_budgets config before
  rw [budgets, unset] at member
  exact List.mem_singleton.mp member

/-- How full a chunk is under a constant budget. A chunk within a fifth of it has only so many
samples, since each takes two bits or more, and a half has at most half as many and one. -/
structure Filled (config : StoreConfig) (changes : List StoreChange) (chunk : Chunk) : Prop where
  count : 5 * chunk.count + 315 ≤ 24 * config.chunkSize
  size : 5 * chunk.size ≤ 6 * config.chunkSize ∨
    LeftHalf config changes chunk ∧ 10 * chunk.count + 305 ≤ 24 * config.chunkSize

theorem filled_of_size {run : List Sample} (nonempty : run ≠ [])
    (fits : 5 * (Chunk.ofRun .compressed run).size ≤ 6 * config.chunkSize) :
    Filled config changes (Chunk.ofRun .compressed run) where
  count := by
    have bits := (Chunk.size_compressed nonempty).1
    rw [Chunk.count_run _ nonempty]
    omega
  size := Or.inl fits

theorem filled_changed (compressed : config.encoding = .compressed)
    (valid : checkChunkSize config.chunkSize = .ok ()) :
    ∀ chunk ∈ ((new config).changed changes).chunks.values,
      (∀ change ∈ changes, change.budget? = none) → Filled config changes chunk := by
  refine of_origin config (fun changes chunk =>
    (∀ change ∈ changes, change.budget? = none) → Filled config changes chunk) ?_ changes
  intro before change after chunk older made constant
  obtain ⟨runs, files, encoding, _⟩ := changed_files (files_new config) before
  have least := min_le_of_checked valid
  have budget := constant_budget config constant
  have same : ((new config).changed before).config.encoding = .compressed :=
    encoding.trans compressed
  cases makes_run files made with
  | opened sample made =>
      have single : (Chunk.ofRun .compressed [sample]).size = 16 := rfl
      rw [made, same]
      exact filled_of_size (by simp) (by omega)
  | @pushed run sample member room made =>
      have nonempty := files.nonempty run member
      have grown := Chunk.size_push_le _ nonempty room sample
      rw [Chunk.push_run _ nonempty, budget, same] at grown
      rw [made, same]
      exact filled_of_size (by simp) (by omega)
  | @whole run nonempty _ small made =>
      rw [same, budget] at small
      rw [made, same]
      refine filled_of_size nonempty ?_
      rcases Chunk.size_of_whole _ nonempty small with single | fits
      · have most := (Chunk.size_compressed nonempty).2
        omega
      · exact fits
  | @half run part nonempty _ member short left made =>
      have earlier := older _ (run_among files member) fun change inForce =>
        constant change (List.mem_append_left _ inForce)
      -- the count carries over to the half, the size does not
      have many := earlier.count
      rw [Chunk.count_run _ (files.nonempty run member)] at many
      have half : LeftHalf config (before ++ change :: after) chunk :=
        ⟨before, change, after, rfl, left⟩
      rw [made, same] at half ⊢
      have length := Chunk.count_run .compressed nonempty
      exact ⟨by omega, Or.inr ⟨half, by omega⟩⟩

/-- In a compressed store of a constant budget a chunk of any number of samples is within a
fifth of the budget, unless it is one of the two halves in which some write left a chunk that
it had rewritten. Halves are within 44 times the budget. -/
theorem rewritten_within_fifth_or_halved (config : StoreConfig) (changes : List StoreChange)
    (compressed : config.encoding = .compressed)
    (valid : checkChunkSize config.chunkSize = .ok ())
    (constant : ∀ change ∈ changes, change.budget? = none) :
    ∀ chunk ∈ ((new config).changed changes).chunks.values,
      5 * chunk.size ≤ 6 * config.chunkSize ∨
        LeftHalf config changes chunk ∧ 5 * chunk.size ≤ 219 * config.chunkSize := by
  intro chunk among
  obtain ⟨runs, files, encoding, _⟩ := changed_files (files_new config) changes
  obtain ⟨run, member, same⟩ := exists_run files among
  have filled := filled_changed compressed valid chunk among constant
  refine filled.size.imp_right ?_
  rintro ⟨half, few⟩
  refine ⟨half, ?_⟩
  have nonempty := files.nonempty run member
  have compact : ((new config).changed changes).config.encoding = .compressed :=
    encoding.trans compressed
  rw [same, compact] at few ⊢
  rw [Chunk.count_run _ nonempty] at few
  have most := (Chunk.size_compressed nonempty).2
  omega

/-- Values that differ in their lowest bit, and then one before them that differs from the
first of them in the highest bit too. -/
def widening : List StoreChange :=
  (List.range 11).map (fun step => .append (UInt64.ofNat (100 + step)) ⟨UInt64.ofNat (step % 2)⟩) ++
    [.upsert 99 ⟨0x8000000000000001⟩ .last]

theorem rewritten_within_fifth_or_halved_widening :
    let config : StoreConfig := ⟨.compressed, 48, 0, true⟩
    checkChunkSize config.chunkSize = .ok () ∧ (∀ change ∈ widening, change.budget? = none) ∧
      ∀ chunk ∈ ((new config).changed widening).chunks.values,
        5 * chunk.size ≤ 6 * config.chunkSize ∨
          LeftHalf config widening chunk ∧ 5 * chunk.size ≤ 219 * config.chunkSize := by
  intro config
  have valid : checkChunkSize config.chunkSize = .ok () := by decide
  have constant : ∀ change ∈ widening, change.budget? = none := by decide
  exact ⟨valid, constant, rewritten_within_fifth_or_halved config widening rfl valid constant⟩

/-- The lower half keeps the sample that widened the window, and with it more bytes than the
split was to leave. -/
theorem half_outgrows_fifth :
    let config : StoreConfig := ⟨.compressed, 48, 0, true⟩
    ((new config).changed widening).chunks.values.map (fun chunk => (chunk.count, chunk.size)) =
        [(6, 61), (6, 21)] ∧
      ¬ ∀ chunk ∈ ((new config).changed widening).chunks.values,
        2 ≤ chunk.count → 5 * chunk.size ≤ 6 * config.chunkSize := by
  decide +kernel

end Store

end Chronicle

import Chronicle.Proofs.Snapshot.Newest

/-!
Snapshots in the order of their moments. Where every moment is written in one way, the moments
stand for the files: the snapshot of the greatest one is read, whatever other files there are,
and a snapshot is removed to make room exactly if as many later ones are to be kept.
-/

namespace Chronicle

namespace Snapshot

theorem timestamp_of_scratch_name (timestamp : Timestamp) :
    timestampOf? (scratchName timestamp) = none := by
  rw [timestampOf?, scratchName, String.toList_append]
  rfl

theorem file_name_inj {one other : Timestamp} (same : fileName one = fileName other) :
    one = other := by
  have moment := timestamp_of_file_name one
  rw [same, timestamp_of_file_name] at moment
  exact (Option.some.inj moment).symm

theorem scratch_name_ne (timestamp other : Timestamp) : scratchName timestamp ≠ fileName other := by
  intro same
  have moment := timestamp_of_file_name other
  rw [← same, timestamp_of_scratch_name] at moment
  exact nomatch moment

end Snapshot

namespace Directory

variable {directory : Directory} {timestamp : Timestamp}

/-- That the moments in the names of a directory have neither signs nor leading zeros. -/
def Canonical (directory : Directory) : Prop :=
  ∀ name timestamp, directory.contains name = true →
    Snapshot.timestampOf? name = some timestamp → name = Snapshot.fileName timestamp

def Has (directory : Directory) (timestamp : Timestamp) : Prop :=
  directory.contains (Snapshot.fileName timestamp) = true

def moments (directory : Directory) : List Timestamp :=
  directory.keys.filterMap Snapshot.timestampOf?

def later (directory : Directory) (timestamp : Timestamp) : Nat :=
  directory.moments.countP (timestamp < ·)

/-- That a moment is the greatest that there is a snapshot of. -/
structure Latest (directory : Directory) (timestamp : Timestamp) : Prop where
  has : directory.Has timestamp
  last : ∀ other, directory.Has other → other ≤ timestamp

section Canonical

variable (canonical : directory.Canonical)

include canonical

theorem snapshots_have {name : String} (member : (timestamp, name) ∈ directory.snapshots) :
    name = Snapshot.fileName timestamp ∧ directory.Has timestamp := by
  obtain ⟨present, moment⟩ := mem_snapshots.mp member
  obtain rfl := canonical name timestamp present moment
  exact ⟨rfl, present⟩

theorem exists_latest : (∀ timestamp, ¬ directory.Has timestamp) ∨
    ∃ timestamp, directory.Latest timestamp := by
  have listed : ∀ other, directory.Has other → ∃ name, (other, name) ∈ directory.snapshots :=
    fun other has => ⟨_, mem_snapshots.mpr ⟨has, Snapshot.timestamp_of_file_name other⟩⟩
  have ordered := directory.snapshots_ordered
  cases all : directory.snapshots with
  | nil =>
      refine Or.inl fun other has => ?_
      obtain ⟨name, member⟩ := listed other has
      rw [all] at member
      exact absurd member List.not_mem_nil
  | cons first older =>
      have here : (first.1, first.2) ∈ directory.snapshots := all ▸ List.mem_cons_self
      refine Or.inr ⟨first.1, (snapshots_have canonical here).2, fun other has => ?_⟩
      obtain ⟨name, member⟩ := listed other has
      rw [all] at member ordered
      rcases List.mem_cons.mp member with same | behind
      · rw [← same]
        exact UInt64.le_refl _
      · exact (List.pairwise_cons.mp ordered).1 _ behind

theorem newest_of_latest (latest : ∀ other, directory.Has other → other ≤ timestamp)
    {bytes : Bytes} (present : directory.get? (Snapshot.fileName timestamp) = some bytes) :
    directory.Newest (Snapshot.fileName timestamp) timestamp bytes where
  moment := Snapshot.timestamp_of_file_name timestamp
  content := present
  last := by
    intro other earlier contained different moment
    obtain rfl := canonical other earlier contained moment
    refine UInt64.lt_of_le_of_ne (latest earlier contained) ?_
    rintro rfl
    exact different rfl

/-- The file that is read is that of the greatest moment. -/
theorem newest_snapshot_latest (latest : ∀ other, directory.Has other → other ≤ timestamp)
    {bytes : Bytes} (present : directory.get? (Snapshot.fileName timestamp) = some bytes)
    (path : String) : directory.newestSnapshot path =
      (Snapshot.ofBytes (path ++ "/" ++ Snapshot.fileName timestamp) bytes).map fun series =>
        some (Snapshot.fileName timestamp, series) :=
  newest_snapshot_eq (newest_of_latest canonical latest present) path

theorem newest_snapshot_none (none : ∀ timestamp, ¬ directory.Has timestamp) (path : String) :
    directory.newestSnapshot path = .ok .none := by
  have empty : directory.snapshots = [] := by
    apply List.eq_nil_iff_forall_not_mem.mpr
    rintro ⟨timestamp, name⟩ member
    exact none timestamp (snapshots_have canonical member).2
  rw [newestSnapshot, empty]
  rfl

/-- What is read depends on the snapshots alone: other files, among them unfinished ones, play
no part. -/
theorem newest_snapshot_agree {other : Directory} (plain : other.Canonical)
    (same : ∀ timestamp, other.get? (Snapshot.fileName timestamp) =
      directory.get? (Snapshot.fileName timestamp)) (path : String) :
    other.newestSnapshot path = directory.newestSnapshot path := by
  have has : ∀ timestamp, other.Has timestamp ↔ directory.Has timestamp := by
    intro timestamp
    rw [Has, Has, SortedMap.contains, SortedMap.contains, same]
  rcases exists_latest canonical with none | ⟨timestamp, latest⟩
  · rw [newest_snapshot_none canonical none,
      newest_snapshot_none plain fun timestamp found => none timestamp ((has timestamp).mp found)]
  · obtain ⟨bytes, present⟩ := (SortedMap.contains_iff _ _).mp latest.has
    rw [newest_snapshot_latest canonical latest.last present,
      newest_snapshot_latest plain (fun moment found => latest.last moment ((has moment).mp found))
        ((same timestamp).trans present)]

end Canonical

def ranking (directory : Directory) : List Timestamp := directory.snapshots.map (·.1)

theorem ranking_perm (directory : Directory) : directory.ranking.Perm directory.moments := by
  have sorted := (List.mergeSort_perm (directory.keys.filterMap fun name =>
    (Snapshot.timestampOf? name).map fun timestamp => (timestamp, name))
      fun earlier later => later.1 ≤ earlier.1).map (·.1)
  rw [List.map_filterMap] at sorted
  simp only [Option.map_map, Function.comp_def, Option.map_id'] at sorted
  exact sorted

/-- In a falling list a moment has so many before it as there are greater ones. -/
theorem mem_drop_iff {moments : List Timestamp}
    (falling : moments.Pairwise fun earlier later => later < earlier) (count : Nat) :
    timestamp ∈ moments.drop count ↔
      timestamp ∈ moments ∧ count ≤ moments.countP (timestamp < ·) := by
  induction moments generalizing count with
  | nil => simp
  | cons first rest ih =>
      obtain ⟨below, fallingRest⟩ := List.pairwise_cons.mp falling
      cases count with
      | zero => simp
      | succ count =>
          rw [List.drop_succ_cons, ih fallingRest count, List.mem_cons, List.countP_cons]
          by_cases among : timestamp ∈ rest
          · have before : decide (timestamp < first) = true := decide_eq_true (below _ among)
            simp [among, before]
          · have least : rest.countP (first < ·) = 0 := by
              rw [List.countP_eq_zero]
              intro other member
              simpa using UInt64.le_of_lt (below other member)
            constructor
            · exact fun inside => absurd inside.1 among
            · rintro ⟨here | inside, many⟩
              · simp [here, least] at many
              · exact absurd inside among

section Ranks

variable (canonical : directory.Canonical)

include canonical

theorem ranking_falling :
    directory.ranking.Pairwise fun earlier later => later < earlier := by
  have apart := directory.snapshots_ordered.and directory.snapshots_nodup
  refine List.pairwise_map.mpr (apart.imp_of_mem ?_)
  rintro ⟨one, name⟩ ⟨other, otherName⟩ first second ⟨order, different⟩
  refine UInt64.lt_of_le_of_ne order ?_
  rintro rfl
  rw [(snapshots_have canonical first).1, (snapshots_have canonical second).1] at different
  exact different rfl

theorem mem_ranking : timestamp ∈ directory.ranking ↔ directory.Has timestamp := by
  constructor
  · intro member
    obtain ⟨⟨_, name⟩, listed, rfl⟩ := List.mem_map.mp member
    exact (snapshots_have canonical listed).2
  · intro has
    have listed := mem_snapshots.mpr ⟨has, Snapshot.timestamp_of_file_name timestamp⟩
    exact List.mem_map_of_mem listed

theorem snapshots_eq : directory.snapshots =
    directory.ranking.map fun timestamp => (timestamp, Snapshot.fileName timestamp) := by
  rw [ranking, List.map_map]
  refine (List.map_id _).symm.trans (List.map_congr_left ?_)
  rintro ⟨timestamp, name⟩ member
  rw [Function.comp_apply, ← (snapshots_have canonical member).1]
  rfl

/-- A snapshot is one too many exactly if as many later ones are to be kept. -/
theorem mem_surplus {name : String} (keep : Nat) : name ∈ directory.surplus keep ↔
    ∃ timestamp, name = Snapshot.fileName timestamp ∧ directory.Has timestamp ∧
      max keep 1 ≤ directory.later timestamp := by
  have rank (timestamp : Timestamp) : timestamp ∈ directory.ranking.drop (max keep 1) ↔
      directory.Has timestamp ∧ max keep 1 ≤ directory.later timestamp := by
    rw [mem_drop_iff (ranking_falling canonical), mem_ranking canonical, later,
      directory.ranking_perm.countP_eq]
  rw [surplus, snapshots_eq canonical, ← List.map_drop, List.map_map, List.mem_map]
  simp only [rank, Function.comp_apply, eq_comm, and_comm]

/-- What making room does to a directory: it removes every snapshot but the ones of the
greatest moments, touches no other file, and what is read stays the same. -/
structure Prunes (directory : Directory) (keep : Nat) (path : String) : Prop where
  snapshot : ∀ timestamp, (directory.prune keep).1.get? (Snapshot.fileName timestamp) =
    if directory.later timestamp < max keep 1 then directory.get? (Snapshot.fileName timestamp)
    else none
  other : ∀ name, (∀ timestamp, name ≠ Snapshot.fileName timestamp) →
    (directory.prune keep).1.get? name = directory.get? name
  removed : (directory.prune keep).2 = directory.moments.length - max keep 1
  newest : (directory.prune keep).1.newestSnapshot path = directory.newestSnapshot path

omit canonical in
theorem get?_prune (keep : Nat) (name : String) : (directory.prune keep).1.get? name =
    if name ∈ directory.surplus keep then none else directory.get? name :=
  get?_erase_all _ _

omit canonical in
theorem contains_of_prune {keep : Nat} {name : String}
    (present : (directory.prune keep).1.contains name = true) : directory.contains name = true := by
  rw [SortedMap.contains, get?_prune] at present
  split at present
  · cases present
  · exact present

theorem canonical_prune (keep : Nat) : (directory.prune keep).1.Canonical :=
  fun name timestamp present => canonical name timestamp (contains_of_prune present)

theorem get?_prune_snapshot (keep : Nat) (timestamp : Timestamp) :
    (directory.prune keep).1.get? (Snapshot.fileName timestamp) =
      if directory.later timestamp < max keep 1 then directory.get? (Snapshot.fileName timestamp)
      else none := by
  rw [get?_prune]
  by_cases early : directory.later timestamp < max keep 1
  · rw [if_pos early, if_neg]
    intro removed
    obtain ⟨moment, same, _, many⟩ := (mem_surplus canonical keep).mp removed
    obtain rfl := Snapshot.file_name_inj same
    omega
  · rw [if_neg early]
    split
    · rfl
    · rename_i kept
      cases held : directory.get? (Snapshot.fileName timestamp) with
      | none => rfl
      | some bytes =>
          have has : directory.Has timestamp := (SortedMap.contains_iff _ _).mpr ⟨bytes, held⟩
          have surplus := (mem_surplus canonical keep).mpr
            ⟨timestamp, rfl, has, Nat.le_of_not_lt early⟩
          exact absurd surplus kept

theorem prunes (keep : Nat) (path : String) : directory.Prunes keep path where
  snapshot := get?_prune_snapshot canonical keep
  other := by
    intro name foreign
    rw [get?_prune, if_neg]
    intro removed
    obtain ⟨timestamp, same, _⟩ := (mem_surplus canonical keep).mp removed
    exact foreign timestamp same
  removed := by
    rw [prune, surplus, List.length_map, List.length_drop, ← directory.ranking_perm.length_eq,
      ranking, List.length_map]
  newest := by
    rcases exists_latest canonical with none | ⟨timestamp, latest⟩
    · have noneAfter : ∀ moment, ¬ (directory.prune keep).1.Has moment :=
        fun moment present => none moment (contains_of_prune present)
      rw [newest_snapshot_none canonical none,
        newest_snapshot_none (canonical_prune canonical keep) noneAfter]
    · obtain ⟨bytes, present⟩ := (SortedMap.contains_iff _ _).mp latest.has
      have newest := newest_of_latest canonical latest.last present
      rw [newest_snapshot_eq newest, newest_snapshot_eq (newest_prune newest keep)]

end Ranks

end Directory

end Chronicle

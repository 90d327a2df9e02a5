import Chronicle.Proofs.Snapshot
import Mathlib.Data.List.Nodup

/-!
The newest snapshot of a directory. The name under which a snapshot is written tells its
moment, the snapshot of the latest moment is the one that is read, and of all that are removed
to make room it is never one.
-/

namespace Chronicle

open Text

namespace Snapshot

theorem drop_start_append (start rest : List Char) :
    dropStart? start (start ++ rest) = some rest := by
  induction start with
  | nil => rfl
  | cons letter start ih =>
      change (if letter = letter then dropStart? start (start ++ rest) else none) = some rest
      rw [if_pos rfl, ih]

theorem between_append (start middle stop : List Char) :
    between? start stop (start ++ middle ++ stop) = some middle := by
  have front := drop_start_append start (middle ++ stop)
  have back := drop_start_append stop.reverse middle.reverse
  rw [← List.reverse_append] at back
  rw [between?, List.append_assoc, front]
  simp only [Option.bind_eq_bind, Option.bind_some, back, List.reverse_reverse]

theorem timestamp_of_file_name (timestamp : Timestamp) :
    timestampOf? (fileName timestamp) = some timestamp := by
  rw [timestampOf?, fileName, String.toList_ofList, between_append]
  exact Decimal.read_signed_word_write timestamp

end Snapshot

namespace Directory

variable {directory : Directory} {name : String} {timestamp : Timestamp}

theorem mem_snapshots : (timestamp, name) ∈ directory.snapshots ↔
    directory.contains name = true ∧ Snapshot.timestampOf? name = some timestamp := by
  rw [snapshots, List.mem_mergeSort, List.mem_filterMap]
  constructor
  · rintro ⟨listed, member, named⟩
    obtain ⟨moment, read, same⟩ := Option.map_eq_some_iff.mp named
    obtain ⟨rfl, rfl⟩ := Prod.mk.inj same
    exact ⟨(SortedMap.mem_keys_iff _ _).mp member, read⟩
  · rintro ⟨listed, read⟩
    exact ⟨name, (SortedMap.mem_keys_iff _ _).mpr listed, by rw [read, Option.map_some]⟩

theorem snapshots_nodup (directory : Directory) : directory.snapshots.Nodup := by
  refine (List.mergeSort_perm _ _).nodup_iff.mpr ?_
  refine directory.keys_distinct.filterMap ?_
  intro listed other entry one another
  obtain ⟨_, _, rfl⟩ := Option.map_eq_some_iff.mp one
  obtain ⟨_, _, same⟩ := Option.map_eq_some_iff.mp another
  exact (Prod.mk.inj same).2.symm

/-- Of two snapshots the one that is listed first is not the older one. -/
theorem snapshots_ordered (directory : Directory) :
    directory.snapshots.Pairwise (fun earlier later => later.1 ≤ earlier.1) := by
  have ordered : directory.snapshots.Pairwise
      (fun earlier later => decide (later.1 ≤ earlier.1) = true) := by
    apply List.pairwise_mergeSort
    · intro _ _ _ first second
      simp only [decide_eq_true_eq] at first second ⊢
      exact UInt64.le_trans second first
    · intro one other
      simp only [Bool.or_eq_true, decide_eq_true_eq]
      exact UInt64.le_total other.1 one.1
  exact ordered.imp of_decide_eq_true

/-- That a file is the snapshot of a later moment than every other one. -/
structure Newest (directory : Directory) (name : String) (timestamp : Timestamp)
    (bytes : Bytes) : Prop where
  moment : Snapshot.timestampOf? name = some timestamp
  content : directory.get? name = some bytes
  last : ∀ other earlier, directory.contains other = true → other ≠ name →
    Snapshot.timestampOf? other = some earlier → earlier < timestamp

theorem snapshots_newest {bytes : Bytes} (newest : directory.Newest name timestamp bytes) :
    ∃ older, directory.snapshots = (timestamp, name) :: older := by
  have listed : (timestamp, name) ∈ directory.snapshots :=
    mem_snapshots.mpr ⟨(SortedMap.contains_iff _ _).mpr ⟨_, newest.content⟩, newest.moment⟩
  cases all : directory.snapshots with
  | nil =>
      rw [all] at listed
      exact absurd listed List.not_mem_nil
  | cons first older =>
      have ordered := directory.snapshots_ordered
      rw [all] at listed ordered
      rcases List.mem_cons.mp listed with here | behind
      · exact ⟨older, by rw [here]⟩
      · -- the first is no older than the newest, so it has the same name
        have reached := (List.pairwise_cons.mp ordered).1 _ behind
        have member : (first.1, first.2) ∈ directory.snapshots := all ▸ List.mem_cons_self
        obtain ⟨present, moment⟩ := mem_snapshots.mp member
        by_cases same : first.2 = name
        · rw [same, newest.moment] at moment
          exact ⟨older, by rw [Option.some.inj moment, ← same]⟩
        · have before := newest.last _ _ present same moment
          exact absurd (UInt64.lt_of_lt_of_le before reached) (UInt64.lt_irrefl _)

theorem snapshots_none
    (none : ∀ name, directory.contains name = true → Snapshot.timestampOf? name = none) :
    directory.snapshots = [] := by
  apply List.eq_nil_iff_forall_not_mem.mpr
  rintro ⟨moment, name⟩ member
  obtain ⟨present, read⟩ := mem_snapshots.mp member
  rw [none name present] at read
  exact nomatch read

theorem newest_snapshot_eq {bytes : Bytes} (newest : directory.Newest name timestamp bytes)
    (path : String) : directory.newestSnapshot path =
      (Snapshot.ofBytes (path ++ "/" ++ name) bytes).map fun series => some (name, series) := by
  obtain ⟨older, first⟩ := snapshots_newest newest
  rw [newestSnapshot, first, List.head?_cons]
  dsimp only
  rw [newest.content, Option.getD_some]
  cases Snapshot.ofBytes (path ++ "/" ++ name) bytes <;> rfl

theorem get?_erase_all (names : List String) (key : String) :
    (names.foldl SortedMap.erase directory).get? key =
      if key ∈ names then none else directory.get? key := by
  induction names generalizing directory with
  | nil => rfl
  | cons name later ih =>
      rw [List.foldl_cons, ih, SortedMap.get?_erase]
      by_cases here : key = name
      · simp [here]
      · simp [here]

/-- The newest snapshot is not removed to make room. -/
theorem newest_prune {bytes : Bytes} (newest : directory.Newest name timestamp bytes)
    (keep : Nat) : (directory.prune keep).1.Newest name timestamp bytes := by
  have kept : name ∉ directory.surplus keep := by
    obtain ⟨older, all⟩ := snapshots_newest newest
    have distinct := directory.snapshots_nodup
    intro removed
    obtain ⟨⟨moment, _⟩, dropped, rfl⟩ := List.mem_map.mp removed
    have read := (mem_snapshots.mp (List.mem_of_mem_drop dropped)).2
    rw [newest.moment] at read
    obtain rfl := Option.some.inj read
    rw [all] at distinct dropped
    have positive : max keep 1 = (max keep 1 - 1) + 1 := by omega
    rw [positive, List.drop_succ_cons] at dropped
    exact (List.nodup_cons.mp distinct).1 (List.mem_of_mem_drop dropped)
  refine ⟨newest.moment, ?_, ?_⟩
  · rw [prune, get?_erase_all, if_neg kept, newest.content]
  · intro other earlier present
    refine newest.last other earlier ?_
    rw [SortedMap.contains, prune, get?_erase_all] at present
    split at present
    · exact nomatch present
    · exact present

/-- A snapshot of a later moment than all others is the newest. -/
theorem newest_add_snapshot {timestamp : Timestamp}
    (later : ∀ name earlier, directory.contains name = true →
      Snapshot.timestampOf? name = some earlier → earlier < timestamp) (series : List Series) :
    (directory.addSnapshot timestamp series).Newest (Snapshot.fileName timestamp) timestamp
      (Snapshot.toBytes timestamp series) := by
  have written : (directory.write (Snapshot.scratchName timestamp)
      (Snapshot.toBytes timestamp series)).get? (Snapshot.scratchName timestamp) =
        some (Snapshot.toBytes timestamp series) := by
    rw [write, SortedMap.get?_insert, if_pos rfl]
  rw [addSnapshot, rename, written]
  dsimp only
  refine ⟨Snapshot.timestamp_of_file_name timestamp, ?_, ?_⟩
  · rw [SortedMap.get?_insert, if_pos rfl]
  · intro other earlier present different
    refine later other earlier ?_
    rw [SortedMap.contains, SortedMap.get?_insert, if_neg different,
      SortedMap.get?_erase] at present
    split at present
    · exact nomatch present
    · rename_i kept
      rwa [write, SortedMap.get?_insert, if_neg kept] at present

end Directory

end Chronicle

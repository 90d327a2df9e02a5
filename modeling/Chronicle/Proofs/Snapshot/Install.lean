import Chronicle.Proofs.Snapshot.Order

/-!
A directory of snapshots in use. A snapshot is written one file change after another, and
whichever of them is the last that is made, a reader finds what was there before or the whole
new snapshot: until the renaming only a file changes that is not taken for a snapshot.
-/

namespace Chronicle

inductive SnapshotCall where
  | create (timestamp : Timestamp) (series : List Series)
  /-- A snapshot of which only so much was written. -/
  | abandon (timestamp : Timestamp) (written : Bytes)
  | load
  | prune (keep : Nat)

namespace Directory

def called (directory : Directory) : SnapshotCall → Directory
  | .create timestamp series => directory.addSnapshot timestamp series
  | .abandon timestamp written => directory.write (Snapshot.scratchName timestamp) written
  | .load => directory
  | .prune keep => (directory.prune keep).1

def calledBy (directory : Directory) (calls : List SnapshotCall) : Directory :=
  calls.foldl called directory

variable {directory : Directory} {timestamp : Timestamp} {pieces : List Bytes}
  {series : List Series}

theorem changed_by_pieces (directory : Directory) (name : String) (held : Bytes)
    (pieces : List Bytes) :
    (pieces.map (.extend name)).foldl changed (directory.write name held) =
      directory.write name (held ++ pieces.flatten) := by
  induction pieces generalizing held with
  | nil => rw [List.flatten_nil, List.append_nil]; rfl
  | cons piece later ih =>
      have extended : (directory.write name held).changed (.extend name piece) =
          directory.write name (held ++ piece) := by
        rw [changed, write, write, SortedMap.get?_insert, if_pos rfl, Option.getD_some, write,
          SortedMap.insert_insert]
      rw [List.map_cons, List.foldl_cons, extended, ih, List.append_assoc, List.flatten_cons]

/-- Changes that stop before the renaming leave at most an unfinished file. -/
theorem installing_part (directory : Directory) (timestamp : Timestamp) {steps : Nat}
    (part : steps ≤ pieces.length + 1) :
    directory.installing timestamp pieces steps = directory ∨
      ∃ written, directory.installing timestamp pieces steps =
        directory.write (Snapshot.scratchName timestamp) written := by
  cases steps with
  | zero => exact Or.inl rfl
  | succ steps =>
      have fits : steps ≤ (pieces.map (FileChange.extend
          (Snapshot.scratchName timestamp))).length := by
        rw [List.length_map]
        omega
      refine Or.inr ⟨(pieces.take steps).flatten, ?_⟩
      rw [installing, installation, List.take_succ_cons, List.take_append_of_le_length fits,
        ← List.map_take]
      exact changed_by_pieces directory _ [] _

/-- All changes together write the snapshot. -/
theorem installing_whole (whole : pieces.flatten = Snapshot.toBytes timestamp series)
    {steps : Nat} (long : pieces.length + 1 < steps) :
    directory.installing timestamp pieces steps = directory.addSnapshot timestamp series := by
  have size : (installation timestamp pieces).length ≤ steps := by
    simp only [installation, List.length_cons, List.length_append, List.length_map,
      List.length_nil]
    omega
  have written := changed_by_pieces directory (Snapshot.scratchName timestamp) [] pieces
  rw [List.nil_append, whole] at written
  rw [installing, List.take_of_length_le size, installation, List.foldl_cons, List.foldl_append]
  exact congrArg (fun reached : Directory => reached.changed (.rename _ _)) written

theorem get?_write (directory : Directory) (name other : String) (bytes : Bytes) :
    (directory.write name bytes).get? other =
      if other = name then some bytes else directory.get? other :=
  SortedMap.get?_insert _ _ _ _

theorem get?_add_snapshot (directory : Directory) (timestamp : Timestamp) (series : List Series)
    (name : String) : (directory.addSnapshot timestamp series).get? name =
      if name = Snapshot.fileName timestamp then some (Snapshot.toBytes timestamp series)
      else if name = Snapshot.scratchName timestamp then none else directory.get? name := by
  have written := get?_write directory (Snapshot.scratchName timestamp)
    (Snapshot.scratchName timestamp) (Snapshot.toBytes timestamp series)
  rw [if_pos rfl] at written
  rw [addSnapshot, rename, written]
  dsimp only
  rw [SortedMap.get?_insert, SortedMap.get?_erase, get?_write]
  split
  · rfl
  · split <;> rfl

theorem get?_added (directory : Directory) (timestamp : Timestamp) (series : List Series)
    (moment : Timestamp) :
    (directory.addSnapshot timestamp series).get? (Snapshot.fileName moment) =
      if moment = timestamp then some (Snapshot.toBytes timestamp series)
      else directory.get? (Snapshot.fileName moment) := by
  rw [get?_add_snapshot, if_neg (Snapshot.scratch_name_ne timestamp moment).symm]
  by_cases same : moment = timestamp
  · rw [same, if_pos rfl, if_pos rfl]
  · rw [if_neg same, if_neg fun name => same (Snapshot.file_name_inj name)]

theorem has_added (series : List Series) (moment : Timestamp) :
    (directory.addSnapshot timestamp series).Has moment ↔
      moment = timestamp ∨ directory.Has moment := by
  rw [Has, SortedMap.contains, get?_added]
  split
  · rename_i same
    simp [same]
  · rename_i other
    simp only [other, false_or]
    rfl

theorem last_added {newest : Timestamp} (last : ∀ other, directory.Has other → other ≤ newest)
    (reached : timestamp ≤ newest) (series : List Series) :
    ∀ other, (directory.addSnapshot timestamp series).Has other → other ≤ newest := by
  intro other has
  rcases (has_added series other).mp has with rfl | old
  · exact reached
  · exact last other old

section Canonical

variable (canonical : directory.Canonical)

include canonical

theorem canonical_scratch (timestamp : Timestamp) (written : Bytes) :
    (directory.write (Snapshot.scratchName timestamp) written).Canonical := by
  intro name moment present told
  rw [SortedMap.contains, get?_write] at present
  split at present
  · rename_i here
    rw [here, Snapshot.timestamp_of_scratch_name] at told
    cases told
  · exact canonical name moment present told

theorem canonical_added (timestamp : Timestamp) (series : List Series) :
    (directory.addSnapshot timestamp series).Canonical := by
  intro name moment present told
  rw [SortedMap.contains, get?_add_snapshot] at present
  split at present
  · rename_i here
    rw [here, Snapshot.timestamp_of_file_name] at told
    rw [here, Option.some.inj told]
  · split at present
    · cases present
    · exact canonical name moment present told

theorem newest_scratch (timestamp : Timestamp) (written : Bytes) (path : String) :
    (directory.write (Snapshot.scratchName timestamp) written).newestSnapshot path =
      directory.newestSnapshot path := by
  refine newest_snapshot_agree canonical (canonical_scratch canonical timestamp written) ?_ path
  intro moment
  rw [get?_write, if_neg (Snapshot.scratch_name_ne timestamp moment).symm]

/-- A snapshot that is not of an earlier moment than another one is read as it was written. -/
theorem newest_added (storable : Snapshot.Storable series)
    (latest : ∀ other, directory.Has other → other ≤ timestamp) (path : String) :
    (directory.addSnapshot timestamp series).newestSnapshot path =
      .ok (some (Snapshot.fileName timestamp, series)) := by
  have present := (get?_added directory timestamp series timestamp).trans (if_pos rfl)
  have last := last_added latest (UInt64.le_refl timestamp) series
  rw [newest_snapshot_latest (canonical_added canonical timestamp series) last present,
    Snapshot.of_bytes_to_bytes storable]
  rfl

/-- A snapshot of an earlier moment than another one changes nothing in what is read. -/
theorem newest_added_before {moment : Timestamp} (has : directory.Has moment)
    (before : timestamp < moment) (series : List Series) (path : String) :
    (directory.addSnapshot timestamp series).newestSnapshot path =
      directory.newestSnapshot path := by
  rcases exists_latest canonical with none | ⟨newest, latest⟩
  · exact absurd has (none moment)
  have behind := UInt64.lt_of_lt_of_le before (latest.last moment has)
  obtain ⟨bytes, present⟩ := (SortedMap.contains_iff _ _).mp latest.has
  have stays := get?_added directory timestamp series newest
  rw [if_neg (UInt64.ne_of_lt behind).symm] at stays
  have last := last_added latest.last (UInt64.le_of_lt behind) series
  rw [newest_snapshot_latest canonical latest.last present,
    newest_snapshot_latest (canonical_added canonical timestamp series) last
      (stays.trans present)]

/-- Wherever the writing of a snapshot breaks off, what is read is what was read before or the
whole new snapshot. -/
theorem newest_installing (storable : Snapshot.Storable series)
    (whole : pieces.flatten = Snapshot.toBytes timestamp series) (steps : Nat) (path : String) :
    (directory.installing timestamp pieces steps).newestSnapshot path =
        directory.newestSnapshot path ∨
      (directory.installing timestamp pieces steps).newestSnapshot path =
        .ok (some (Snapshot.fileName timestamp, series)) := by
  by_cases part : steps ≤ pieces.length + 1
  · refine Or.inl ?_
    rcases installing_part directory timestamp part with same | ⟨written, unfinished⟩
    · rw [same]
    · rw [unfinished, newest_scratch canonical]
  · rw [installing_whole whole (Nat.not_le.mp part)]
    by_cases latest : ∀ other, directory.Has other → other ≤ timestamp
    · exact Or.inr (newest_added canonical storable latest path)
    · simp only [not_forall] at latest
      obtain ⟨moment, has, before⟩ := latest
      exact Or.inl (newest_added_before canonical has (UInt64.not_le.mp before) series path)

end Canonical

theorem canonical_called (canonical : directory.Canonical) (call : SnapshotCall) :
    (directory.called call).Canonical := by
  cases call with
  | create timestamp series => exact canonical_added canonical timestamp series
  | abandon timestamp written => exact canonical_scratch canonical timestamp written
  | load => exact canonical
  | prune keep => exact canonical_prune canonical keep

theorem canonical_called_by (canonical : directory.Canonical) (calls : List SnapshotCall) :
    (directory.calledBy calls).Canonical :=
  List.foldlRecOn calls called canonical fun _ kept call _ => canonical_called kept call

/-- How a directory of snapshots behaves, whatever else is in it. -/
structure Disciplined (directory : Directory) (path : String) : Prop where
  reads : ((∀ timestamp, ¬ directory.Has timestamp) ∧ directory.newestSnapshot path = .ok none) ∨
    ∃ timestamp bytes, directory.Latest timestamp ∧
      directory.get? (Snapshot.fileName timestamp) = some bytes ∧
      directory.newestSnapshot path =
        (Snapshot.ofBytes (path ++ "/" ++ Snapshot.fileName timestamp) bytes).map fun series =>
          some (Snapshot.fileName timestamp, series)
  ignores : ∀ other : Directory, other.Canonical →
    (∀ timestamp, other.get? (Snapshot.fileName timestamp) =
      directory.get? (Snapshot.fileName timestamp)) →
      other.newestSnapshot path = directory.newestSnapshot path
  creates : ∀ timestamp series, Snapshot.Storable series →
    (∀ other, directory.Has other → other ≤ timestamp) →
      (directory.addSnapshot timestamp series).newestSnapshot path =
        .ok (some (Snapshot.fileName timestamp, series))
  prunes : ∀ keep, directory.Prunes keep path
  installs : ∀ timestamp series pieces, Snapshot.Storable series →
    pieces.flatten = Snapshot.toBytes timestamp series →
      directory.installing timestamp pieces (pieces.length + 2) =
          directory.addSnapshot timestamp series ∧
        ∀ steps, (directory.installing timestamp pieces steps).newestSnapshot path =
            directory.newestSnapshot path ∨
          (directory.installing timestamp pieces steps).newestSnapshot path =
            .ok (some (Snapshot.fileName timestamp, series))

/-- Whatever files a directory holds to begin with, as long as the moments in their names are
written plainly, after any calls the snapshot of the greatest moment is the one that is read, a
new one of no earlier moment is read back as it was written, making room removes just the
oldest ones, and no reader ever finds a part of one. -/
theorem snapshots_disciplined (canonical : directory.Canonical) (calls : List SnapshotCall)
    (path : String) : (directory.calledBy calls).Disciplined path := by
  have plain := canonical_called_by canonical calls
  refine ⟨?_, fun _ other same => newest_snapshot_agree plain other same path,
    fun _ _ storable latest => newest_added plain storable latest path,
    fun keep => prunes plain keep path, ?_⟩
  · rcases exists_latest plain with none | ⟨timestamp, latest⟩
    · exact Or.inl ⟨none, newest_snapshot_none plain none path⟩
    · obtain ⟨bytes, present⟩ := (SortedMap.contains_iff _ _).mp latest.has
      have read := newest_snapshot_latest plain latest.last present path
      exact Or.inr ⟨timestamp, bytes, latest, present, read⟩
  · intro timestamp series pieces storable whole
    exact ⟨installing_whole whole (Nat.lt_succ_self _),
      fun steps => newest_installing plain storable whole steps path⟩

/-- Names that order as texts otherwise than as moments, and names of other files, among them
one that an abandoned snapshot has left. -/
def cluttered : Directory :=
  .ofList [("snapshot_9.bin", [9]), ("snapshot_10.bin", [1, 0]), ("snapshot_abc.bin", []),
    (".tmp_snapshot_12.bin", [0]), ("notes", [0])]

theorem snapshots_disciplined_cluttered :
    cluttered.Canonical ∧
      (cluttered.calledBy [.abandon 11 [0], .create 11 [], .prune 2, .load]).Disciplined
        "data" := by
  have plain : ∀ name ∈ cluttered.keys, (Snapshot.timestampOf? name).all
      fun timestamp => name = Snapshot.fileName timestamp := by
    decide +kernel
  have canonical : cluttered.Canonical := by
    intro name timestamp present told
    have written := plain name ((SortedMap.mem_keys_iff _ _).mpr present)
    rw [told, Option.all_some] at written
    exact of_decide_eq_true written
  exact ⟨canonical, snapshots_disciplined canonical _ _⟩

end Directory

end Chronicle

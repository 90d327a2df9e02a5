import Chronicle.Proofs.Series.Change
import Chronicle.Proofs.Series.Format
import Chronicle.Proofs.SortedMap
import Chronicle.Snapshot

/-!
Snapshots give their series back. A directory in which every snapshot holds series with keys
of their own stays so when snapshots of such series are added and old ones are removed.
-/

namespace Chronicle

namespace Snapshot

/-- That a snapshot of some series is one that words can hold. -/
structure Storable (series : List Series) : Prop where
  each : ∀ one ∈ series, one.Storable
  size : (payloadFormat.write series).length < UInt64.size

theorem of_bytes_to_bytes {series : List Series} (storable : Storable series) (path : String)
    (timestamp : Timestamp) : ofBytes path (toBytes timestamp series) = .ok series := by
  have header := Artifact.read_header_onto .snapshot (Bytes.ofNumber 8 timestamp.toNat ++
    Artifact.sealPayload (payloadFormat.write series))
  have moment := Bytes.read_number_of_number 8 timestamp.toNat
    (Artifact.sealPayload (payloadFormat.write series)) timestamp.toNat_lt
  have payload := Artifact.open_payload_seal .snapshot storable.size []
  rw [List.append_nil] at payload
  have filled : Series.format.Filled :=
    Format.filled_via (Format.filled_both Format.filled_text _) _ _
  have kept : payloadFormat.Keeps series := by
    refine Format.list_short filled ?_ storable.size
    intro one member
    exact Format.short_of_keeps (Series.format_keeps (storable.each one member))
  have readBack := kept []
  rw [List.append_nil] at readBack
  rw [ofBytes, toBytes, List.append_assoc, header]
  simp only [locate, Except.mapError, bind, Except.bind, Bytes.readNumber, moment, payload,
    Format.readAll, readBack]
  rfl

/-- That a file, if it is a snapshot, holds no two series with one key. -/
def Distinct (bytes : Bytes) : Prop :=
  ∀ path series, ofBytes path bytes = .ok series → (series.map (·.key)).Nodup

theorem distinct_to_bytes {series : List Series} (storable : Storable series)
    (distinct : (series.map (·.key)).Nodup) (timestamp : Timestamp) :
    Distinct (toBytes timestamp series) := by
  intro path read same
  rw [of_bytes_to_bytes storable] at same
  rwa [← Except.ok.inj same]

end Snapshot

namespace Directory

variable {directory : Directory}

section Every

variable {holds : Bytes → Prop} (every : directory.Every fun _ bytes => holds bytes)

include every

theorem every_add_snapshot {timestamp : Timestamp} {series : List Series}
    (new : holds (Snapshot.toBytes timestamp series)) :
    (directory.addSnapshot timestamp series).Every fun _ bytes => holds bytes := by
  have written : (directory.write (Snapshot.scratchName timestamp)
      (Snapshot.toBytes timestamp series)).Every fun _ bytes => holds bytes :=
    SortedMap.every_insert every new
  unfold addSnapshot rename
  split
  · rename_i bytes present
    exact SortedMap.every_insert (SortedMap.every_erase written _) (written _ bytes present)
  · exact written

theorem every_prune (keep : Nat) : (directory.prune keep).1.Every fun _ bytes => holds bytes := by
  apply List.foldlRecOn
    (motive := fun rest : Directory => rest.Every fun _ bytes => holds bytes)
  · exact every
  · intro rest kept name _
    exact SortedMap.every_erase kept name

theorem every_newest {path name : String} {series : List Series}
    (read : directory.newestSnapshot path = .ok (some (name, series))) :
    ∃ bytes place, holds bytes ∧ Snapshot.ofBytes place bytes = .ok series := by
  unfold newestSnapshot at read
  split at read
  · exact nomatch read
  · rename_i newest first
    obtain ⟨found, opened, kept⟩ := exists_of_bind_ok read
    obtain ⟨rfl, rfl⟩ := Prod.mk.inj (Option.some.inj (Except.ok.inj kept))
    cases present : directory.get? newest with
    | none =>
        rw [present, Option.getD_none] at opened
        exact nomatch opened
    | some bytes =>
        rw [present, Option.getD_some] at opened
        exact ⟨bytes, _, every newest bytes present, opened⟩

end Every

def Distinct (directory : Directory) : Prop :=
  directory.Every fun _ bytes => Snapshot.Distinct bytes

theorem distinct_add_snapshot (distinct : directory.Distinct) {series : List Series}
    (storable : Snapshot.Storable series) (keys : (series.map (·.key)).Nodup)
    (timestamp : Timestamp) : (directory.addSnapshot timestamp series).Distinct :=
  every_add_snapshot distinct (Snapshot.distinct_to_bytes storable keys timestamp)

theorem distinct_prune (distinct : directory.Distinct) (keep : Nat) :
    (directory.prune keep).1.Distinct := every_prune distinct keep

theorem distinct_newest (distinct : directory.Distinct) {path name : String}
    {series : List Series} (read : directory.newestSnapshot path = .ok (some (name, series))) :
    (series.map (·.key)).Nodup := by
  obtain ⟨bytes, place, held, opened⟩ := every_newest distinct read
  exact held place series opened

end Directory

end Chronicle

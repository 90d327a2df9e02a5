import Chronicle.Proofs.Engine.Atomic
import Chronicle.Proofs.Engine.Reply
import Chronicle.Proofs.Engine.Search
import Chronicle.Proofs.Query.Tight
import Chronicle.Proofs.Snapshot.Newest

/-!
Engines that come back from a snapshot. The index that is built anew from the series of a
snapshot is the one that the engine had kept through all its edits, so what comes back is the
engine itself, and it goes on as the engine would have.
-/

namespace Chronicle

namespace Engine

variable {engine : Engine}

theorem tight_replace_all (engine : Engine) (series : List Series) :
    (engine.replaceAll series).index.Tight := by
  apply List.foldlRecOn (motive := fun next : Engine => next.index.Tight)
  · exact LabelIndex.tight_empty
  · intro next tight one _
    exact LabelIndex.tight_add tight one.key one.labels

theorem series_replace_all (named : engine.series.Every fun key one => one.key = key)
    (other : Engine) : (other.replaceAll engine.series.values).series = engine.series := by
  have entered : ∀ (entries : List (String × Series)) (start : Engine),
      (∀ entry ∈ entries, entry.2.key = entry.1) →
      ((entries.map (·.2)).foldl enroll start).series =
        entries.foldl (fun map entry => map.insert entry.1 entry.2) start.series := by
    intro entries
    induction entries with
    | nil => exact fun _ _ => rfl
    | cons entry later ih =>
        intro start named
        have here := named entry List.mem_cons_self
        rw [List.map_cons, List.foldl_cons, List.foldl_cons,
          ih _ fun other member => named other (List.mem_cons_of_mem _ member), enroll, here]
  rw [replaceAll, SortedMap.values, entered]
  · exact SortedMap.ofList_entries engine.series
  · intro entry member
    exact named entry.1 entry.2 ((engine.series.mem_entries_iff _ _).mp member)

/-- An engine with the same settings that takes in the series of another one becomes that
engine. -/
theorem replace_all_eq (coherent : engine.Coherent) (tight : engine.index.Tight) {other : Engine}
    (config : other.config = engine.config) :
    other.replaceAll engine.series.values = engine := by
  have series := series_replace_all coherent.named other
  have rebuilt := coherent_replace_all other (distinct_values coherent.named)
  have index : (other.replaceAll engine.series.values).index = engine.index := by
    refine LabelIndex.eq_of_files rebuilt.filed (tight_replace_all other _) ?_ tight
    have same : (other.replaceAll engine.series.values).labels = engine.labels := by
      funext key
      rw [labels, labels, series]
    rw [same]
    exact coherent.filed
  have settings := (Session.config_replace_all other engine.series.values).trans config
  cases restored : other.replaceAll engine.series.values
  rw [restored] at series index settings
  cases engine
  exact Engine.mk.injEq .. ▸ ⟨settings, series, index⟩

end Engine

theorem Action.query_index_same {session other : Session} (filters : List Predicate)
    (same : other.engine = session.engine) :
    ((queryIndex filters).perform other).1 = ((queryIndex filters).perform session).1 := by
  cases found : session.engine.index.resolve filters with
  | error refused =>
      rw [perform_query_index_error (same ▸ found), perform_query_index_error found]
  | ok keys => rw [perform_query_index_ok (same ▸ found), perform_query_index_ok found]

namespace Session

section Tight

variable {session after : Session} {accepted : List Accepted}

theorem tight_delivered {source : String} {flush : Flush}
    (delivered : session.Delivered source flush after) (tight : session.engine.index.Tight) :
    after.engine.index.Tight := by
  cases delivered <;> exact tight

theorem tight_grow (grow : Grow session accepted after) (tight : session.engine.index.Tight) :
    after.engine.index.Tight := by
  cases grow with
  | rejected | answered | vanished => exact tight
  | created | fed => exact LabelIndex.tight_add tight _ _
  | @wrote key old new _ _ _ written present taken =>
      have stored : (session.stored key new written).engine.index.Tight := tight
      apply deliveries_keep (motive := fun session => session.engine.index.Tight) _ _ stored
      intro before next flush delivered held
      exact tight_delivered delivered held

theorem tight_outcome {operation : Operation} (outcome : Outcome session operation after)
    (tight : session.engine.index.Tight) : after.engine.index.Tight := by
  cases outcome with
  | same | linked | cut | saved => exact tight
  | grown grows growth =>
      apply growth.keeps (motive := fun session => session.engine.index.Tight) _ tight
      intro before next written grow held
      exact tight_grow grow held
  | @altered key alteration old new present taken =>
      unfold Session.altered
      dsimp only
      split
      · exact LabelIndex.tight_add (LabelIndex.tight_remove tight key old.labels) key new.labels
      · exact tight
  | @removed _ key gone => exact LabelIndex.tight_remove tight key gone.labels
  | loaded => exact LabelIndex.tight_add tight _ _
  | restored => exact Engine.tight_replace_all session.engine _

theorem tight_run (operations : List Operation) (tight : session.engine.index.Tight) :
    (session.run operations).engine.index.Tight := by
  induction operations generalizing session with
  | nil => exact tight
  | cons operation later ih => exact ih (tight_outcome (outcome operation session) tight)

theorem tight_reached (reached : session.Reached) : session.engine.index.Tight := by
  obtain ⟨config, directory, operations, _, _, rfl⟩ := reached
  exact tight_run operations LabelIndex.tight_empty

end Tight

section Restore

open Chronicle.Action

variable {session : Session} (enabled : session.engine.config.snapshotsEnabled = true)

include enabled

theorem perform_snapshot (timestamp : Timestamp) :
    (snapshot timestamp).perform session = (.ok (), session.saved timestamp) := by
  have required := perform_require_snapshots session
  rw [if_pos enabled] at required
  exact perform_bind_ok required

theorem perform_restore : restore.perform session =
    match session.directory.newestSnapshot session.engine.config.snapshotPath with
    | .error refused => (.error refused, session)
    | .ok none => (.ok 0, session)
    | .ok (some (name, series)) => (.ok series.length, session.restored name series) := by
  have required := perform_require_snapshots session
  rw [if_pos enabled] at required
  have held : (get : Action Session).perform session = (.ok session, session) := rfl
  rw [restore, perform_bind_ok required, perform_bind_ok held]
  cases read : session.directory.newestSnapshot session.engine.config.snapshotPath with
  | error refused => exact perform_bind_error (perform_of_except _ session)
  | ok found =>
      rw [perform_bind_ok (perform_of_except _ session)]
      cases found <;> rfl

theorem restore_none
    (bare : ∀ name, session.directory.contains name = true → Snapshot.timestampOf? name = none) :
    restore.perform session = (.ok 0, session) := by
  have empty : session.directory.newestSnapshot session.engine.config.snapshotPath = .ok none := by
    rw [Directory.newestSnapshot, Directory.snapshots_none bare]
    rfl
  rw [perform_restore enabled, empty]

section Newest

variable {name : String} {timestamp : Timestamp} {bytes : Bytes}
  (newest : session.directory.Newest name timestamp bytes)

include newest

theorem restore_refused {refused : Error}
    (damaged : Snapshot.ofBytes (session.engine.config.snapshotPath ++ "/" ++ name) bytes =
      .error refused) : restore.perform session = (.error refused, session) := by
  rw [perform_restore enabled, Directory.newest_snapshot_eq newest, damaged]
  rfl

theorem restore_read {series : List Series}
    (read : Snapshot.ofBytes (session.engine.config.snapshotPath ++ "/" ++ name) bytes =
      .ok series) :
    restore.perform session = (.ok series.length, session.restored name series) := by
  rw [perform_restore enabled, Directory.newest_snapshot_eq newest, read]
  rfl

end Newest

end Restore

/-- A snapshot of a later moment than all others makes every engine with the same settings,
whatever it went through, the engine that it was taken of, as long as no other snapshot is of a
later moment: the restore tells how many series there are, the engine is the same in all its
parts, and it answers whatever it is asked for afterwards as that engine would. Without any
snapshot, and where the newest is refused, a restore changes nothing. -/
theorem snapshot_restores (session : Session) (reached : session.Reached)
    (enabled : session.engine.config.snapshotsEnabled = true) (timestamp : Timestamp)
    (storable : Snapshot.Storable session.engine.series.values)
    (later : ∀ name earlier, session.directory.contains name = true →
      Snapshot.timestampOf? name = some earlier → earlier < timestamp) :
    (∃ taken, (Action.snapshot timestamp).perform session = (.ok (), taken) ∧
      taken.engine = session.engine ∧
      taken.directory.Newest (Snapshot.fileName timestamp) timestamp
        (Snapshot.toBytes timestamp session.engine.series.values)) ∧
    ∀ other : Session, other.engine.config = session.engine.config →
      (other.directory.Newest (Snapshot.fileName timestamp) timestamp
          (Snapshot.toBytes timestamp session.engine.series.values) →
        ∃ after, Action.restore.perform other = (.ok session.engine.series.size, after) ∧
          after.engine = session.engine ∧ after.directory = other.directory ∧
          (∀ filters, ((Action.queryIndex filters).perform after).1 =
            ((Action.queryIndex filters).perform session).1) ∧
          ∀ twin : Session, twin.engine = session.engine → twin.directory = other.directory →
            ∀ operations, after.replies operations = twin.replies operations) ∧
      ((∀ name, other.directory.contains name = true → Snapshot.timestampOf? name = none) →
        Action.restore.perform other = (.ok 0, other)) ∧
      ∀ name moment bytes refused, other.directory.Newest name moment bytes →
        Snapshot.ofBytes (other.engine.config.snapshotPath ++ "/" ++ name) bytes =
          .error refused →
        Action.restore.perform other = (.error refused, other) := by
  refine ⟨⟨_, perform_snapshot enabled timestamp, rfl, ?_⟩, ?_⟩
  · exact Directory.newest_prune (Directory.newest_add_snapshot later _) _
  intro other config
  have enabledOther : other.engine.config.snapshotsEnabled = true := config ▸ enabled
  refine ⟨fun newest => ?_, restore_none enabledOther, ?_⟩
  · have read := Snapshot.of_bytes_to_bytes storable
      (other.engine.config.snapshotPath ++ "/" ++ Snapshot.fileName timestamp) timestamp
    have count : session.engine.series.values.length = session.engine.series.size := by
      rw [SortedMap.values, List.length_map, SortedMap.length_entries]
    have same := Engine.replace_all_eq (coherent_reached reached).engine (tight_reached reached)
      config
    refine ⟨other.restored (Snapshot.fileName timestamp) session.engine.series.values, ?_, same,
      rfl, ?_, ?_⟩
    · rw [← count]
      exact restore_read enabledOther newest read
    · exact fun filters => Action.query_index_same filters same
    · intro twin engine directory operations
      have alike : Alike (other.restored (Snapshot.fileName timestamp)
          session.engine.series.values) twin := ⟨same.trans engine.symm, directory.symm⟩
      exact (alike_run alike operations).1
  · intro name moment bytes refused newest damaged
    exact restore_refused enabledOther newest damaged

def archived : EngineConfig := { EngineConfig.default with snapshotsEnabled := true }

/-- A series that feeds another one, with a bucket closed and one open, and a third one that is
filed under another label and then deleted. -/
def household : List Operation :=
  [.request (.create "a" { SeriesOptions.none with labels := .ofList [("room", "kitchen")] }),
    .request (.create "b" .none), .request (.create "c" .none),
    .request (.createRule "a" "b" .max 10), .request (.add "a" 3 ⟨5⟩ none),
    .request (.add "a" 14 ⟨2⟩ none),
    .request (.alter "c" ⟨none, none, none, some (.ofList [("room", "hall")])⟩),
    .request (.delete "c"), .request (.add "missing" 1 ⟨1⟩ none)]

/-- Another engine in the same directory, with a series of its own. -/
def neighbour (directory : Directory) : Session :=
  .start ((fresh archived ∅).run [.request (.create "z" .none)]).engine directory

theorem snapshot_restores_household :
    ((fresh archived ∅).run household).Reached ∧
      Snapshot.Storable ((fresh archived ∅).run household).engine.series.values ∧
      ∃ taken after,
        (Action.snapshot 7).perform ((fresh archived ∅).run household) = (.ok (), taken) ∧
        Action.restore.perform (neighbour taken.directory) =
          (.ok ((fresh archived ∅).run household).engine.series.size, after) ∧
        after.engine = ((fresh archived ∅).run household).engine ∧
        ∀ operations, after.replies operations = taken.replies operations := by
  have reached : ((fresh archived ∅).run household).Reached :=
    ⟨archived, ∅, household, SortedMap.every_empty, by simp [Restorable, household,
      Operation.Storable], rfl⟩
  have small : ∀ one ∈ ((fresh archived ∅).run household).engine.series.values,
      (Series.format.write one).length < UInt64.size ∧
        one.store.config.chunkSize < UInt64.size ∧
        ∀ counter ∈ one.counters, counter = 0 ∨ counter = 1 ∨ counter = 2 := by
    decide +kernel
  have storable : Snapshot.Storable ((fresh archived ∅).run household).engine.series.values := by
    refine ⟨fun one member => ?_, by decide +kernel⟩
    obtain ⟨size, budget, counters⟩ := small one member
    refine ⟨size, budget, fun counter among => ?_⟩
    rcases counters counter among with rfl | rfl | rfl
    · exact ⟨0, rfl⟩
    · exact ⟨1, rfl⟩
    · exact ⟨2, rfl⟩
  have bare : ((fresh archived ∅).run household).directory = ∅ := by decide +kernel
  have later : ∀ name earlier,
      ((fresh archived ∅).run household).directory.contains name = true →
      Snapshot.timestampOf? name = some earlier → earlier < 7 := by
    intro name earlier present
    rw [bare] at present
    exact nomatch present
  obtain ⟨⟨taken, written, same, newest⟩, others⟩ :=
    snapshot_restores _ reached (by decide +kernel) 7 storable later
  have settings : ∀ operations, ((fresh archived ∅).run operations).engine.config = archived :=
    fun operations => config_run operations rfl
  obtain ⟨after, restored, back, _, _, answers⟩ :=
    (others (neighbour taken.directory) ((settings _).trans (settings _).symm)).1 newest
  exact ⟨reached, storable, taken, after, written, restored, back, answers taken same rfl⟩

end Session

end Chronicle

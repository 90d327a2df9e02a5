import Chronicle.Engine.Keys
import Chronicle.Proofs.Engine.Operation
import Chronicle.Proofs.Series.Change

/-!
What the operations on an engine that make one change do to a session: whether they are
refused, what they have looked up and checked if not, and the session that they leave behind
with all that was reported.
-/

namespace Chronicle

namespace Session

def tell (session : Session) (event : Event) : Session :=
  { session with events := event :: session.events }

def trimEvents (key : String) (trimmed : Trimmed) : List Event :=
  if trimmed.isEmpty then [] else [.chunksTrimmed key trimmed]

def enrolled (session : Session) (series : Series) : Session where
  engine := session.engine.enroll series
  directory := session.directory
  events := .seriesCreated series.key :: session.events
  signals := .seriesCount (session.engine.enroll series).series.size :: session.signals

def altered (session : Session) (key : String) (alteration : Alteration) (old new : Series) :
    Session :=
  { session with engine :=
      if alteration.labels.isSome && new.labels ≠ old.labels then
        (session.engine.store new key).refile key old.labels new.labels
      else session.engine.store new key }

def removed (session : Session) (key : String) (gone : Series) : Session where
  engine := (session.engine.dismiss key gone).unlink key gone
  directory := session.directory
  events := .seriesDeleted key :: session.events
  signals := .seriesCount (session.engine.dismiss key gone).series.size :: session.signals

def linked (session : Session) (source : String) (rule : Rule) : Session where
  engine := session.engine.link source rule
  directory := session.directory
  events := .ruleCreated source rule.destination :: session.events
  signals := session.signals

def cut (session : Session) (source destination : String) : Session where
  engine := session.engine.cut source destination
  directory := session.directory
  events := .ruleDeleted source destination :: session.events
  signals := session.signals

def stored (session : Session) (key : String) (changed : Series) (written : Written) :
    Session where
  engine := session.engine.store changed key
  directory := session.directory
  events := trimEvents key written.trimmed ++ session.events
  signals := (if written.kind = .appended then .sampleAppended else .sampleUpserted) ::
    session.signals

def received (session : Session) (key : String) (longer : Series) (trimmed : Trimmed) :
    Session where
  engine := session.engine.store longer key
  directory := session.directory
  events := trimEvents key trimmed ++ session.events
  signals := .sampleAppended :: .flushDelivered :: session.signals

def delivery (source : String) (session : Session) (flush : Flush) : Session :=
  match session.engine.series.get? flush.destination with
  | none => session.tell (.destinationMissing source flush.destination)
  | some fed =>
      match fed.appendCompacted flush.timestamp flush.value with
      | .error refused => session.tell (.flushFailed flush.destination refused.message)
      | .ok (longer, trimmed) => session.received flush.destination longer trimmed

def saved (session : Session) (timestamp : Timestamp) : Session where
  engine := session.engine
  directory := ((session.directory.addSnapshot timestamp session.engine.series.values).prune
    session.engine.config.snapshotsKept).1
  events := .snapshotCreated (Text.joinPath session.engine.config.snapshotPath
    (Snapshot.fileName timestamp)) timestamp :: session.events
  signals := .snapshotWritten :: session.signals

def restored (session : Session) (name : String) (series : List Series) : Session where
  engine := session.engine.replaceAll series
  directory := session.directory
  events := .snapshotRestored (Text.joinPath session.engine.config.snapshotPath name)
    series.length :: session.events
  signals := .seriesCount (session.engine.replaceAll series).series.size :: session.signals

/-- What a delivery comes to: its destination is missing, refuses it or takes it in. -/
inductive Delivered (session : Session) (source : String) (flush : Flush) : Session → Prop where
  | missing (absent : session.engine.series.get? flush.destination = none) :
      Delivered session source flush
        (session.tell (.destinationMissing source flush.destination))
  | refused (reason : String) :
      Delivered session source flush (session.tell (.flushFailed flush.destination reason))
  | taken {fed longer : Series} {trimmed : Trimmed}
      (present : session.engine.series.get? flush.destination = some fed)
      (appended : fed.appendCompacted flush.timestamp flush.value = .ok (longer, trimmed)) :
      Delivered session source flush (session.received flush.destination longer trimmed)

theorem delivered (source : String) (flush : Flush) (session : Session) :
    Delivered session source flush (session.delivery source flush) := by
  unfold delivery
  cases present : session.engine.series.get? flush.destination with
  | none => exact .missing present
  | some fed =>
      dsimp only
      cases appended : fed.appendCompacted flush.timestamp flush.value with
      | error refused => exact .refused refused.message
      | ok result => exact .taken present appended

/-- What every delivery keeps is kept by all of them. -/
theorem deliveries_keep {motive : Session → Prop} {source : String}
    (each : ∀ {before after : Session} {flush : Flush},
      Delivered before source flush after → motive before → motive after)
    (flushes : List Flush) {session : Session} (held : motive session) :
    motive (flushes.foldl (delivery source) session) := by
  induction flushes generalizing session with
  | nil => exact held
  | cons flush later ih => exact ih (each (delivered source flush session) held)

end Session

namespace Action

variable {session : Session}

theorem contains_eq (engine : Engine) (key : String) :
    engine.series.contains key = (engine.series.get? key).isSome := rfl

theorem enroll_outcome (series : Series) (session : Session) :
    ((enroll series).perform session = (.error (.keyExists series.key), session) ∧
        ∃ taken, session.engine.series.get? series.key = some taken) ∨
      (session.engine.series.get? series.key = none ∧
        (enroll series).perform session = (.ok (), session.enrolled series)) := by
  rw [enroll, perform_bind_ok (perform_engine session), contains_eq]
  cases free : session.engine.series.get? series.key with
  | some taken => exact Or.inl ⟨rfl, taken, rfl⟩
  | none => exact Or.inr ⟨rfl, rfl⟩

/-- A series that is created is new, and its key was free. -/
theorem create_outcome (key : String) (options : SeriesOptions) (session : Session) :
    (∃ refused, (create key options).perform session = (.error refused, session)) ∨
      ∃ series, session.engine.series.get? series.key = none ∧ series.key = key ∧
        Series.new key options.labels
          (options.duplicatePolicy.getD session.engine.config.duplicatePolicy)
          (session.engine.config.storeConfig options) = .ok series ∧
        (create key options).perform session = (.ok (), session.enrolled series) := by
  unfold create
  split
  · exact Or.inl ⟨_, rfl⟩
  rw [perform_bind_ok (perform_engine session)]
  dsimp only
  cases made : Series.new key options.labels
      (options.duplicatePolicy.getD session.engine.config.duplicatePolicy)
      (session.engine.config.storeConfig options) with
  | error fault => exact Or.inl ⟨_, perform_bind_error (perform_of_argument _ session)⟩
  | ok series =>
      have named : series.key = key := by rw [Series.new_outcome made]
      rw [perform_bind_ok (perform_of_argument _ session)]
      rcases enroll_outcome series session with ⟨refused, _⟩ | ⟨free, done⟩
      · exact Or.inl ⟨_, refused⟩
      · exact Or.inr ⟨series, free, named, rfl, done⟩

theorem load_outcome (blob : Bytes) (session : Session) :
    (∃ refused, (load blob).perform session = (.error refused, session)) ∨
      ∃ series, Series.ofBlob blob = .ok series ∧
        session.engine.series.get? series.key = none ∧
        (load blob).perform session = (.ok series.key, session.enrolled series) := by
  unfold load
  cases read : Series.ofBlob blob with
  | error refused => exact Or.inl ⟨refused, perform_bind_error (perform_of_except _ session)⟩
  | ok series =>
      rw [perform_bind_ok (perform_of_except _ session)]
      rcases enroll_outcome series session with ⟨refused, _⟩ | ⟨free, done⟩
      · exact Or.inl ⟨_, perform_bind_error refused⟩
      · exact Or.inr ⟨series, rfl, free, perform_bind_ok done⟩

theorem perform_alter {key : String} {alteration : Alteration} {old new : Series}
    (present : session.engine.series.get? key = some old)
    (accepted : old.alter alteration = .ok new) :
    (alter key alteration).perform session =
      (.ok (), session.altered key alteration old new) := by
  rw [alter, perform_bind_ok (perform_require_some present), accepted,
    perform_bind_ok (perform_of_argument _ session), perform_bind_ok (perform_update _ session)]
  unfold Session.altered
  split <;> rfl

theorem alter_outcome (key : String) (alteration : Alteration) (session : Session) :
    (∃ refused, (alter key alteration).perform session = (.error refused, session)) ∨
      ∃ old new, session.engine.series.get? key = some old ∧ old.alter alteration = .ok new ∧
        (alter key alteration).perform session =
          (.ok (), session.altered key alteration old new) := by
  cases present : session.engine.series.get? key with
  | none => exact Or.inl ⟨_, perform_bind_error (perform_require_none present)⟩
  | some old =>
      cases accepted : old.alter alteration with
      | error fault =>
          rw [alter, perform_bind_ok (perform_require_some present), accepted]
          exact Or.inl ⟨_, perform_bind_error (perform_of_argument _ session)⟩
      | ok new => exact Or.inr ⟨old, new, rfl, accepted, perform_alter present accepted⟩

theorem notify_deleted_outcome (key : String) (session : Session) :
    (session.engine.series.get? key = none ∧
        (notifyDeleted key).perform session = (.ok false, session)) ∨
      ∃ gone, session.engine.series.get? key = some gone ∧
        (notifyDeleted key).perform session = (.ok true, session.removed key gone) := by
  rw [notifyDeleted, perform_bind_ok (perform_engine session)]
  cases present : session.engine.series.get? key with
  | none => exact Or.inl ⟨rfl, rfl⟩
  | some gone => exact Or.inr ⟨gone, rfl, rfl⟩

theorem destination_new {destination : String} {kind : AggregationKind} {width : Duration}
    {rule : Rule} (made : Rule.new destination kind width = .ok rule) :
    rule.destination = destination := by
  unfold Rule.new at made
  split at made
  · exact nomatch made
  · obtain rfl := Except.ok.inj made
    rfl

/-- What comes of a request for a rule: a refusal, which changes nothing, or a link between
two series that are there and that no rule feeds. -/
theorem create_rule_outcome (source destination : String) (kind : AggregationKind)
    (width : Duration) (session : Session) :
    (∃ refused, (createRule source destination kind width).perform session =
      (.error refused, session)) ∨
    ∃ feeding fed rule, source ≠ destination ∧
      session.engine.series.get? source = some feeding ∧ feeding.sourceKey = none ∧
      session.engine.series.get? destination = some fed ∧ fed.sourceKey = none ∧
      Rule.new destination kind width = .ok rule ∧
      (createRule source destination kind width).perform session =
        (.ok (), session.linked source rule) := by
  unfold createRule
  split
  · exact Or.inl ⟨_, rfl⟩
  rename_i different
  cases made : Rule.new destination kind width with
  | error fault => exact Or.inl ⟨_, perform_bind_error (perform_of_argument _ session)⟩
  | ok rule =>
      rw [perform_bind_ok (perform_of_argument _ session)]
      cases present : session.engine.series.get? source with
      | none => exact Or.inl ⟨_, perform_bind_error (perform_require_none present)⟩
      | some feeding =>
          rw [perform_bind_ok (perform_require_some present)]
          cases presentFed : session.engine.series.get? destination with
          | none => exact Or.inl ⟨_, perform_bind_error (perform_require_none presentFed)⟩
          | some fed =>
              rw [perform_bind_ok (perform_require_some presentFed)]
              cases unfed : feeding.sourceKey with
              | some other => exact Or.inl ⟨_, rfl⟩
              | none =>
                  cases unfedFed : fed.sourceKey with
                  | some other => exact Or.inl ⟨_, rfl⟩
                  | none =>
                      refine Or.inr ⟨feeding, fed, rule, different, rfl, unfed, rfl, unfedFed,
                        rfl, ?_⟩
                      rw [Session.linked, destination_new made]
                      rfl

theorem delete_rule_outcome (source destination : String) (session : Session) :
    (∃ refused, (deleteRule source destination).perform session = (.error refused, session)) ∨
      ∃ feeding fed, session.engine.series.get? source = some feeding ∧
        feeding.hasRuleTo destination = true ∧
        session.engine.series.get? destination = some fed ∧ fed.sourceKey = some source ∧
        (deleteRule source destination).perform session =
          (.ok (), session.cut source destination) := by
  unfold deleteRule
  cases present : session.engine.series.get? source with
  | none => exact Or.inl ⟨_, perform_bind_error (perform_require_none present)⟩
  | some feeding =>
      rw [perform_bind_ok (perform_require_some present)]
      cases presentFed : session.engine.series.get? destination with
      | none => exact Or.inl ⟨_, perform_bind_error (perform_require_none presentFed)⟩
      | some fed =>
          rw [perform_bind_ok (perform_require_some presentFed)]
          split
          · exact Or.inl ⟨_, rfl⟩
          · rename_i entered
            simp only [Bool.or_eq_true, Bool.not_eq_true', decide_eq_true_eq, not_or,
              Bool.not_eq_false] at entered
            exact Or.inr ⟨feeding, fed, rfl, entered.1, rfl, Decidable.not_not.mp entered.2, rfl⟩

theorem perform_report_trim (key : String) (trimmed : Trimmed) (session : Session) :
    (reportTrim key trimmed).perform session = (.ok (),
      { session with events := Session.trimEvents key trimmed ++ session.events }) := by
  unfold reportTrim Session.trimEvents
  cases trimmed.isEmpty <;> rfl

theorem perform_deliver (source : String) (flush : Flush) (session : Session) :
    (deliver source flush).perform session = (.ok (), session.delivery source flush) := by
  rw [deliver, perform_bind_ok (perform_engine session), Session.delivery]
  cases session.engine.series.get? flush.destination with
  | none => rfl
  | some fed =>
      dsimp only
      cases fed.appendCompacted flush.timestamp flush.value with
      | error refused => rfl
      | ok result => exact perform_report_trim flush.destination result.2 _

theorem perform_deliver_all (source : String) (flushes : List Flush) (session : Session) :
    (deliverAll source flushes).perform session =
      (.ok (), flushes.foldl (Session.delivery source) session) := by
  induction flushes generalizing session with
  | nil => rfl
  | cons flush later ih =>
      rw [deliverAll, perform_bind_ok (perform_deliver source flush session), ih]
      rfl

/-- A write is refused, with no more than a signal, or it is stored, after which it cannot fail:
what it closed is delivered. -/
theorem write_outcome (key : String) (change : Series → Except Error (Series × Written))
    (session : Session) :
    (session.engine.series.get? key = none ∧
        (write key change).perform session = (.error (.seriesNotFound key), session)) ∨
      ∃ old, session.engine.series.get? key = some old ∧
        ((∃ refused, change old = .error refused ∧
            (write key change).perform session = (.error refused,
              { session with signals := .writeRejected refused.kind :: session.signals })) ∨
          ∃ new written, change old = .ok (new, written) ∧
            (write key change).perform session = (.ok written.timestamp,
              written.flushes.foldl (Session.delivery key) (session.stored key new written))) := by
  unfold write
  cases present : session.engine.series.get? key with
  | none => exact Or.inl ⟨rfl, perform_bind_error (perform_require_none present)⟩
  | some old =>
      refine Or.inr ⟨old, rfl, ?_⟩
      rw [perform_bind_ok (perform_require_some present)]
      cases accepted : change old with
      | error refused => exact Or.inl ⟨refused, rfl, rfl⟩
      | ok result =>
          obtain ⟨new, written⟩ := result
          have signalled : ∀ before : Session,
              (signal (if written.kind = .appended then .sampleAppended
                else .sampleUpserted)).perform before = (.ok (), { before with signals :=
                  (if written.kind = .appended then .sampleAppended else .sampleUpserted) ::
                    before.signals }) := fun _ => rfl
          refine Or.inr ⟨new, written, rfl, ?_⟩
          dsimp only
          rw [perform_bind_ok (perform_update _ session), perform_bind_ok (signalled _),
            perform_bind_ok (perform_report_trim _ _ _),
            perform_bind_ok (perform_deliver_all _ _ _)]
          rfl

theorem perform_require_snapshots (session : Session) :
    requireSnapshots.perform session =
      (if session.engine.config.snapshotsEnabled then .ok session.engine.config.snapshotPath
        else .error (.setting .snapshotsDisabled), session) := by
  rw [requireSnapshots, perform_bind_ok (perform_engine session)]
  dsimp only
  cases session.engine.config.snapshotsEnabled <;> rfl

theorem snapshot_outcome (timestamp : Timestamp) (session : Session) :
    (∃ refused, (snapshot timestamp).perform session = (.error refused, session)) ∨
      (snapshot timestamp).perform session = (.ok (), session.saved timestamp) := by
  have required := perform_require_snapshots session
  unfold snapshot
  split at required
  · exact Or.inr (perform_bind_ok required)
  · exact Or.inl ⟨_, perform_bind_error required⟩

/-- Only a snapshot that was read replaces anything. -/
theorem restore_outcome (session : Session) :
    (∃ answer, restore.perform session = (answer, session)) ∨
      ∃ name series,
        session.directory.newestSnapshot session.engine.config.snapshotPath =
          .ok (some (name, series)) ∧
        restore.perform session = (.ok series.length, session.restored name series) := by
  have required := perform_require_snapshots session
  unfold restore
  split at required
  · rw [perform_bind_ok required]
    have held : (get : Action Session).perform session = (.ok session, session) := rfl
    rw [perform_bind_ok held]
    cases read : session.directory.newestSnapshot session.engine.config.snapshotPath with
    | error refused => exact Or.inl ⟨_, perform_bind_error (perform_of_except _ session)⟩
    | ok found =>
        rw [perform_bind_ok (perform_of_except _ session)]
        cases found with
        | none => exact Or.inl ⟨_, rfl⟩
        | some newest => exact Or.inr ⟨newest.1, newest.2, rfl, rfl⟩
  · exact Or.inl ⟨_, perform_bind_error required⟩

end Action

end Chronicle

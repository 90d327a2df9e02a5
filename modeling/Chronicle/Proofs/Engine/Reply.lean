import Chronicle.Proofs.Engine.Outcome

/-!
Answers of operations, and what they depend on. An operation looks at the engine and at the
directory of its snapshots and never at what has been reported, so two sessions with the same
engine and the same directory answer alike from then on.
-/

namespace Chronicle

inductive Answer where
  | done
  | moment (timestamp : Timestamp)
  | moments (results : List (Except Error Timestamp))
  | flag (held : Bool)
  | key (key : String)
  | keys (keys : List String)
  | last (sample : Option Sample)
  | samples (samples : List Sample)
  | results (results : List SeriesResult)
  | info (info : SeriesInfo)
  | blob (bytes : Bytes)
  | count (series : Nat)

namespace Action

variable {α β : Type}

def answering (wrap : α → Answer) (action : Action α) : Action Answer :=
  action >>= fun answer => pure (wrap answer)

theorem perform_answering (wrap : α → Answer) (action : Action α) (session : Session) :
    (answering wrap action).perform session =
      ((action.perform session).1.map wrap, (action.perform session).2) := by
  unfold answering
  rw [perform_bind]
  cases action.perform session with
  | mk result after => cases result <;> rfl

end Action

open Chronicle.Action

def Request.reply : Request → Action Answer
  | .create key options => answering (fun _ => .done) (Action.create key options)
  | .alter key alteration => answering (fun _ => .done) (Action.alter key alteration)
  | .delete key => answering (fun _ => .done) (Action.delete key)
  | .notifyDeleted key => answering .flag (Action.notifyDeleted key)
  | .add key timestamp value override => answering .moment (Action.add key timestamp value override)
  | .addMany samples => answering .moments (Action.addMany samples)
  | .addOrCreate key timestamp value options =>
      answering .moment (Action.addOrCreate key timestamp value options)
  | .increase key change timestamp options =>
      answering .moment (Action.increase key change timestamp options)
  | .decrease key change timestamp options =>
      answering .moment (Action.decrease key change timestamp options)
  | .createRule source destination kind width =>
      answering (fun _ => .done) (Action.createRule source destination kind width)
  | .deleteRule source destination =>
      answering (fun _ => .done) (Action.deleteRule source destination)

def Operation.reply : Operation → Action Answer
  | .request asked => asked.reply
  | .contains key => answering .flag (Action.contains key)
  | .keys => answering .keys Action.keys
  | .last key => answering .last (Action.last key)
  | .range key asked => answering .samples (Action.range key asked)
  | .reverseRange key asked => answering .samples (Action.reverseRange key asked)
  | .multiRange asked => answering .results (Action.multiRange asked)
  | .lastOfMany filters withLabels =>
      answering .results (Action.lastOfMany filters withLabels)
  | .queryIndex filters => answering .keys (Action.queryIndex filters)
  | .info key withChunks => answering .info (Action.info key withChunks)
  | .save key => answering .blob (Action.save key)
  | .load blob => answering .key (Action.load blob)
  | .snapshot timestamp => answering (fun _ => .done) (Action.snapshot timestamp)
  | .restore => answering .count Action.restore

theorem perform_reply (operation : Operation) (session : Session) :
    (operation.reply.perform session).2 = session.step operation := by
  unfold Session.step
  cases operation with
  | request asked =>
      cases asked with
      | create | alter | delete | createRule | deleteRule =>
          exact congrArg Prod.snd (perform_answering _ _ session)
      | notifyDeleted | add | addMany | addOrCreate | increase | decrease =>
          exact (congrArg Prod.snd (perform_answering _ _ session)).trans
            (perform_quiet _ session).symm
  | snapshot => exact congrArg Prod.snd (perform_answering _ _ session)
  | contains | keys | last | range | reverseRange | multiRange | lastOfMany | queryIndex | info
    | save | load | restore =>
      exact (congrArg Prod.snd (perform_answering _ _ session)).trans
        (perform_quiet _ session).symm

def Session.under (session : Session) (events : List Event) (signals : List Signal) : Session :=
  { session with
    events := session.events ++ events
    signals := session.signals ++ signals }

namespace Action

variable {α β : Type}

/-- That an action does the same whatever was reported before it. -/
def Oblivious (action : Action α) : Prop :=
  ∀ (session : Session) (events : List Event) (signals : List Signal),
    action.perform (session.under events signals) =
      ((action.perform session).1, (action.perform session).2.under events signals)

theorem oblivious_pure (answer : α) : Oblivious (pure answer : Action α) := fun _ _ _ => rfl

theorem oblivious_throw (refused : Error) : Oblivious (throw refused : Action α) :=
  fun _ _ _ => rfl

theorem oblivious_engine : Oblivious engine := fun _ _ _ => rfl

theorem oblivious_update (change : Engine → Engine) : Oblivious (update change) :=
  fun _ _ _ => rfl

theorem oblivious_emit (event : Event) : Oblivious (emit event) := fun _ _ _ => rfl

theorem oblivious_signal (given : Signal) : Oblivious (signal given) := fun _ _ _ => rfl

theorem oblivious_of_except (result : Except Error α) : Oblivious (ofExcept result) := by
  intro session events signals
  rw [perform_of_except, perform_of_except]

theorem oblivious_bind {first : Action α} {next : α → Action β} (start : Oblivious first)
    (rest : ∀ answer, Oblivious (next answer)) : Oblivious (first >>= next) := by
  intro session events signals
  rw [perform_bind, perform_bind, start]
  cases first.perform session with
  | mk result after =>
      cases result with
      | error refused => rfl
      | ok answer => exact rest answer after events signals

theorem oblivious_attempt {action : Action α} (oblivious : Oblivious action) :
    Oblivious (attempt action) := by
  intro session events signals
  have same := oblivious session events signals
  change (Except.ok (action.perform (session.under events signals)).1,
    (action.perform (session.under events signals)).2) = _
  rw [same]
  rfl

theorem oblivious_require (key : String) : Oblivious (require key) := by
  refine oblivious_bind oblivious_engine fun engine => ?_
  split
  · exact oblivious_pure _
  · exact oblivious_throw _

theorem oblivious_signal_count : Oblivious signalCount :=
  oblivious_bind oblivious_engine fun _ => oblivious_signal _

theorem oblivious_enroll (series : Series) : Oblivious (enroll series) := by
  refine oblivious_bind oblivious_engine fun engine => ?_
  have entered : Oblivious (do
      update (·.enroll series)
      signalCount
      emit (.seriesCreated series.key)) :=
    oblivious_bind (oblivious_update _) fun _ =>
      oblivious_bind oblivious_signal_count fun _ => oblivious_emit _
  split
  · exact oblivious_throw _
  · exact entered

theorem oblivious_create (key : String) (options : SeriesOptions) :
    Oblivious (create key options) := by
  unfold create
  split
  · exact oblivious_throw _
  · refine oblivious_bind oblivious_engine fun _ => ?_
    exact oblivious_bind (oblivious_of_except _) fun series => oblivious_enroll series

theorem oblivious_alter (key : String) (alteration : Alteration) :
    Oblivious (alter key alteration) := by
  refine oblivious_bind (oblivious_require key) fun series => ?_
  refine oblivious_bind (oblivious_of_except _) fun altered => ?_
  refine oblivious_bind (oblivious_update _) fun _ => ?_
  split
  · exact oblivious_update _
  · exact oblivious_pure _

theorem oblivious_notify_deleted (key : String) : Oblivious (notifyDeleted key) := by
  refine oblivious_bind oblivious_engine fun engine => ?_
  split
  · exact oblivious_pure _
  · refine oblivious_bind (oblivious_update _) fun _ => ?_
    refine oblivious_bind oblivious_signal_count fun _ => ?_
    refine oblivious_bind (oblivious_update _) fun _ => ?_
    exact oblivious_bind (oblivious_emit _) fun _ => oblivious_pure _

theorem oblivious_delete (key : String) : Oblivious (delete key) := by
  refine oblivious_bind (oblivious_notify_deleted key) fun deleted => ?_
  split
  · exact oblivious_throw _
  · exact oblivious_pure _

theorem oblivious_contains (key : String) : Oblivious (contains key) :=
  oblivious_bind oblivious_engine fun _ => oblivious_pure _

theorem oblivious_create_rule (source destination : String) (kind : AggregationKind)
    (width : Duration) : Oblivious (createRule source destination kind width) := by
  unfold createRule
  split
  · exact oblivious_throw _
  refine oblivious_bind (oblivious_of_except _) fun rule => ?_
  refine oblivious_bind (oblivious_require source) fun feeding => ?_
  refine oblivious_bind (oblivious_require destination) fun fed => ?_
  dsimp only
  split
  · exact fun _ _ _ => rfl
  split
  · exact fun _ _ _ => rfl
  · exact oblivious_bind (oblivious_update _) fun _ => oblivious_emit _

theorem oblivious_delete_rule (source destination : String) :
    Oblivious (deleteRule source destination) := by
  refine oblivious_bind (oblivious_require source) fun feeding => ?_
  refine oblivious_bind (oblivious_require destination) fun fed => ?_
  split
  · exact oblivious_throw _
  · exact oblivious_bind (oblivious_update _) fun _ => oblivious_emit _

theorem oblivious_report_trim (key : String) (trimmed : Trimmed) :
    Oblivious (reportTrim key trimmed) := by
  unfold reportTrim
  split
  · exact oblivious_emit _
  · exact oblivious_pure _

theorem oblivious_deliver (source : String) (flush : Flush) :
    Oblivious (deliver source flush) := by
  refine oblivious_bind oblivious_engine fun engine => ?_
  split
  · exact oblivious_emit _
  · split
    · exact oblivious_emit _
    · refine oblivious_bind (oblivious_update _) fun _ => ?_
      refine oblivious_bind (oblivious_signal _) fun _ => ?_
      exact oblivious_bind (oblivious_signal _) fun _ => oblivious_report_trim _ _

theorem oblivious_deliver_all (source : String) (flushes : List Flush) :
    Oblivious (deliverAll source flushes) := by
  induction flushes with
  | nil => exact oblivious_pure _
  | cons flush later ih => exact oblivious_bind (oblivious_deliver source flush) fun _ => ih

theorem oblivious_write (key : String) (change : Series → Except Error (Series × Written)) :
    Oblivious (write key change) := by
  refine oblivious_bind (oblivious_require key) fun series => ?_
  split
  · exact oblivious_bind (oblivious_signal _) fun _ => oblivious_throw _
  · refine oblivious_bind (oblivious_update _) fun _ => ?_
    refine oblivious_bind (oblivious_signal _) fun _ => ?_
    refine oblivious_bind (oblivious_report_trim _ _) fun _ => ?_
    exact oblivious_bind (oblivious_deliver_all _ _) fun _ => oblivious_pure _

theorem oblivious_apply_policies (key : String) (labels : Labels) (policies : List Policy) :
    Oblivious (applyPolicies key labels policies) := by
  induction policies with
  | nil => exact oblivious_pure _
  | cons policy later ih =>
      refine oblivious_bind ?_ fun _ => ih
      refine oblivious_bind (oblivious_contains _) fun known => ?_
      split
      · exact oblivious_bind (oblivious_create _ _) fun _ => oblivious_create_rule _ _ _ _
      · exact oblivious_pure _

theorem oblivious_ensure (key : String) (options : SeriesOptions) :
    Oblivious (ensure key options) := by
  refine oblivious_bind (oblivious_contains key) fun known => ?_
  split
  · refine oblivious_bind (oblivious_create key options) fun _ => ?_
    exact oblivious_bind oblivious_engine fun engine => oblivious_apply_policies _ _ _
  · exact oblivious_pure _

theorem oblivious_add_many (samples : List (String × Sample)) : Oblivious (addMany samples) := by
  induction samples with
  | nil => exact oblivious_pure _
  | cons entry later ih =>
      refine oblivious_bind (oblivious_attempt (oblivious_write _ _)) fun _ => ?_
      exact oblivious_bind ih fun _ => oblivious_pure _

theorem oblivious_range (key : String) (request : RangeRequest) :
    Oblivious (range key request) :=
  oblivious_bind (oblivious_require key) fun _ => oblivious_of_except _

theorem oblivious_query_index (filters : List Predicate) : Oblivious (queryIndex filters) := by
  refine oblivious_bind oblivious_engine fun engine => ?_
  exact oblivious_bind (oblivious_of_except _) fun _ => oblivious_pure _

theorem oblivious_series_of (keys : List String) : Oblivious (seriesOf keys) := by
  induction keys with
  | nil => exact oblivious_pure _
  | cons key later ih =>
      refine oblivious_bind oblivious_engine fun engine => ?_
      split
      · exact oblivious_bind ih fun _ => oblivious_pure _
      · exact oblivious_bind (oblivious_emit _) fun _ => ih

theorem oblivious_matching (filters : List Predicate) : Oblivious (matching filters) :=
  oblivious_bind (oblivious_query_index filters) fun keys => oblivious_series_of keys

theorem oblivious_multi_range (request : MultiRangeRequest) :
    Oblivious (multiRange request) := by
  refine oblivious_bind (oblivious_of_except _) fun _ => ?_
  refine oblivious_bind (oblivious_matching _) fun found => ?_
  exact oblivious_bind (oblivious_signal _) fun _ => oblivious_of_except _

theorem oblivious_require_snapshots : Oblivious requireSnapshots := by
  refine oblivious_bind oblivious_engine fun engine => ?_
  dsimp only
  split
  · exact oblivious_throw _
  · exact oblivious_pure _

theorem oblivious_snapshot (timestamp : Timestamp) : Oblivious (snapshot timestamp) := by
  refine oblivious_bind oblivious_require_snapshots fun path => ?_
  refine oblivious_bind oblivious_engine fun engine => ?_
  refine oblivious_bind (fun _ _ _ => rfl) fun _ => ?_
  exact oblivious_bind (oblivious_signal _) fun _ => oblivious_emit _

/-- A restore looks at the directory, and so do all that follow an operation that does. -/
theorem oblivious_get {next : Session → Action α}
    (seen : ∀ session events signals, next (session.under events signals) = next session)
    (rest : ∀ session, Oblivious (next session)) : Oblivious (get >>= next) := by
  intro session events signals
  have held : ∀ session : Session,
      (get : Action Session).perform session = (.ok session, session) := fun _ => rfl
  rw [perform_bind_ok (held _), perform_bind_ok (held _), seen]
  exact rest session session events signals

theorem oblivious_restore : Oblivious restore := by
  refine oblivious_bind oblivious_require_snapshots fun path => ?_
  refine oblivious_get (fun _ _ _ => rfl) fun session => ?_
  refine oblivious_bind (oblivious_of_except _) fun found => ?_
  split
  · exact oblivious_pure _
  · refine oblivious_bind (oblivious_update _) fun _ => ?_
    refine oblivious_bind oblivious_signal_count fun _ => ?_
    exact oblivious_bind (oblivious_emit _) fun _ => oblivious_pure _

theorem oblivious_answering (wrap : α → Answer) {action : Action α}
    (oblivious : Oblivious action) : Oblivious (answering wrap action) :=
  oblivious_bind oblivious fun _ => oblivious_pure _

end Action

theorem oblivious_request (request : Request) : request.reply.Oblivious := by
  cases request with
  | create key options => exact oblivious_answering _ (oblivious_create key options)
  | alter key alteration => exact oblivious_answering _ (oblivious_alter key alteration)
  | delete key => exact oblivious_answering _ (oblivious_delete key)
  | notifyDeleted key => exact oblivious_answering _ (oblivious_notify_deleted key)
  | add key _ _ _ => exact oblivious_answering _ (oblivious_write key _)
  | addMany samples => exact oblivious_answering _ (oblivious_add_many samples)
  | addOrCreate key _ _ options | increase key _ _ options | decrease key _ _ options =>
      apply oblivious_answering
      exact oblivious_bind (oblivious_ensure key options) fun _ => oblivious_write key _
  | createRule source destination kind width =>
      exact oblivious_answering _ (oblivious_create_rule source destination kind width)
  | deleteRule source destination =>
      exact oblivious_answering _ (oblivious_delete_rule source destination)

theorem oblivious_operation (operation : Operation) : operation.reply.Oblivious := by
  cases operation with
  | request asked => exact oblivious_request asked
  | contains key => exact oblivious_answering _ (oblivious_contains key)
  | keys =>
      apply oblivious_answering
      exact oblivious_bind oblivious_engine fun _ => oblivious_pure _
  | last key | info key _ | save key =>
      apply oblivious_answering
      exact oblivious_bind (oblivious_require key) fun _ => oblivious_pure _
  | range key asked => exact oblivious_answering _ (oblivious_range key asked)
  | reverseRange key asked => exact oblivious_answering _ (oblivious_range key _)
  | multiRange asked => exact oblivious_answering _ (oblivious_multi_range asked)
  | lastOfMany filters _ =>
      apply oblivious_answering
      exact oblivious_bind (oblivious_matching filters) fun _ => oblivious_pure _
  | queryIndex filters => exact oblivious_answering _ (oblivious_query_index filters)
  | load blob =>
      apply oblivious_answering
      refine oblivious_bind (oblivious_of_except _) fun series => ?_
      exact oblivious_bind (oblivious_enroll series) fun _ => oblivious_pure _
  | snapshot timestamp => exact oblivious_answering _ (oblivious_snapshot timestamp)
  | restore => exact oblivious_answering _ oblivious_restore

namespace Session

def replies (session : Session) : List Operation → List (Except Error Answer)
  | [] => []
  | operation :: later =>
      (operation.reply.perform session).1 :: (session.step operation).replies later

/-- That two sessions have the same engine and the same directory, whatever they reported. -/
structure Alike (first second : Session) : Prop where
  engine : first.engine = second.engine
  directory : first.directory = second.directory

variable {first second : Session}

theorem eq_under (session : Session) :
    session = (start session.engine session.directory).under session.events session.signals := rfl

/-- An operation answers alike in sessions that are alike, reports the same and leaves sessions
that are alike. -/
theorem alike_step (alike : Alike first second) (operation : Operation) :
    (operation.reply.perform first).1 = (operation.reply.perform second).1 ∧
      Alike (first.step operation) (second.step operation) ∧
      ∃ told given, (first.step operation).events = told ++ first.events ∧
        (second.step operation).events = told ++ second.events ∧
        (first.step operation).signals = given ++ first.signals ∧
        (second.step operation).signals = given ++ second.signals := by
  have oblivious := oblivious_operation operation
  have forFirst := oblivious (start first.engine first.directory) first.events first.signals
  have forSecond := oblivious (start second.engine second.directory) second.events second.signals
  rw [← eq_under] at forFirst forSecond
  rw [alike.engine, alike.directory] at forFirst
  rw [← perform_reply, ← perform_reply, forFirst, forSecond]
  exact ⟨rfl, ⟨rfl, rfl⟩, _, _, rfl, rfl, rfl, rfl⟩

/-- Sessions that are alike answer every run in the same way, report the same and stay alike. -/
theorem alike_run (alike : Alike first second) (operations : List Operation) :
    first.replies operations = second.replies operations ∧
      Alike (first.run operations) (second.run operations) ∧
      ∃ told given, (first.run operations).events = told ++ first.events ∧
        (second.run operations).events = told ++ second.events ∧
        (first.run operations).signals = given ++ first.signals ∧
        (second.run operations).signals = given ++ second.signals := by
  induction operations generalizing first second with
  | nil => exact ⟨rfl, alike, [], [], rfl, rfl, rfl, rfl⟩
  | cons operation later ih =>
      obtain ⟨answer, after, told, given, events, others, signals, otherSignals⟩ :=
        alike_step alike operation
      obtain ⟨answers, afterAll, toldLater, givenLater, eventsLater, othersLater, signalsLater,
        otherSignalsLater⟩ := ih after
      refine ⟨?_, afterAll, toldLater ++ told, givenLater ++ given, ?_, ?_, ?_, ?_⟩
      · rw [replies, replies, answer, answers]
      · rw [List.append_assoc, ← events]
        exact eventsLater
      · rw [List.append_assoc, ← others]
        exact othersLater
      · rw [List.append_assoc, ← signals]
        exact signalsLater
      · rw [List.append_assoc, ← otherSignals]
        exact otherSignalsLater

end Session

end Chronicle

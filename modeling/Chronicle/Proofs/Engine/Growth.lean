import Chronicle.Proofs.Engine.Effect
import Chronicle.Proofs.Engine.Operation

/-!
Growth: what operations that neither alter nor remove anything do to a session. Each of them
comes down to a sequence of a few kinds of step, and the writes among these steps that were
accepted are its trace. A series may be written to several times in one operation.
-/

namespace Chronicle

/-- A write to a series that was accepted: the series after it, and what came of it. -/
structure Accepted where
  key : String
  after : Series
  written : Written

namespace Action

def acceptedBy (key : String) (change : Series → Except Error (Series × Written))
    (session : Session) : List Accepted :=
  match session.engine.series.get? key with
  | none => []
  | some series =>
      match change series with
      | .error _ => []
      | .ok (changed, written) => [⟨key, changed, written⟩]

def acceptedOfMany : List (String × Sample) → Session → List Accepted
  | [], _ => []
  | (key, sample) :: later, session =>
      acceptedBy key (fun series => series.add sample.timestamp sample.value none) session ++
        acceptedOfMany later ((add key sample.timestamp sample.value none).perform session).2

def acceptedAfterEnsuring (key : String) (options : SeriesOptions)
    (change : Series → Except Error (Series × Written)) (session : Session) : List Accepted :=
  match (ensure key options).perform session with
  | (.error _, _) => []
  | (.ok (), ready) => acceptedBy key change ready

end Action

open Chronicle.Action

/-- The writes that a request makes and that are accepted, in their order. What rules deliver
is not among them. -/
def Request.accepted : Request → Session → List Accepted
  | .add key timestamp value override =>
      acceptedBy key fun series => series.add timestamp value override
  | .addMany samples => acceptedOfMany samples
  | .addOrCreate key timestamp value options =>
      acceptedAfterEnsuring key options fun series => series.add timestamp value none
  | .increase key change timestamp options =>
      acceptedAfterEnsuring key options (step timestamp change)
  | .decrease key change timestamp options =>
      acceptedAfterEnsuring key options (step timestamp change.neg)
  | _ => fun _ => []

def Operation.accepted : Operation → Session → List Accepted
  | .request asked => asked.accepted
  | _ => fun _ => []

/-- One step of growth, with the write that it is, if it is one. -/
inductive Grow (session : Session) : List Accepted → Session → Prop where
  | rejected (kind : ErrorKind) :
      Grow session [] { session with signals := .writeRejected kind :: session.signals }
  | answered : Grow session [] { session with signals := .multiRangeAnswered :: session.signals }
  | vanished (key : String) : Grow session [] (session.tell (.seriesVanished key))
  | created {series : Series} (free : session.engine.series.get? series.key = none)
      {policy : DuplicatePolicy} {config : StoreConfig}
      (made : Series.new series.key series.labels policy config = .ok series) :
      Grow session [] (session.enrolled series)
  | fed {source : String} {feeding fed : Series} {kind : AggregationKind} {width : Duration}
      {rule : Rule} (present : session.engine.series.get? source = some feeding)
      (unfed : feeding.sourceKey = none) (free : session.engine.series.get? fed.key = none)
      {policy : DuplicatePolicy} {config : StoreConfig}
      (made : Series.new fed.key fed.labels policy config = .ok fed)
      (ruled : Rule.new fed.key kind width = .ok rule) :
      Grow session [] ((session.enrolled fed).linked source rule)
  | wrote {key : String} {old new : Series} {timestamp : Timestamp} {value : Value}
      {override : Option DuplicatePolicy} {written : Written}
      (present : session.engine.series.get? key = some old)
      (taken : old.add timestamp value override = .ok (new, written)) :
      Grow session [⟨key, new, written⟩]
        (written.flushes.foldl (Session.delivery key) (session.stored key new written))

inductive Growth : Session → List Accepted → Session → Prop where
  | still (session : Session) : Growth session [] session
  | step {session middle after : Session} {accepted later : List Accepted}
      (grow : Grow session accepted middle) (rest : Growth middle later after) :
      Growth session (accepted ++ later) after

theorem Growth.single {session after : Session} {accepted : List Accepted}
    (grow : Grow session accepted after) : Growth session accepted after := by
  have one := Growth.step grow (.still after)
  rwa [List.append_nil] at one

theorem Growth.trans {session middle after : Session} {accepted later : List Accepted}
    (first : Growth session accepted middle) (second : Growth middle later after) :
    Growth session (accepted ++ later) after := by
  induction first with
  | still => exact second
  | step grow _ ih =>
      rw [List.append_assoc]
      exact .step grow (ih second)

theorem Growth.keeps {motive : Session → Prop}
    (each : ∀ {before next : Session} {written : List Accepted},
      Grow before written next → motive before → motive next)
    {session after : Session} {accepted : List Accepted}
    (growth : Growth session accepted after) (held : motive session) : motive after := by
  induction growth with
  | still => exact held
  | step grow _ ih => exact ih (each grow held)

namespace Action

variable {α β : Type}

/-- That an action, whether it fails or not, makes a session grow by some writes. -/
def Grows (action : Action α) (session : Session) (accepted : List Accepted) : Prop :=
  Growth session accepted (action.perform session).2

section Steps

variable {session middle : Session} {accepted later : List Accepted} {first : Action α}
  {next : α → Action β}

theorem grows_still {action : Action α} (same : (action.perform session).2 = session) :
    Grows action session [] := by
  unfold Grows
  rw [same]
  exact .still session

theorem grows_ok {answer : α} (done : first.perform session = (.ok answer, middle))
    (start : Growth session accepted middle) (rest : Grows (next answer) middle later) :
    Grows (first >>= next) session (accepted ++ later) := by
  unfold Grows
  rw [perform_bind_ok done]
  exact start.trans rest

theorem grows_error {refused : Error} (failed : first.perform session = (.error refused, middle))
    (start : Growth session accepted middle) : Grows (first >>= next) session accepted := by
  unfold Grows
  rw [perform_bind_error failed]
  exact start

theorem grows_bind (start : Grows first session accepted)
    (rest : ∀ answer after, first.perform session = (.ok answer, after) →
      Grows (next answer) after []) : Grows (first >>= next) session accepted := by
  unfold Grows at start
  cases performed : first.perform session with
  | mk result after =>
      rw [performed] at start
      cases result with
      | error refused => exact grows_error performed start
      | ok answer =>
          have grown := grows_ok performed start (rest answer after performed)
          rwa [List.append_nil] at grown

theorem grows_quiet {action : Action α} (grows : Grows action session accepted) :
    Grows action.quiet session accepted :=
  grows_bind grows fun _ _ _ => grows_still rfl

end Steps

theorem made_itself {key : String} {labels : Labels} {policy : DuplicatePolicy}
    {config : StoreConfig} {series : Series}
    (made : Series.new key labels policy config = .ok series) :
    Series.new series.key series.labels policy config = .ok series := by
  have same := Series.new_outcome made
  subst same
  exact made

theorem grows_create (key : String) (options : SeriesOptions) (session : Session) :
    Grows (create key options) session [] := by
  rcases create_outcome key options session with ⟨refused, failed⟩ |
    ⟨series, free, _, made, done⟩
  · exact grows_still (by rw [failed])
  · unfold Grows
    rw [done]
    exact .single (.created free (made_itself made))

theorem grows_apply_policy (key : String) (labels : Labels) (policy : Policy)
    (session : Session) : Grows (applyPolicy key labels policy) session [] := by
  unfold applyPolicy
  refine grows_bind (grows_still rfl) fun known after looked => ?_
  obtain ⟨_, rfl⟩ := Prod.mk.inj looked
  split
  · rcases create_outcome (policy.destinationFor key) { SeriesOptions.none with
        retention := some policy.retention, labels := labels } session with
      ⟨refused, failed⟩ | ⟨fed, free, named, made, done⟩
    · exact grows_error failed (.still session)
    · unfold Grows
      rw [perform_bind_ok done]
      rcases create_rule_outcome key (policy.destinationFor key) policy.kind policy.width
          (session.enrolled fed) with
        ⟨refused, failed⟩ | ⟨feeding, other, rule, different, present, unfed, _, _, ruled, linked⟩
      · rw [failed]
        exact .single (.created free (made_itself made))
      · -- the series and the rule to it are one step, before which the key was free
        have before : session.engine.series.get? key = some feeding := by
          rw [Session.enrolled, Engine.enroll, SortedMap.get?_insert, named,
            if_neg different] at present
          exact present
        rw [linked]
        rw [← named] at ruled
        exact .single (.fed before unfed free (made_itself made) ruled)
  · exact grows_still rfl

theorem grows_apply_policies (key : String) (labels : Labels) (policies : List Policy)
    (session : Session) : Grows (applyPolicies key labels policies) session [] := by
  induction policies generalizing session with
  | nil => exact grows_still rfl
  | cons policy later ih =>
      exact grows_bind (grows_apply_policy key labels policy session) fun _ after _ => ih after

theorem grows_ensure (key : String) (options : SeriesOptions) (session : Session) :
    Grows (ensure key options) session [] := by
  refine grows_bind (grows_still rfl) fun known after _ => ?_
  split
  · refine grows_bind (grows_create key options after) fun _ created _ => ?_
    exact grows_bind (grows_still rfl) fun _ same _ => grows_apply_policies _ _ _ same
  · exact grows_still rfl

/-- That a change of a series is an addition of a sample, if it succeeds. -/
def Adds (change : Series → Except Error (Series × Written)) : Prop :=
  ∀ series result, change series = .ok result →
    ∃ timestamp value override, series.add timestamp value override = .ok result

theorem adds_step (timestamp : Timestamp) (change : Value) : Adds (step timestamp change) := by
  intro series result accepted
  unfold step at accepted
  split at accepted
  · split at accepted
    · exact nomatch accepted
    · exact ⟨_, _, _, accepted⟩
  · exact ⟨_, _, _, accepted⟩

theorem adds_add (timestamp : Timestamp) (value : Value) (override : Option DuplicatePolicy) :
    Adds fun series => series.add timestamp value override :=
  fun _ _ accepted => ⟨timestamp, value, override, accepted⟩

theorem grows_write (key : String) {change : Series → Except Error (Series × Written)}
    (adds : Adds change) (session : Session) :
    Grows (write key change) session (acceptedBy key change session) := by
  unfold Grows acceptedBy
  rcases write_outcome key change session with ⟨absent, failed⟩ | ⟨old, present, outcome⟩
  · rw [absent, failed]
    exact .still session
  rw [present]
  dsimp only
  rcases outcome with ⟨refused, rejected, failed⟩ | ⟨new, written, accepted, done⟩
  · rw [rejected, failed]
    exact .single (.rejected refused.kind)
  · obtain ⟨timestamp, value, override, taken⟩ := adds old (new, written) accepted
    rw [accepted, done]
    exact .single (.wrote present taken)

theorem grows_add_many (samples : List (String × Sample)) (session : Session) :
    Grows (addMany samples) session (acceptedOfMany samples session) := by
  induction samples generalizing session with
  | nil => exact grows_still rfl
  | cons entry later ih =>
      obtain ⟨key, sample⟩ := entry
      have first := grows_write key (adds_add sample.timestamp sample.value none) session
      refine grows_ok rfl first ?_
      exact grows_bind (ih _) fun _ _ _ => grows_still rfl

theorem grows_after_ensuring (key : String) (options : SeriesOptions)
    {change : Series → Except Error (Series × Written)} (adds : Adds change)
    (session : Session) :
    Grows (ensure key options >>= fun _ => write key change) session
      (acceptedAfterEnsuring key options change session) := by
  have ensured := grows_ensure key options session
  unfold Grows at ensured
  unfold acceptedAfterEnsuring
  cases performed : (ensure key options).perform session with
  | mk result ready =>
      rw [performed] at ensured
      cases result with
      | error refused => exact grows_error performed ensured
      | ok answer => exact grows_ok performed ensured (grows_write key adds ready)

theorem grows_require (key : String) (session : Session) : Grows (require key) session [] := by
  apply grows_still
  rw [perform_require]
  cases session.engine.series.get? key <;> rfl

theorem grows_of_except (result : Except Error α) (session : Session) :
    Grows (ofExcept result) session [] :=
  grows_still (by rw [perform_of_except])

theorem grows_range (key : String) (request : RangeRequest) (session : Session) :
    Grows (range key request) session [] :=
  grows_bind (grows_require key session) fun _ after _ => grows_of_except _ after

theorem grows_query_index (filters : List Predicate) (session : Session) :
    Grows (queryIndex filters) session [] := by
  refine grows_bind (grows_still rfl) fun _ after _ => ?_
  exact grows_bind (grows_of_except _ after) fun _ _ _ => grows_still rfl

theorem grows_series_of (keys : List String) (session : Session) :
    Grows (seriesOf keys) session [] := by
  induction keys generalizing session with
  | nil => exact grows_still rfl
  | cons key later ih =>
      refine grows_bind (grows_still rfl) fun engine after _ => ?_
      split
      · exact grows_bind (ih after) fun _ _ _ => grows_still rfl
      · have told : (emit (.seriesVanished key)).perform after =
            (.ok (), after.tell (.seriesVanished key)) := rfl
        exact grows_ok told (.single (.vanished key)) (ih _)

theorem grows_matching (filters : List Predicate) (session : Session) :
    Grows (matching filters) session [] :=
  grows_bind (grows_query_index filters session) fun keys after _ => grows_series_of keys after

theorem grows_multi_range (request : MultiRangeRequest) (session : Session) :
    Grows (multiRange request) session [] := by
  refine grows_bind (grows_of_except _ session) fun _ checked _ => ?_
  refine grows_bind (grows_matching _ checked) fun _ found _ => ?_
  have signalled : (signal .multiRangeAnswered).perform found =
      (.ok (), { found with signals := .multiRangeAnswered :: found.signals }) := rfl
  exact grows_ok signalled (.single .answered) (grows_of_except _ _)

end Action

def Operation.grows : Operation → Bool
  | .request (.alter ..) => false
  | .request (.delete _) => false
  | .request (.notifyDeleted _) => false
  | .request (.createRule ..) => false
  | .request (.deleteRule ..) => false
  | .load _ => false
  | .snapshot _ => false
  | .restore => false
  | _ => true

theorem growth_request {request : Request} (grows : (Operation.request request).grows = true)
    (session : Session) : Grows request.action session (request.accepted session) := by
  cases request with
  | create key options => exact grows_create key options session
  | add key timestamp value override =>
      exact grows_quiet (grows_write key (adds_add timestamp value override) session)
  | addMany samples => exact grows_quiet (grows_add_many samples session)
  | addOrCreate key timestamp value options =>
      exact grows_quiet (grows_after_ensuring key options (adds_add timestamp value none) session)
  | increase key change timestamp options =>
      exact grows_quiet (grows_after_ensuring key options (adds_step timestamp change) session)
  | decrease key change timestamp options =>
      exact grows_quiet (grows_after_ensuring key options (adds_step timestamp change.neg) session)
  | alter | delete | notifyDeleted | createRule | deleteRule => exact nomatch grows

theorem grows_operation {operation : Operation} (grows : operation.grows = true)
    (session : Session) : Grows operation.action session (operation.accepted session) := by
  cases operation with
  | request asked => exact growth_request grows session
  | contains key =>
      have still : Grows (Action.contains key) session [] := grows_still rfl
      exact grows_quiet still
  | keys =>
      have still : Grows Action.keys session [] := grows_still rfl
      exact grows_quiet still
  | last key | info key _ | save key =>
      exact grows_quiet (grows_bind (grows_require key session) fun _ _ _ => grows_still rfl)
  | range key request => exact grows_quiet (grows_range key request session)
  | reverseRange key request => exact grows_quiet (grows_range key _ session)
  | multiRange request => exact grows_quiet (grows_multi_range request session)
  | lastOfMany filters _ =>
      exact grows_quiet (grows_bind (grows_matching filters session) fun _ _ _ => grows_still rfl)
  | queryIndex filters => exact grows_quiet (grows_query_index filters session)
  | load | snapshot | restore => exact nomatch grows

end Chronicle

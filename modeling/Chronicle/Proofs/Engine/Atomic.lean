import Chronicle.Proofs.Engine.Creation
import Chronicle.Proofs.Engine.Outcome
import Chronicle.Proofs.Series.Stepwise

/-!
Operations that fail. An operation goes through steps of which the earlier ones may have
changed something when a later one fails; none of them does. Whatever can fail comes before
the first change, so a failed operation leaves all series, the index over them and everything
that was reported as they were, and only a signal may tell of it.
-/

namespace Chronicle

namespace Session

section Config

variable {config : EngineConfig} {session after : Session}

theorem config_replace_all (engine : Engine) (series : List Series) :
    (engine.replaceAll series).config = engine.config := by
  unfold Engine.replaceAll
  exact List.foldlRecOn series Engine.enroll
    (motive := fun next : Engine => next.config = engine.config) rfl fun _ same _ _ => same

theorem config_grow {accepted : List Accepted} (grow : Grow session accepted after)
    (same : session.engine.config = config) : after.engine.config = config := by
  cases grow with
  | rejected | answered | vanished | created | fed => exact same
  | @wrote key old new _ _ _ written present taken =>
      have stored : (session.stored key new written).engine.config = config := same
      apply deliveries_keep (motive := fun session => session.engine.config = config) _ _ stored
      intro before next flush delivered held
      cases delivered <;> exact held

theorem config_outcome {operation : Operation} (outcome : Outcome session operation after)
    (same : session.engine.config = config) : after.engine.config = config := by
  cases outcome with
  | same | removed | linked | cut | loaded | saved => exact same
  | grown grows growth =>
      apply growth.keeps (motive := fun session => session.engine.config = config) _ same
      intro before next written grow held
      exact config_grow grow held
  | altered present taken =>
      unfold Session.altered
      dsimp only
      split <;> exact same
  | restored read => exact (config_replace_all _ _).trans same

theorem config_run (operations : List Operation) (same : session.engine.config = config) :
    (session.run operations).engine.config = config := by
  induction operations generalizing session with
  | nil => exact same
  | cons operation later ih => exact ih (config_outcome (outcome operation session) same)

end Config

/-- That nothing but signals tells two states of a session apart. -/
structure Unchanged (before after : Session) : Prop where
  engine : after.engine = before.engine
  directory : after.directory = before.directory
  events : after.events = before.events

theorem Unchanged.refl (session : Session) : session.Unchanged session := ⟨rfl, rfl, rfl⟩

end Session

namespace Action

variable {α : Type} {session : Session}

def Atomic (action : Action α) (session : Session) : Prop :=
  ∀ refused after, action.perform session = (.error refused, after) → session.Unchanged after

section Outcomes

variable {action : Action α}

theorem atomic_refused {refused : Error} {after : Session} (unchanged : session.Unchanged after)
    (failed : action.perform session = (.error refused, after)) : action.Atomic session := by
  intro _ _ performed
  rw [failed] at performed
  obtain ⟨_, rfl⟩ := Prod.mk.inj performed
  exact unchanged

theorem atomic_ok {answer : α} {after : Session}
    (done : action.perform session = (.ok answer, after)) : action.Atomic session := by
  intro _ _ performed
  rw [done] at performed
  exact nomatch performed

theorem atomic_still {answer : Except Error α} (done : action.perform session = (answer, session)) :
    action.Atomic session := by
  cases answer with
  | ok => exact atomic_ok done
  | error => exact atomic_refused (.refl session) done

theorem atomic_quiet (atomic : action.Atomic session) : action.quiet.Atomic session := by
  intro refused after performed
  unfold quiet at performed
  cases done : action.perform session with
  | mk result left =>
      cases result with
      | ok => exact nomatch (perform_bind_ok done).symm.trans performed
      | error reason =>
          have failed := (perform_bind_error done).symm.trans performed
          obtain ⟨_, rfl⟩ := Prod.mk.inj failed
          exact atomic reason left done

end Outcomes

theorem atomic_create (key : String) (options : SeriesOptions) :
    (create key options).Atomic session := by
  rcases create_outcome key options session with ⟨_, failed⟩ | ⟨_, _, _, _, done⟩
  · exact atomic_still failed
  · exact atomic_ok done

theorem atomic_alter (key : String) (alteration : Alteration) :
    (alter key alteration).Atomic session := by
  rcases alter_outcome key alteration session with ⟨_, failed⟩ | ⟨_, _, _, _, done⟩
  · exact atomic_still failed
  · exact atomic_ok done

theorem atomic_notify_deleted (key : String) : (notifyDeleted key).Atomic session := by
  rcases notify_deleted_outcome key session with ⟨_, done⟩ | ⟨_, _, done⟩
  · exact atomic_ok done
  · exact atomic_ok done

theorem atomic_delete (key : String) : (delete key).Atomic session := by
  rcases delete_outcome key session with ⟨_, failed⟩ | ⟨_, _, done⟩
  · exact atomic_still failed
  · exact atomic_ok done

theorem atomic_create_rule (source destination : String) (kind : AggregationKind)
    (width : Duration) : (createRule source destination kind width).Atomic session := by
  rcases create_rule_outcome source destination kind width session with ⟨_, failed⟩ |
    ⟨_, _, _, _, _, _, _, _, _, done⟩
  · exact atomic_still failed
  · exact atomic_ok done

theorem atomic_delete_rule (source destination : String) :
    (deleteRule source destination).Atomic session := by
  rcases delete_rule_outcome source destination session with ⟨_, failed⟩ | ⟨_, _, _, _, _, _, done⟩
  · exact atomic_still failed
  · exact atomic_ok done

theorem atomic_load (blob : Bytes) : (load blob).Atomic session := by
  rcases load_outcome blob session with ⟨_, failed⟩ | ⟨_, _, _, done⟩
  · exact atomic_still failed
  · exact atomic_ok done

theorem atomic_restore : restore.Atomic session := by
  rcases restore_outcome session with ⟨_, done⟩ | ⟨_, _, _, done⟩
  · exact atomic_still done
  · exact atomic_ok done

theorem atomic_write (key : String) (change : Series → Except Error (Series × Written)) :
    (write key change).Atomic session := by
  rcases write_outcome key change session with ⟨_, failed⟩ | ⟨_, _, outcome⟩
  · exact atomic_still failed
  · rcases outcome with ⟨_, _, failed⟩ | ⟨_, _, _, done⟩
    · refine atomic_refused ?_ failed
      exact ⟨rfl, rfl, rfl⟩
    · exact atomic_ok done

theorem add_many_succeeds (samples : List (String × Sample)) (session : Session) :
    ∃ answers after, (addMany samples).perform session = (.ok answers, after) := by
  induction samples generalizing session with
  | nil => exact ⟨_, _, rfl⟩
  | cons entry later ih =>
      obtain ⟨key, sample⟩ := entry
      have tried : (attempt (add key sample.timestamp sample.value none)).perform session =
          (.ok ((add key sample.timestamp sample.value none).perform session).1,
            ((add key sample.timestamp sample.value none).perform session).2) := rfl
      obtain ⟨answers, after, others⟩ :=
        ih ((add key sample.timestamp sample.value none).perform session).2
      exact ⟨_, after, by rw [addMany, perform_bind_ok tried, perform_bind_ok others]; rfl⟩

section Ensured

variable (sized : checkChunkSize session.engine.config.chunkSize = .ok ())
  (positive : ∀ policy ∈ session.engine.config.policies, policy.width ≠ 0)

include sized positive

/-- A write after creating on demand fails only if nothing was created. -/
theorem atomic_ensured (key : String) (options : SeriesOptions) {timestamp : Timestamp}
    {change : Series → Except Error (Series × Written)} (begins : Begins timestamp change) :
    Atomic (ensure key options >>= fun _ => write key change) session := by
  rcases ensure_outcome sized positive key options with ⟨_, done⟩ |
    ⟨_, ⟨refused, _, failed⟩ | ⟨middle, done, started⟩⟩
  · intro refused after performed
    rw [perform_bind_ok done] at performed
    exact atomic_write key change refused after performed
  · exact atomic_still (perform_bind_error failed)
  · obtain ⟨after, wrote⟩ := write_started begins started
    exact atomic_ok ((perform_bind_ok done).trans wrote)

theorem ensured_succeeds {key : String} {options : SeriesOptions} {created : Session}
    (creates : (create key options).perform session = (.ok (), created)) {timestamp : Timestamp}
    {change : Series → Except Error (Series × Written)} (begins : Begins timestamp change) :
    ∃ after, (ensure key options >>= fun _ => write key change).perform session =
      (.ok timestamp, after) := by
  rcases ensure_outcome sized positive key options with ⟨present, _⟩ |
    ⟨_, ⟨refused, failed, _⟩ | ⟨middle, done, started⟩⟩
  · rcases create_outcome key options session with ⟨_, failed⟩ | ⟨_, free, named, _, _⟩
    · rw [failed] at creates
      exact nomatch creates
    · rw [← named, free] at present
      exact nomatch present
  · rw [failed] at creates
    exact nomatch creates
  · obtain ⟨after, wrote⟩ := write_started begins started
    exact ⟨after, (perform_bind_ok done).trans wrote⟩

theorem atomic_request (request : Request) : request.action.Atomic session := by
  cases request with
  | create key options => exact atomic_create key options
  | alter key alteration => exact atomic_alter key alteration
  | delete key => exact atomic_delete key
  | notifyDeleted key => exact atomic_quiet (atomic_notify_deleted key)
  | add key timestamp value override => exact atomic_quiet (atomic_write key _)
  | addMany samples =>
      obtain ⟨_, _, done⟩ := add_many_succeeds samples session
      exact atomic_quiet (atomic_ok done)
  | addOrCreate key timestamp value options =>
      exact atomic_quiet
        (atomic_ensured sized positive key options (begins_add timestamp value none))
  | increase key change timestamp options =>
      exact atomic_quiet (atomic_ensured sized positive key options (begins_step timestamp change))
  | decrease key change timestamp options =>
      exact atomic_quiet
        (atomic_ensured sized positive key options (begins_step timestamp change.neg))
  | createRule source destination kind width =>
      exact atomic_create_rule source destination kind width
  | deleteRule source destination => exact atomic_delete_rule source destination

end Ensured

end Action

/-- Whether an operation is one that changes the series of an engine, where it succeeds. -/
def Operation.isChange : Operation → Bool
  | .request _ => true
  | .load _ => true
  | .restore => true
  | _ => false

namespace Session

open Chronicle.Action

/-- What a session promises about operations that fail, and about those that cannot. -/
structure Steadfast (session : Session) : Prop where
  failed : ∀ operation : Operation, operation.isChange = true → operation.action.Atomic session
  created : ∀ key options created, (create key options).perform session = (.ok (), created) →
    ∀ timestamp value,
      (∃ after, (addOrCreate key timestamp value options).perform session =
        (.ok timestamp, after)) ∧
      ∃ after, (increase key value timestamp options).perform session = (.ok timestamp, after)

theorem steadfast_checked {session : Session}
    (sized : checkChunkSize session.engine.config.chunkSize = .ok ())
    (positive : ∀ policy ∈ session.engine.config.policies, policy.width ≠ 0) :
    session.Steadfast where
  failed := by
    intro operation change
    cases operation with
    | request asked => exact atomic_request sized positive asked
    | load blob => exact atomic_quiet (atomic_load blob)
    | restore => exact atomic_quiet atomic_restore
    | contains | keys | last | range | reverseRange | multiRange | lastOfMany | queryIndex | info
      | save | snapshot => exact nomatch change
  created := by
    intro key options created creates timestamp value
    exact ⟨ensured_succeeds sized positive creates (begins_add timestamp value none),
      ensured_succeeds sized positive creates (begins_step timestamp value)⟩

/-- Whatever an engine went through, blobs and snapshots of any content included, an operation
that fails changes nothing, down to the series in which it would have changed something. -/
theorem failures_change_nothing {config : EngineConfig} {engine : Engine}
    (opened : Engine.new config = .ok engine)
    (positive : ∀ policy ∈ config.policies, policy.width ≠ 0) (directory : Directory)
    (operations : List Operation) :
    ((start engine directory).run operations).Steadfast ∧
      ∀ series : Series,
        (∀ alteration, (Series.alterInPlace alteration).run series = series.inPlace
          ((Error.ofArgument (series.alter alteration)).map fun after => (after, ()))) ∧
        ∀ timestamp value override, (Series.addInPlace timestamp value override).run series =
          series.inPlace (series.add timestamp value override) := by
  obtain ⟨_, sized, made⟩ := exists_of_bind_ok opened
  have same : (start engine directory).engine.config = config := by
    rw [← Except.ok.inj made]
    rfl
  have kept := config_run operations same
  constructor
  · exact steadfast_checked (by rw [kept]; exact sized) (by rw [kept]; exact positive)
  · intro series
    exact ⟨Series.alter_in_place series, Series.add_in_place series⟩

/-- Settings with two policies of which the second finds its destination taken. -/
def layered : EngineConfig :=
  { EngineConfig.default with policies := [⟨.avg, 60, 0⟩, ⟨.avg, 60, 5⟩] }

/-- A series with its destination, which is then deleted, a blob that is refused, and another
write. -/
def fedAndPruned : List Operation :=
  [.request (.addOrCreate "a" 5 .zero .none), .request (.delete "a_AVG_60"), .load [0x43],
    .request (.increase "a" .zero 70 .none)]

theorem failures_change_nothing_layered :
    Engine.new layered = .ok ⟨layered, ∅, .empty⟩ ∧
      (∀ policy ∈ layered.policies, policy.width ≠ 0) ∧
      ((start ⟨layered, ∅, .empty⟩ ∅).run fedAndPruned).Steadfast := by
  have opened : Engine.new layered = .ok ⟨layered, ∅, .empty⟩ := rfl
  have positive : ∀ policy ∈ layered.policies, policy.width ≠ 0 := by decide
  exact ⟨opened, positive, (failures_change_nothing opened positive ∅ fedAndPruned).1⟩

end Session

end Chronicle

import Chronicle.Proofs.Engine.Growth

/-!
What an operation can do to a session. It lets the session grow, or it makes the one change
that it was asked for, or it leaves everything as it is; what it looked up before stands
beside the change.
-/

namespace Chronicle

def Operation.removes : Operation → Option String
  | .request (.delete key) => some key
  | .request (.notifyDeleted key) => some key
  | _ => none

def Operation.cuts : Operation → Option (String × String)
  | .request (.deleteRule source destination) => some (source, destination)
  | _ => none

/-- The sessions that an operation can leave behind. -/
inductive Outcome (session : Session) : Operation → Session → Prop where
  | same {operation : Operation} (change : operation.grows = false) :
      Outcome session operation session
  | grown {operation : Operation} {after : Session} (grows : operation.grows = true)
      (growth : Growth session (operation.accepted session) after) :
      Outcome session operation after
  | altered {key : String} {alteration : Alteration} {old new : Series}
      (present : session.engine.series.get? key = some old)
      (taken : old.alter alteration = .ok new) :
      Outcome session (.request (.alter key alteration)) (session.altered key alteration old new)
  | removed {operation : Operation} {key : String} {gone : Series}
      (removes : operation.removes = some key)
      (present : session.engine.series.get? key = some gone) :
      Outcome session operation (session.removed key gone)
  | linked {source destination : String} {kind : AggregationKind} {width : Duration}
      {feeding fed : Series} {rule : Rule} (different : source ≠ destination)
      (present : session.engine.series.get? source = some feeding)
      (unfed : feeding.sourceKey = none)
      (presentFed : session.engine.series.get? destination = some fed)
      (unfedFed : fed.sourceKey = none)
      (ruled : Rule.new destination kind width = .ok rule) :
      Outcome session (.request (.createRule source destination kind width))
        (session.linked source rule)
  | cut {source destination : String} {feeding fed : Series}
      (present : session.engine.series.get? source = some feeding)
      (feeds : feeding.hasRuleTo destination = true)
      (presentFed : session.engine.series.get? destination = some fed)
      (sourceOfFed : fed.sourceKey = some source) :
      Outcome session (.request (.deleteRule source destination)) (session.cut source destination)
  | loaded {blob : Bytes} {series : Series} (read : Series.ofBlob blob = .ok series)
      (free : session.engine.series.get? series.key = none) :
      Outcome session (.load blob) (session.enrolled series)
  | saved (timestamp : Timestamp) : Outcome session (.snapshot timestamp) (session.saved timestamp)
  | restored {name : String} {series : List Series}
      (read : session.directory.newestSnapshot session.engine.config.snapshotPath =
        .ok (some (name, series))) :
      Outcome session .restore (session.restored name series)

namespace Action

variable {α : Type}

theorem perform_quiet (action : Action α) (session : Session) :
    (action.quiet.perform session).2 = (action.perform session).2 := by
  unfold quiet
  rw [perform_bind]
  cases action.perform session with
  | mk result after => cases result <;> rfl

theorem delete_outcome (key : String) (session : Session) :
    (session.engine.series.get? key = none ∧
        (delete key).perform session = (.error (.seriesNotFound key), session)) ∨
      ∃ gone, session.engine.series.get? key = some gone ∧
        (delete key).perform session = (.ok (), session.removed key gone) := by
  rcases notify_deleted_outcome key session with ⟨absent, done⟩ | ⟨gone, present, done⟩
  · exact Or.inl ⟨absent, by rw [delete, perform_bind_ok done]; rfl⟩
  · exact Or.inr ⟨gone, present, by rw [delete, perform_bind_ok done]; rfl⟩

end Action

open Chronicle.Action

theorem outcome_request (request : Request) (session : Session) :
    Outcome session (.request request) (session.step (.request request)) := by
  cases grows : (Operation.request request).grows with
  | true => exact .grown grows (grows_operation grows session)
  | false =>
      unfold Session.step
      cases request with
      | alter key alteration =>
          rcases alter_outcome key alteration session with ⟨refused, failed⟩ |
            ⟨old, new, present, taken, done⟩
          · rw [Operation.action, Request.action, failed]
            exact .same rfl
          · rw [Operation.action, Request.action, done]
            exact .altered present taken
      | delete key =>
          rcases delete_outcome key session with ⟨_, failed⟩ | ⟨gone, present, done⟩
          · rw [Operation.action, Request.action, failed]
            exact .same rfl
          · rw [Operation.action, Request.action, done]
            exact .removed rfl present
      | notifyDeleted key =>
          rw [Operation.action, Request.action, perform_quiet]
          rcases notify_deleted_outcome key session with ⟨_, done⟩ | ⟨gone, present, done⟩
          · rw [done]
            exact .same rfl
          · rw [done]
            exact .removed rfl present
      | createRule source destination kind width =>
          rcases create_rule_outcome source destination kind width session with
            ⟨refused, failed⟩ |
            ⟨feeding, fed, rule, different, present, unfed, presentFed, unfedFed, ruled, done⟩
          · rw [Operation.action, Request.action, failed]
            exact .same rfl
          · rw [Operation.action, Request.action, done]
            exact .linked different present unfed presentFed unfedFed ruled
      | deleteRule source destination =>
          rcases delete_rule_outcome source destination session with ⟨refused, failed⟩ |
            ⟨feeding, fed, present, feeds, presentFed, sourceOfFed, done⟩
          · rw [Operation.action, Request.action, failed]
            exact .same rfl
          · rw [Operation.action, Request.action, done]
            exact .cut present feeds presentFed sourceOfFed
      | create | add | addMany | addOrCreate | increase | decrease => exact nomatch grows

theorem outcome (operation : Operation) (session : Session) :
    Outcome session operation (session.step operation) := by
  cases grows : operation.grows with
  | true => exact .grown grows (grows_operation grows session)
  | false =>
      cases operation with
      | request asked => exact outcome_request asked session
      | load blob =>
          rw [Session.step, Operation.action, perform_quiet]
          rcases load_outcome blob session with ⟨refused, failed⟩ | ⟨series, read, free, done⟩
          · rw [failed]
            exact .same rfl
          · rw [done]
            exact .loaded read free
      | snapshot timestamp =>
          rw [Session.step, Operation.action]
          rcases snapshot_outcome timestamp session with ⟨refused, failed⟩ | done
          · rw [failed]
            exact .same rfl
          · rw [done]
            exact .saved timestamp
      | restore =>
          rw [Session.step, Operation.action, perform_quiet]
          rcases restore_outcome session with ⟨answer, done⟩ | ⟨name, series, read, done⟩
          · rw [done]
            exact .same rfl
          · rw [done]
            exact .restored read
      | contains | keys | last | range | reverseRange | multiRange | lastOfMany | queryIndex
        | info | save => exact nomatch grows

theorem grows_of_removes {operation : Operation} {key : String}
    (removes : operation.removes = some key) : operation.grows = false := by
  cases operation with
  | request asked => cases asked <;> first | rfl | exact nomatch removes
  | _ => exact nomatch removes

/-- Only operations that let a session grow write samples. -/
theorem accepted_of_change {operation : Operation} (change : operation.grows = false)
    (session : Session) : operation.accepted session = [] := by
  cases operation with
  | request asked => cases asked <;> first | rfl | exact nomatch change
  | _ => rfl

end Chronicle

import Chronicle.Engine.Keys
import Chronicle.Engine.Read
import Chronicle.Engine.Write

/-!
Operations: everything that an engine can be asked for. An action is a sequence of steps, each
of which starts where the one before it ended, and it ends early with the first that fails.
Requests are the operations that change the series of an engine from within, as opposed to
those that take series in from a blob or a snapshot; beside them there are reads, saved series
and snapshots. A run performs operations one after the other, also after one that failed.
-/

namespace Chronicle

namespace Action

variable {α β : Type}

theorem perform_bind (first : Action α) (next : α → Action β) (session : Session) :
    (first >>= next).perform session = match first.perform session with
      | (.ok answer, after) => (next answer).perform after
      | (.error refused, after) => (.error refused, after) := by
  simp only [perform, ExceptT.run_bind, StateT.run_bind]
  cases first.run.run session with
  | mk result after => cases result <;> rfl

theorem perform_bind_ok {first : Action α} {next : α → Action β} {session after : Session}
    {answer : α} (done : first.perform session = (.ok answer, after)) :
    (first >>= next).perform session = (next answer).perform after := by
  rw [perform_bind, done]

theorem perform_bind_error {first : Action α} {next : α → Action β} {session after : Session}
    {refused : Error} (failed : first.perform session = (.error refused, after)) :
    (first >>= next).perform session = (.error refused, after) := by
  rw [perform_bind, failed]

theorem perform_engine (session : Session) :
    engine.perform session = (.ok session.engine, session) := rfl

theorem perform_update (change : Engine → Engine) (session : Session) :
    (update change).perform session =
      (.ok (), { session with engine := change session.engine }) := rfl

theorem perform_of_except (result : Except Error α) (session : Session) :
    (ofExcept result).perform session = (result, session) := by
  cases result <;> rfl

theorem perform_of_argument (checked : Except ArgumentFault α) (session : Session) :
    (ofArgument checked).perform session = (Error.ofArgument checked, session) :=
  perform_of_except _ session

theorem perform_require (key : String) (session : Session) :
    (require key).perform session = match session.engine.series.get? key with
      | some series => (.ok series, session)
      | none => (.error (.seriesNotFound key), session) := by
  rw [require, perform_bind_ok (perform_engine session)]
  cases session.engine.series.get? key <;> rfl

theorem perform_require_some {key : String} {session : Session} {series : Series}
    (present : session.engine.series.get? key = some series) :
    (require key).perform session = (.ok series, session) := by
  rw [perform_require, present]

theorem perform_require_none {key : String} {session : Session}
    (absent : session.engine.series.get? key = none) :
    (require key).perform session = (.error (.seriesNotFound key), session) := by
  rw [perform_require, absent]

end Action

inductive Request where
  | create (key : String) (options : SeriesOptions)
  | alter (key : String) (alteration : Alteration)
  | delete (key : String)
  | notifyDeleted (key : String)
  | add (key : String) (timestamp : Timestamp) (value : Value)
      (override : Option DuplicatePolicy)
  | addMany (samples : List (String × Sample))
  | addOrCreate (key : String) (timestamp : Timestamp) (value : Value) (options : SeriesOptions)
  | increase (key : String) (change : Value) (timestamp : Timestamp) (options : SeriesOptions)
  | decrease (key : String) (change : Value) (timestamp : Timestamp) (options : SeriesOptions)
  | createRule (source destination : String) (kind : AggregationKind) (width : Duration)
  | deleteRule (source destination : String)

def Action.quiet {α : Type} (action : Action α) : Action Unit := action >>= fun _ => pure ()

namespace Request

/-- What a request does; its answer, unless it is an error, is dropped. -/
def action : Request → Action Unit
  | .create key options => Action.create key options
  | .alter key alteration => Action.alter key alteration
  | .delete key => Action.delete key
  | .notifyDeleted key => (Action.notifyDeleted key).quiet
  | .add key timestamp value override => (Action.add key timestamp value override).quiet
  | .addMany samples => (Action.addMany samples).quiet
  | .addOrCreate key timestamp value options =>
      (Action.addOrCreate key timestamp value options).quiet
  | .increase key change timestamp options =>
      (Action.increase key change timestamp options).quiet
  | .decrease key change timestamp options =>
      (Action.decrease key change timestamp options).quiet
  | .createRule source destination kind width => Action.createRule source destination kind width
  | .deleteRule source destination => Action.deleteRule source destination

def isCreateRule : Request → Bool
  | .createRule .. => true
  | _ => false

def succeeds (request : Request) (session : Session) : Bool :=
  (request.action.perform session).1.isOk

end Request

def Session.fresh (config : EngineConfig) (directory : Directory) : Session :=
  .start ⟨config, ∅, .empty⟩ directory

def Session.after (session : Session) (requests : List Request) : Session :=
  requests.foldl (fun session request => (request.action.perform session).2) session

inductive Operation where
  | request (request : Request)
  | contains (key : String)
  | keys
  | last (key : String)
  | range (key : String) (request : RangeRequest)
  | reverseRange (key : String) (request : RangeRequest)
  | multiRange (request : MultiRangeRequest)
  | lastOfMany (filters : List Predicate) (withLabels : Bool)
  | queryIndex (filters : List Predicate)
  | info (key : String) (withChunks : Bool)
  | save (key : String)
  | load (blob : Bytes)
  | snapshot (timestamp : Timestamp)
  | restore

namespace Operation

/-- What an operation does; its answer, unless it is an error, is dropped. -/
def action : Operation → Action Unit
  | .request asked => asked.action
  | .contains key => (Action.contains key).quiet
  | .keys => Action.keys.quiet
  | .last key => (Action.last key).quiet
  | .range key asked => (Action.range key asked).quiet
  | .reverseRange key asked => (Action.reverseRange key asked).quiet
  | .multiRange asked => (Action.multiRange asked).quiet
  | .lastOfMany filters withLabels => (Action.lastOfMany filters withLabels).quiet
  | .queryIndex filters => (Action.queryIndex filters).quiet
  | .info key withChunks => (Action.info key withChunks).quiet
  | .save key => (Action.save key).quiet
  | .load blob => (Action.load blob).quiet
  | .snapshot timestamp => Action.snapshot timestamp
  | .restore => Action.restore.quiet

/-- Whether an operation takes no series in from outside. -/
def isLocal : Operation → Bool
  | .load _ => false
  | .restore => false
  | _ => true

end Operation

namespace Session

def step (session : Session) (operation : Operation) : Session :=
  (operation.action.perform session).2

def run (session : Session) (operations : List Operation) : Session :=
  operations.foldl step session

/-- What every operation keeps that takes no series in is kept by a run of such. -/
theorem run_keeps {motive : Session → Prop}
    (each : ∀ {session : Session} {operation : Operation}, operation.isLocal = true →
      motive session → motive (session.step operation))
    {session : Session} {operations : List Operation}
    (stay : ∀ operation ∈ operations, operation.isLocal = true) (held : motive session) :
    motive (session.run operations) := by
  induction operations generalizing session with
  | nil => exact held
  | cons operation later ih =>
      have first := each (stay operation List.mem_cons_self) held
      exact ih (fun next member => stay next (List.mem_cons_of_mem operation member)) first

end Session

end Chronicle

import Chronicle.Engine
import Chronicle.Event
import Chronicle.Snapshot

/-!
Actions: what operations on an engine are made of. An action may change the engine
and the directory of its snapshots, reports events, gives signals, and answers or
fails. A failed action keeps the changes that it made before it failed, so whether
an operation changes anything when it fails is a matter of its order of steps.
-/

namespace Chronicle

/-- An engine with its snapshots, and everything it has reported, the last report first. -/
structure Session where
  engine : Engine
  directory : Directory
  events : List Event
  signals : List Signal

def Session.start (engine : Engine) (directory : Directory) : Session :=
  ⟨engine, directory, [], []⟩

abbrev Action := ExceptT Error (StateM Session)

namespace Action

variable {α : Type}

def perform (action : Action α) (session : Session) : Except Error α × Session :=
  action.run.run session

def engine : Action Engine := do return (← get).engine

def update (change : Engine → Engine) : Action Unit :=
  modify fun session => { session with engine := change session.engine }

def emit (event : Event) : Action Unit :=
  modify fun session => { session with events := event :: session.events }

def signal (signal : Signal) : Action Unit :=
  modify fun session => { session with signals := signal :: session.signals }

def signalCount : Action Unit := do
  signal (.seriesCount (← engine).series.size)

def ofExcept : Except Error α → Action α
  | .ok value => pure value
  | .error error => throw error

def ofArgument (checked : Except ArgumentFault α) : Action α :=
  ofExcept (Error.ofArgument checked)

def require (key : String) : Action Series := do
  match (← engine).series.get? key with
  | some series => pure series
  | none => throw (.seriesNotFound key)

/-- Performs an action whose failure is an answer like any other. -/
def attempt (action : Action α) : Action (Except Error α) :=
  fun session => match action.perform session with
    | (result, after) => (.ok result, after)

end Action

end Chronicle

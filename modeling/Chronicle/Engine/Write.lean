import Chronicle.Engine.Keys

/-!
Writing samples. A write that closes buckets delivers them to their destinations at
once; what becomes of a delivery never fails the write that caused it.
-/

namespace Chronicle

namespace Action

def reportTrim (key : String) (trimmed : Trimmed) : Action Unit := do
  if !trimmed.isEmpty then emit (.chunksTrimmed key trimmed)

def deliver (source : String) (flush : Flush) : Action Unit := do
  match (← engine).series.get? flush.destination with
  | none => emit (.destinationMissing source flush.destination)
  | some fed =>
      match fed.appendCompacted flush.timestamp flush.value with
      | .error error => emit (.flushFailed flush.destination error.message)
      | .ok (longer, trimmed) =>
          update (·.store longer flush.destination)
          signal .flushDelivered
          signal .sampleAppended
          reportTrim flush.destination trimmed

def deliverAll (source : String) : List Flush → Action Unit
  | [] => pure ()
  | flush :: later => do
      deliver source flush
      deliverAll source later

def reject (error : Error) : Action Timestamp := do
  signal (.writeRejected error.kind)
  throw error

def write (key : String) (change : Series → Except Error (Series × Written)) :
    Action Timestamp := do
  match change (← require key) with
  | .error error => reject error
  | .ok (changed, written) =>
      update (·.store changed key)
      signal (if written.kind = .appended then .sampleAppended else .sampleUpserted)
      reportTrim key written.trimmed
      deliverAll key written.flushes
      return written.timestamp

/-- Adds a sample; `override` takes the place of the duplicate policy of the series. -/
def add (key : String) (timestamp : Timestamp) (value : Value)
    (override : Option DuplicatePolicy) : Action Timestamp :=
  write key (fun series => series.add timestamp value override)

def applyPolicy (key : String) (labels : Labels) (policy : Policy) : Action Unit := do
  let destination := policy.destinationFor key
  if !(← contains destination) then
    create destination
      { SeriesOptions.none with retention := some policy.retention, labels := labels }
    createRule key destination policy.kind policy.width

def applyPolicies (key : String) (labels : Labels) : List Policy → Action Unit
  | [] => pure ()
  | policy :: later => do
      applyPolicy key labels policy
      applyPolicies key labels later

def ensure (key : String) (options : SeriesOptions) : Action Unit := do
  if !(← contains key) then
    create key options
    applyPolicies key options.labels (← engine).config.policies

def addOrCreate (key : String) (timestamp : Timestamp) (value : Value)
    (options : SeriesOptions) : Action Timestamp := do
  ensure key options
  add key timestamp value none

def addMany : List (String × Sample) → Action (List (Except Error Timestamp))
  | [] => pure []
  | (key, sample) :: later => do
      let result ← attempt (add key sample.timestamp sample.value none)
      let results ← addMany later
      return result :: results

/-- Writes the last value plus a change. At the last timestamp it overwrites; before it
it is refused. -/
def step (timestamp : Timestamp) (change : Value) (series : Series) :
    Except Error (Series × Written) :=
  match series.lastSample with
  | some last =>
      if timestamp < last.timestamp then
        .error (.timestampNotIncreasing timestamp last.timestamp)
      else series.add timestamp (Arithmetic.add last.value change) (some .last)
  | none => series.add timestamp (Arithmetic.add Binary64.zero change) (some .last)

/-- Counts up. A series that is not there yet starts from zero. -/
def increase (key : String) (change : Value) (timestamp : Timestamp)
    (options : SeriesOptions) : Action Timestamp := do
  ensure key options
  write key (step timestamp change)

def decrease (key : String) (change : Value) (timestamp : Timestamp)
    (options : SeriesOptions) : Action Timestamp :=
  increase key change.neg timestamp options

end Action

end Chronicle

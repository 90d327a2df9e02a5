import Chronicle.Engine.Action
import Chronicle.Text.Lines

/-!
What changes which series there are: creating, altering and deleting them, loading one from a
blob and all of them from a snapshot. A compaction rule links two of them; it is entered in
its source and, as the source key, in its destination.
-/

namespace Chronicle

namespace Action

def enroll (series : Series) : Action Unit := do
  if (← engine).series.contains series.key then throw (.keyExists series.key)
  update (·.enroll series)
  signalCount
  emit (.seriesCreated series.key)

/-- Creates an empty series; the engine's settings fill what its options leave open. -/
def create (key : String) (options : SeriesOptions) : Action Unit := do
  if key.isEmpty then throw (.invalidArgument .emptySeriesKey)
  let config := (← engine).config
  let series ← ofArgument (Series.new key options.labels
    (options.duplicatePolicy.getD config.duplicatePolicy) (config.storeConfig options))
  enroll series

/-- Changes the settings of a series. New labels are filed at once. -/
def alter (key : String) (alteration : Alteration) : Action Unit := do
  let series ← require key
  let altered ← ofArgument (series.alter alteration)
  update (·.store altered key)
  if alteration.labels.isSome && altered.labels ≠ series.labels then
    update (·.refile key series.labels altered.labels)

/-- Removes a key that may be gone already, and takes it off all rules. Says whether it
was there. -/
def notifyDeleted (key : String) : Action Bool := do
  match (← engine).series.get? key with
  | none => return false
  | some series =>
      update (·.dismiss key series)
      signalCount
      update (·.unlink key series)
      emit (.seriesDeleted key)
      return true

def delete (key : String) : Action Unit := do
  if !(← notifyDeleted key) then throw (.seriesNotFound key)

def contains (key : String) : Action Bool := do return (← engine).series.contains key

def keys : Action (List String) := do return (← engine).series.keys

end Action

namespace Action

/-- Creates a rule. Its source must not be fed by a rule, and its destination not yet. -/
def createRule (source destination : String) (kind : AggregationKind) (width : Duration) :
    Action Unit := do
  if source = destination then throw (.sameSourceAndDestination source)
  let rule ← ofArgument (Rule.new destination kind width)
  let feeding ← require source
  let fed ← require destination
  if feeding.sourceKey.isSome then throw (.sourceIsDestination source)
  if fed.sourceKey.isSome then throw (.destinationHasSource destination)
  update (·.link source rule)
  emit (.ruleCreated source destination)

def deleteRule (source destination : String) : Action Unit := do
  let feeding ← require source
  let fed ← require destination
  if !feeding.hasRuleTo destination || fed.sourceKey ≠ some source then
    throw (.ruleNotFound source destination)
  update (·.cut source destination)
  emit (.ruleDeleted source destination)

end Action

open Text

def EngineConfig.snapshotPath (config : EngineConfig) : String :=
  joinPath config.dataDirectory "snapshots"

namespace Action

def save (key : String) : Action Bytes := do return (← require key).toBlob

def load (blob : Bytes) : Action String := do
  let series ← ofExcept (Series.ofBlob blob)
  enroll series
  return series.key

def requireSnapshots : Action String := do
  let config := (← engine).config
  if !config.snapshotsEnabled then throw (.setting .snapshotsDisabled)
  return config.snapshotPath

def snapshot (timestamp : Timestamp) : Action Unit := do
  let path ← requireSnapshots
  let engine ← engine
  modify fun session =>
    let longer := session.directory.addSnapshot timestamp engine.series.values
    { session with directory := (longer.prune engine.config.snapshotsKept).1 }
  signal .snapshotWritten
  emit (.snapshotCreated (joinPath path (Snapshot.fileName timestamp)) timestamp)

/-- Replaces all series by those of the newest snapshot, and says how many it holds.
Without a snapshot nothing changes. -/
def restore : Action Nat := do
  let path ← requireSnapshots
  match ← ofExcept ((← get).directory.newestSnapshot path) with
  | none => return 0
  | some (name, series) =>
      update (·.replaceAll series)
      signalCount
      emit (.snapshotRestored (joinPath path name) series.length)
      return series.length

end Action

end Chronicle

import Chronicle.Compaction

/-!
One series: its key and labels, its samples, the rules that it feeds and the series
that feeds it. Writing a sample says how the sample was stored, what retention
dropped, and which buckets it closed; delivering those is not the series' business. Altering
and writing are also done in place, as in a store.
-/

namespace Chronicle

/-- What may be chosen when a series is created; a default fills each gap. -/
structure SeriesOptions where
  retention : Option Duration
  chunkSize : Option Nat
  encoding : Option ChunkEncoding
  duplicatePolicy : Option DuplicatePolicy
  labels : Labels

namespace SeriesOptions

def none : SeriesOptions := ⟨.none, .none, .none, .none, ∅⟩

end SeriesOptions

structure Alteration where
  retention : Option Duration
  chunkSize : Option Nat
  duplicatePolicy : Option DuplicatePolicy
  labels : Option Labels

/-- Labels have a name and a value. The first that lacks one is reported. -/
def checkLabels (labels : Labels) : Except ArgumentFault Unit :=
  match labels.entries.find? (fun entry => entry.1.isEmpty || entry.2.isEmpty) with
  | some (name, value) => .error (.emptyLabel name value)
  | none => .ok ()

structure Series where
  key : String
  labels : Labels
  duplicatePolicy : DuplicatePolicy
  store : Store
  /-- The series whose rule fills this one. -/
  sourceKey : Option String
  rules : List Rule
deriving DecidableEq

inductive WriteKind where
  | appended
  | inserted
  | merged
deriving DecidableEq

def WriteKind.name : WriteKind → String
  | appended => "appended"
  | inserted => "inserted"
  | merged => "merged"

structure Written where
  timestamp : Timestamp
  kind : WriteKind
  trimmed : Trimmed
  /-- The buckets that the write closed, in the order of the rules. -/
  flushes : List Flush

namespace Series

def new (key : String) (labels : Labels) (duplicatePolicy : DuplicatePolicy)
    (config : StoreConfig) : Except ArgumentFault Series := do
  checkLabels labels
  checkChunkSize config.chunkSize
  .ok
    { key := key
      labels := labels
      duplicatePolicy := duplicatePolicy
      store := .new config
      sourceKey := none
      rules := [] }

def retention (series : Series) : Duration := series.store.config.retention

def lastSample (series : Series) : Option Sample := series.store.lastSample

def hasRuleTo (series : Series) (destination : String) : Bool :=
  series.rules.any (fun rule => rule.destination = destination)

def addRule (series : Series) (rule : Rule) : Series :=
  { series with rules := series.rules ++ [rule] }

def ruleTo? (series : Series) (destination : String) : Option Rule :=
  series.rules.find? (fun rule => rule.destination = destination)

def removeRule (series : Series) (destination : String) : Series :=
  { series with
    rules := series.rules.eraseP (fun rule => rule.destination = destination) }

def setSource (series : Series) (source : Option String) : Series :=
  { series with sourceKey := source }

def alter (series : Series) (alteration : Alteration) : Except ArgumentFault Series := do
  if let some labels := alteration.labels then checkLabels labels
  if let some bytes := alteration.chunkSize then checkChunkSize bytes
  let config := series.store.config
  let config := { config with
    retention := alteration.retention.getD config.retention
    chunkSize := alteration.chunkSize.getD config.chunkSize }
  .ok { series with
    labels := alteration.labels.getD series.labels
    duplicatePolicy := alteration.duplicatePolicy.getD series.duplicatePolicy
    store := { series.store with config := config } }

def isTooOld (series : Series) (timestamp : Timestamp) : Bool :=
  !series.store.isEmpty && series.retention != 0 &&
    timestamp < series.store.lastTimestamp &&
    series.retention < series.store.lastTimestamp - timestamp

/-- Writes a sample. At or before the last timestamp it is inserted or merged and no
rule sees it; after it, it is appended and every rule takes it in. -/
def add (series : Series) (timestamp : Timestamp) (value : Value)
    (override : Option DuplicatePolicy) : Except Error (Series × Written) :=
  if series.isTooOld timestamp then
    .error (.outOfRetention timestamp series.store.lastTimestamp series.retention)
  else if !series.store.isEmpty && timestamp <= series.store.lastTimestamp then do
    let policy := override.getD series.duplicatePolicy
    let (store, inserted) ← series.store.upsert timestamp value policy
    .ok ({ series with store := store },
      { timestamp := timestamp
        kind := if inserted then .inserted else .merged
        trimmed := .nothing
        flushes := [] })
  else do
    let (store, trimmed) ← series.store.append timestamp value
    let fed := series.rules.map (fun rule => rule.take ⟨timestamp, value⟩)
    .ok ({ series with store := store, rules := fed.map (·.1) },
      { timestamp := timestamp
        kind := .appended
        trimmed := trimmed
        flushes := fed.filterMap (·.2) })

/-- Appends what a rule delivers. The duplicate policy and the rules of this series
play no part. -/
def appendCompacted (series : Series) (timestamp : Timestamp) (value : Value) :
    Except Error (Series × Trimmed) := do
  let (store, trimmed) ← series.store.append timestamp value
  .ok ({ series with store := store }, trimmed)

/-- Changing a series in place; also a change that fails leaves a series. -/
abbrev InPlace := EStateM Error Series

def onStore {α : Type} (change : Store.InPlace α) : InPlace α := fun series =>
  match change.run series.store with
  | .ok answer store => .ok answer { series with store := store }
  | .error refused store => .error refused { series with store := store }

def checked (result : Except ArgumentFault Unit) : InPlace Unit :=
  match Error.ofArgument result with
  | .ok () => pure ()
  | .error refused => throw refused

def assign (alteration : Alteration) : InPlace Unit := do
  if let some retention := alteration.retention then
    modify fun series => { series with store := series.store.setRetention retention }
  if let some bytes := alteration.chunkSize then
    modify fun series => { series with store := series.store.setChunkSize bytes }
  if let some policy := alteration.duplicatePolicy then
    modify fun series => { series with duplicatePolicy := policy }
  if let some labels := alteration.labels then
    modify fun series => { series with labels := labels }

def alterInPlace (alteration : Alteration) : InPlace Unit := do
  if let some labels := alteration.labels then checked (checkLabels labels)
  if let some bytes := alteration.chunkSize then checked (checkChunkSize bytes)
  assign alteration

def feedInPlace (sample : Sample) : InPlace (List Flush) :=
  modifyGet fun series =>
    (series.rules.filterMap fun rule => (rule.take sample).2,
      { series with rules := series.rules.map fun rule => (rule.take sample).1 })

def addInPlace (timestamp : Timestamp) (value : Value) (override : Option DuplicatePolicy) :
    InPlace Written := do
  let series ← get
  if series.isTooOld timestamp then
    throw (.outOfRetention timestamp series.store.lastTimestamp series.retention)
  if !series.store.isEmpty && timestamp <= series.store.lastTimestamp then
    let policy := override.getD series.duplicatePolicy
    let inserted ← onStore (Store.upsertInPlace timestamp value policy)
    return ⟨timestamp, if inserted then .inserted else .merged, .nothing, []⟩
  let trimmed ← onStore (Store.appendInPlace timestamp value)
  let flushes ← feedInPlace ⟨timestamp, value⟩
  return ⟨timestamp, .appended, trimmed, flushes⟩

/-- What the outcome of an operation says about making it in place. -/
def inPlace {α : Type} (series : Series) : Except Error (Series × α) → EStateM.Result Error Series α
  | .ok (after, answer) => .ok answer after
  | .error refused => .error refused series

end Series

end Chronicle

import Chronicle.Chunk
import Chronicle.Number.Counter

/-!
The samples of one series: chunks in timestamp order, each filed under its first
timestamp, with the settings that govern how they grow and when they are dropped.
Writing at the end, writing at or before the end, and dropping what is too old are
the only changes; reading is in `Chronicle.Store.Range`. Writing is also done in place, one
assignment after the other, so that a failure leaves behind whatever was assigned before it.
-/

namespace Chronicle

/-- The settings of one store. A retention of zero keeps everything. -/
structure StoreConfig where
  encoding : ChunkEncoding
  chunkSize : Nat
  retention : Duration
  /-- Whether a compressed chunk may be rebuilt for a write into its middle. -/
  compressedUpsert : Bool
deriving DecidableEq

def defaultChunkSize : Nat := 4096

namespace StoreConfig

def default : StoreConfig where
  encoding := .compressed
  chunkSize := defaultChunkSize
  retention := 0
  compressedUpsert := false

instance : Inhabited StoreConfig := ⟨default⟩

end StoreConfig

structure Trimmed where
  chunks : Nat
  samples : Nat
deriving DecidableEq

namespace Trimmed

def nothing : Trimmed := ⟨0, 0⟩

def isEmpty (trimmed : Trimmed) : Bool := trimmed.chunks = 0

end Trimmed

structure Store where
  config : StoreConfig
  chunks : SortedMap Timestamp Chunk
  lastTimestamp : Timestamp
  lastValue : Value
  totalSamples : Counter
deriving DecidableEq

namespace Store

def new (config : StoreConfig) : Store where
  config := config
  chunks := ∅
  lastTimestamp := 0
  lastValue := .zero
  totalSamples := 0

def isEmpty (store : Store) : Bool := store.chunks.isEmpty

def firstTimestamp (store : Store) : Option Timestamp := store.chunks.first?.map (·.1)

def lastSample (store : Store) : Option Sample :=
  if store.isEmpty then none else some ⟨store.lastTimestamp, store.lastValue⟩

def chunkInfos (store : Store) : List ChunkInfo := store.chunks.values.map Chunk.info

def payloadSize (store : Store) : Nat := total Chunk.size store.chunks.values

def setRetention (store : Store) (retention : Duration) : Store :=
  { store with config := { store.config with retention := retention } }

/-- The budget of chunks that are opened or written to from now on. -/
def setChunkSize (store : Store) (bytes : Nat) : Store :=
  { store with config := { store.config with chunkSize := bytes } }

def contents (store : Store) : Except Error (List Sample) := do
  let runs ← store.chunks.values.mapM Chunk.samples
  .ok runs.flatten

/-- The chunks, oldest first, that ended before a moment. The newest never counts. -/
def expired (earliest : Timestamp) : List (Timestamp × Chunk) → List Chunk
  | (_, chunk) :: next :: later =>
      if chunk.lastTimestamp < earliest then chunk :: expired earliest (next :: later) else []
  | _ => []

def oldestEnded (store : Store) (earliest : Timestamp) : Bool :=
  store.chunks.first?.any (fun oldest => oldest.2.lastTimestamp < earliest)

def trim (store : Store) (now : Timestamp) : Store × Trimmed :=
  let earliest := windowStart now store.config.retention
  if store.config.retention = 0 || !store.oldestEnded earliest then (store, .nothing)
  else
    let dropped := expired earliest store.chunks.entries
    let samples := Counter.sum (dropped.map Chunk.counter)
    ({ store with
        chunks := store.chunks.drop dropped.length
        totalSamples := store.totalSamples.less samples },
      ⟨dropped.length, samples.shown⟩)

/-- The chunks after a sample at the end: the open chunk takes it if it has room. -/
def extend (store : Store) (sample : Sample) : SortedMap Timestamp Chunk :=
  match store.chunks.last? with
  | some (key, newest) =>
      if newest.isFull store.config.chunkSize then
        store.chunks.insert sample.timestamp (.ofSample store.config.encoding sample)
      else store.chunks.insert key (newest.push sample)
  | none => store.chunks.insert sample.timestamp (.ofSample store.config.encoding sample)

def append (store : Store) (timestamp : Timestamp) (value : Value) :
    Except Error (Store × Trimmed) :=
  if !store.isEmpty && timestamp <= store.lastTimestamp then
    .error (.timestampNotIncreasing timestamp store.lastTimestamp)
  else
    let longer := { store with
      chunks := store.extend ⟨timestamp, value⟩
      lastTimestamp := timestamp
      lastValue := value
      totalSamples := store.totalSamples + 1 }
    .ok (longer.trim timestamp)

/-- The chunk that a timestamp belongs to: the last that begins at or before it, or
else the first of all. -/
def covering? (store : Store) (timestamp : Timestamp) : Option (Timestamp × Chunk) :=
  (store.chunks.floor? timestamp).or store.chunks.first?

/-- Files a chunk that changed under its first timestamp instead of its old key. -/
def refile (chunks : SortedMap Timestamp Chunk) (key : Timestamp) (chunk : Chunk) :
    SortedMap Timestamp Chunk :=
  if chunk.firstTimestamp = key then chunks.insert key chunk
  else (chunks.erase key).insert chunk.firstTimestamp chunk

/-- Inserts or merges a sample at or before the end; a newer one is appended. The flag
says whether a timestamp was added. Merging into the newest sample touches only the
open chunk and is therefore always allowed. -/
def upsert (store : Store) (timestamp : Timestamp) (value : Value)
    (policy : DuplicatePolicy) : Except Error (Store × Bool) :=
  if store.isEmpty || store.lastTimestamp < timestamp then do
    let (longer, _) ← store.append timestamp value
    .ok (longer, true)
  else
    match store.covering? timestamp with
    | none => .error (.damaged (.uncovered timestamp))
    | some (key, covering) => do
        let rebuild := store.config.compressedUpsert || timestamp = store.lastTimestamp
        let (changed, inserted) ← covering.upsert ⟨timestamp, value⟩ policy rebuild
        let halves ← if changed.needsSplit store.config.chunkSize then changed.split
          else .ok none
        let chunks := match halves with
          | some (lower, upper) =>
              (refile store.chunks key lower).insert upper.firstTimestamp upper
          | none => refile store.chunks key changed
        let lastValue :=
          if timestamp = store.lastTimestamp then
            ((chunks.last?).map (·.2.lastSample.value)).getD store.lastValue
          else store.lastValue
        .ok ({ store with
          chunks := chunks
          lastValue := lastValue
          totalSamples := store.totalSamples + (if inserted then 1 else 0) }, inserted)

/-- Writing to a store in place; also a write that fails leaves a store. -/
abbrev InPlace := EStateM Error Store

def attempt {α : Type} : Except Error α → InPlace α
  | .ok answer => pure answer
  | .error refused => throw refused

def appendInPlace (timestamp : Timestamp) (value : Value) : InPlace Trimmed := do
  let store ← get
  if !store.isEmpty && timestamp <= store.lastTimestamp then
    throw (.timestampNotIncreasing timestamp store.lastTimestamp)
  modify fun store => { store with chunks := store.extend ⟨timestamp, value⟩ }
  modify fun store => { store with lastTimestamp := timestamp, lastValue := value }
  modify fun store => { store with totalSamples := store.totalSamples + 1 }
  modifyGet fun store => ((store.trim timestamp).2, (store.trim timestamp).1)

def keep (key : Timestamp) (chunk : Chunk) : InPlace Unit :=
  modify fun store => { store with chunks := store.chunks.insert key chunk }

/-- Splits the chunk under a key if it has outgrown the budget; the upper half is handed
on, the lower one stays. -/
def splitInPlace (key : Timestamp) (chunk : Chunk) : InPlace (Chunk × Option Chunk) := do
  let store ← get
  if chunk.needsSplit store.config.chunkSize then
    match ← attempt chunk.split with
    | some (lower, upper) =>
        keep key lower
        return (lower, some upper)
    | none => return (chunk, none)
  return (chunk, none)

def rekey (key : Timestamp) (chunk : Chunk) : InPlace Unit := do
  if chunk.firstTimestamp ≠ key then
    modify fun store => { store with
      chunks := (store.chunks.erase key).insert chunk.firstTimestamp chunk }

/-- Puts the upper half of a chunk, if it was split, under its own key. -/
def keepUpper : Option Chunk → InPlace Unit
  | some upper => keep upper.firstTimestamp upper
  | none => pure ()

def countInserted (inserted : Bool) : InPlace Unit := do
  if inserted then
    modify fun store => { store with totalSamples := store.totalSamples + 1 }

def settleLast (timestamp : Timestamp) : InPlace Unit := do
  let store ← get
  if timestamp = store.lastTimestamp then
    modify fun store => { store with
      lastValue := ((store.chunks.last?).map (·.2.lastSample.value)).getD store.lastValue }

def upsertInPlace (timestamp : Timestamp) (value : Value) (policy : DuplicatePolicy) :
    InPlace Bool := do
  let store ← get
  if store.isEmpty || store.lastTimestamp < timestamp then
    let _ ← appendInPlace timestamp value
    return true
  match store.covering? timestamp with
  | none => throw (.damaged (.uncovered timestamp))
  | some (key, covering) =>
      let rebuild := store.config.compressedUpsert || timestamp = store.lastTimestamp
      let (changed, inserted) ← attempt (covering.upsert ⟨timestamp, value⟩ policy rebuild)
      keep key changed
      let (lower, upper) ← splitInPlace key changed
      rekey key lower
      keepUpper upper
      countInserted inserted
      settleLast timestamp
      return inserted

/-- What a computation of the store after a write says about writing in place. -/
def inPlace {α : Type} (store : Store) : Except Error (Store × α) → EStateM.Result Error Store α
  | .ok (after, answer) => .ok answer after
  | .error refused => .error refused store

end Store

end Chronicle

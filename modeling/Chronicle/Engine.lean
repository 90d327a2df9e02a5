import Chronicle.Compaction
import Chronicle.Query.Index
import Chronicle.Series

/-!
The state of an engine: its settings, all series by key with the label index over them, and
the changes that can be made to it as a whole. Nothing is checked here; what may change
and when is decided by the operations in the modules below this one.
-/

namespace Chronicle

structure EngineConfig where
  retention : Duration
  chunkSize : Nat
  encoding : ChunkEncoding
  duplicatePolicy : DuplicatePolicy
  compressedUpsert : Bool
  policies : List Policy
  dataDirectory : String
  snapshotsEnabled : Bool
  /-- Seconds between two snapshots of a running daemon. -/
  snapshotInterval : UInt64
  /-- How many snapshots are left after a new one. -/
  snapshotsKept : Nat

namespace EngineConfig

def default : EngineConfig where
  retention := 0
  chunkSize := defaultChunkSize
  encoding := .compressed
  duplicatePolicy := .block
  compressedUpsert := false
  policies := []
  dataDirectory := "./data"
  snapshotsEnabled := false
  snapshotInterval := 900
  snapshotsKept := 3

instance : Inhabited EngineConfig := ⟨default⟩

/-- The settings of a new series: its own choices, then those of the engine. -/
def storeConfig (config : EngineConfig) (options : SeriesOptions) : StoreConfig where
  encoding := options.encoding.getD config.encoding
  chunkSize := options.chunkSize.getD config.chunkSize
  retention := options.retention.getD config.retention
  compressedUpsert := config.compressedUpsert

end EngineConfig

structure Engine where
  config : EngineConfig
  series : SortedMap String Series
  index : LabelIndex

namespace Engine

def new (config : EngineConfig) : Except ArgumentFault Engine := do
  checkChunkSize config.chunkSize
  .ok ⟨config, ∅, .empty⟩

def plain : Engine := ⟨.default, ∅, .empty⟩

def store (engine : Engine) (series : Series) (key : String) : Engine :=
  { engine with series := engine.series.insert key series }

def enroll (engine : Engine) (series : Series) : Engine :=
  { engine with
    series := engine.series.insert series.key series
    index := engine.index.add series.key series.labels }

def dismiss (engine : Engine) (key : String) (series : Series) : Engine :=
  { engine with
    series := engine.series.erase key
    index := engine.index.remove key series.labels }

def refile (engine : Engine) (key : String) (old new : Labels) : Engine :=
  { engine with index := (engine.index.remove key old).add key new }

def clearSource (source : String) (series : Series) : Series :=
  if series.sourceKey = some source then series.setSource none else series

/-- Takes a key that is gone off the rules: its source forgets the rule to it, and the
series that it fed forget their source. -/
def unlink (engine : Engine) (key : String) (gone : Series) : Engine :=
  let withoutRule := match gone.sourceKey with
    | some source => engine.series.adjust source (·.removeRule key)
    | none => engine.series
  { engine with
    series := (gone.rules.map (·.destination)).foldl
      (fun series destination => series.adjust destination (clearSource key)) withoutRule }

def link (engine : Engine) (source : String) (rule : Rule) : Engine :=
  { engine with
    series := (engine.series.adjust source (·.addRule rule)).adjust rule.destination
      (·.setSource (some source)) }

def cut (engine : Engine) (source destination : String) : Engine :=
  { engine with
    series := (engine.series.adjust source (·.removeRule destination)).adjust destination
      (·.setSource none) }

/-- An engine with exactly these series. Of two with one key the later one counts. -/
def replaceAll (engine : Engine) (series : List Series) : Engine :=
  series.foldl enroll { engine with series := ∅, index := .empty }

end Engine

end Chronicle

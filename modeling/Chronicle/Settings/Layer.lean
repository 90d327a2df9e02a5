import Chronicle.Engine
import Chronicle.Settings.Scalar
import Chronicle.Settings.Table
import Chronicle.Settings.Toml

/-!
Layers of settings. A layer sets some settings and leaves the others alone; it is
read from a file and the environment, and laid over the settings of an engine.
-/

namespace Chronicle

structure SettingsLayer where
  retention : Option Duration
  chunkSize : Option Nat
  encoding : Option ChunkEncoding
  duplicatePolicy : Option DuplicatePolicy
  compressedUpsert : Option Bool
  /-- A list of compaction policies as text. -/
  policies : Option String
  dataDirectory : Option String
  snapshotsEnabled : Option Bool
  snapshotInterval : Option UInt64
  snapshotsKept : Option Nat

namespace SettingsLayer

def names : List String :=
  ["retention_ms", "chunk_size_bytes", "encoding", "duplicate_policy", "compressed_upsert",
    "compaction_policy", "data_dir", "enable_snapshots", "snapshot_interval_secs",
    "snapshots_to_keep"]

def field {α : Type} (table : SettingsTable) (name : String) (as? : Setting → Option α) :
    Except SettingFault (Option α) :=
  match table.get? name with
  | none => .ok none
  | some setting =>
      match as? setting with
      | some taken => .ok (some taken)
      | none => .error (.shape ("invalid value for " ++ name))

def wordField (table : SettingsTable) (name : String) : Except SettingFault (Option UInt64) :=
  field table name (Setting.asValue? Scalar.asWord?)

def flagField (table : SettingsTable) (name : String) : Except SettingFault (Option Bool) :=
  field table name (Setting.asValue? Scalar.asFlag?)

def textField (table : SettingsTable) (name : String) : Except SettingFault (Option String) :=
  field table name (Setting.asValue? (fun scalar => some scalar.asText))

def ofTable (table : SettingsTable) : Except SettingFault SettingsLayer := do
  let retention ← wordField table "retention_ms"
  let chunkSize ← wordField table "chunk_size_bytes"
  let encoding ← field table "encoding" (Setting.asNamed? ChunkEncoding.all ChunkEncoding.name)
  let duplicatePolicy ← field table "duplicate_policy"
    (Setting.asNamed? DuplicatePolicy.all DuplicatePolicy.name)
  let compressedUpsert ← flagField table "compressed_upsert"
  let policies ← textField table "compaction_policy"
  let dataDirectory ← textField table "data_dir"
  let snapshotsEnabled ← flagField table "enable_snapshots"
  let snapshotInterval ← wordField table "snapshot_interval_secs"
  let snapshotsKept ← wordField table "snapshots_to_keep"
  .ok ⟨retention, chunkSize.map UInt64.toNat, encoding, duplicatePolicy, compressedUpsert,
    policies, dataDirectory, snapshotsEnabled, snapshotInterval, snapshotsKept.map UInt64.toNat⟩

/-- The layer of a settings file, if there is one, and of the environment, which wins. -/
def read (file : Option String) (environment : Environment) :
    Except SettingFault SettingsLayer := do
  let written ← match file with
    | some text => Toml.parse text
    | none => .ok ∅
  let table : SettingsTable := ∅
  ofTable ((table.enterAll written).enterAll environment.bindings)

def lay {α : Type} (setting : Option α)
    (change : EngineConfig → α → Except SettingFault EngineConfig) (config : EngineConfig) :
    Except SettingFault EngineConfig :=
  match setting with
  | some value => change config value
  | none => .ok config

def layChunkSize (config : EngineConfig) (bytes : Nat) : Except SettingFault EngineConfig :=
  match checkChunkSize bytes with
  | .ok _ => .ok { config with chunkSize := bytes }
  | .error fault => .error (.chunkSize fault)

def layPolicies (config : EngineConfig) (text : String) : Except SettingFault EngineConfig :=
  match Policy.parseList text.toList with
  | .ok policies => .ok { config with policies := policies }
  | .error fault => .error (.compactionPolicy fault)

def layInterval (config : EngineConfig) (seconds : UInt64) :
    Except SettingFault EngineConfig :=
  if seconds = 0 then .error .zeroSnapshotInterval
  else .ok { config with snapshotInterval := seconds }

def steps (layer : SettingsLayer) : List (EngineConfig → Except SettingFault EngineConfig) :=
  [lay layer.retention fun config value => .ok { config with retention := value },
    lay layer.chunkSize layChunkSize,
    lay layer.encoding fun config value => .ok { config with encoding := value },
    lay layer.duplicatePolicy fun config value => .ok { config with duplicatePolicy := value },
    lay layer.compressedUpsert fun config value =>
      .ok { config with compressedUpsert := value },
    lay layer.policies layPolicies,
    lay layer.dataDirectory fun config value => .ok { config with dataDirectory := value },
    lay layer.snapshotsEnabled fun config value =>
      .ok { config with snapshotsEnabled := value },
    lay layer.snapshotInterval layInterval,
    lay layer.snapshotsKept fun config value =>
      .ok { config with snapshotsKept := max value 1 }]

end SettingsLayer

namespace EngineConfig

/-- Takes steps until one fails, and keeps what the steps before it changed. -/
def takeSteps : List (EngineConfig → Except SettingFault EngineConfig) → EngineConfig →
    EngineConfig × Option SettingFault
  | [], config => (config, none)
  | step :: later, config =>
      match step config with
      | .ok changed => takeSteps later changed
      | .error fault => (config, some fault)

/-- Lays a layer over settings. The first setting that cannot be used ends this; those
before it stay. -/
def merge (config : EngineConfig) (layer : SettingsLayer) :
    EngineConfig × Option SettingFault :=
  takeSteps layer.steps config

def ofLayer (layer : SettingsLayer) : Except SettingFault EngineConfig :=
  match EngineConfig.default.merge layer with
  | (config, none) => .ok config
  | (_, some fault) => .error fault

end EngineConfig

end Chronicle

import Chronicle.Daemon.CommandLine
import Chronicle.Daemon.FileTree
import Chronicle.Engine.Keys
import Chronicle.Settings.Layer
import Chronicle.Text.Utf8

/-!
The snapshot daemon up to the moment when it runs: its settings, from defaults, a
file, the environment and the command line in this order, and the checks before it
restores the newest snapshot. It takes no writes and answers no queries.
-/

namespace Chronicle

open Text

namespace Daemon

def defaultSettingsFile : String := "tscored.toml"

def settingsEnding : String := ".toml"

def hasSettingsEnding (path : String) : Bool :=
  match (namingSteps path).getLast? with
  | some name =>
      settingsEnding.toList.reverse.isPrefixOf name.toList.reverse && name ≠ settingsEnding
  | none => false

/-- The path of the file that is named like a folder, but for the ending of settings. -/
def besideFolder (path : String) : Option String :=
  (namedPath? path).map (· ++ settingsEnding)

/-- The bytes of the settings file under a path. Anything but a file is passed over in
favour of the file beside it. -/
def settingsBytes (tree : FileTree) (path : String) : Except SettingFault Bytes :=
  match tree.findFromRoot path with
  | .ok (.file content) =>
      if hasSettingsEnding path then .ok content
      else .error (.shape (path ++ " has no known format"))
  | _ =>
      match (besideFolder path).map tree.findFromRoot with
      | some (.ok (.file content)) => .ok content
      | _ => .error (.shape (path ++ " is not a file"))

def readSettings (tree : FileTree) (path : String) : Except SettingFault String := do
  match Utf8.decode (← settingsBytes tree path) with
  | .ok text => .ok text
  | .error fault => .error (.shape fault.details)

/-- The text of the settings file: the one that is named, which has to be there, or the
default one. -/
def settingsText (tree : FileTree) (named : Option String) (withoutFile : Bool) :
    Except SettingFault (Option String) :=
  if withoutFile then .ok none
  else
    match tree.find (named.getD defaultSettingsFile), named with
    | .ok _, _ => (readSettings tree (named.getD defaultSettingsFile)).map some
    | .error _, some path => .error (.fileMissing path)
    | .error _, none => .ok none

def settingsLayer (tree : FileTree) (environment : Environment) (named : Option String)
    (withoutFile : Bool) : Except SettingFault SettingsLayer := do
  let file ← settingsText tree named withoutFile
  SettingsLayer.read file environment

inductive SettingsFault where
  | layered (fault : SettingFault)
  /-- The command line asks for no time between snapshots. -/
  | zeroInterval
deriving DecidableEq

def SettingsFault.message : SettingsFault → String
  | layered fault => (Error.setting fault).message
  | zeroInterval => SettingFault.zeroSnapshotInterval.details

/-- The settings that are in force. Snapshots are all that the daemon is for, so they are
always on. -/
def settings (tree : FileTree) (environment : Environment) (options : DaemonOptions) :
    Except SettingsFault EngineConfig := do
  let config ← ((settingsLayer tree environment options.settingsFile options.withoutFile).bind
    EngineConfig.ofLayer).mapError SettingsFault.layered
  let config := { config with
    dataDirectory := options.dataDirectory.getD config.dataDirectory
    snapshotsEnabled := true }
  match options.snapshotInterval with
  | none => .ok config
  | some seconds =>
      if seconds = 0 then .error .zeroInterval
      else .ok { config with snapshotInterval := seconds }

def settingsLines (config : EngineConfig) : List String :=
  ["data_dir=" ++ config.dataDirectory,
    "retention_ms=" ++ Decimal.text config.retention.toNat,
    "chunk_size_bytes=" ++ Decimal.text config.chunkSize,
    "encoding=" ++ config.encoding.name,
    "duplicate_policy=" ++ config.duplicatePolicy.name,
    "compressed_upsert=" ++ (if config.compressedUpsert then "true" else "false"),
    "compaction_policy=" ++ Policy.listText config.policies,
    "snapshot_interval_secs=" ++ Decimal.text config.snapshotInterval.toNat,
    "snapshots_to_keep=" ++ Decimal.text config.snapshotsKept]

inductive StartFault where
  | dataDirectoryNotCreated (path : String) (fault : FileFault)
  | dataDirectoryNotWritable (path : String) (fault : FileFault)
  | engineNotOpened (error : Error)
  | snapshotNotRestored (error : Error)
deriving DecidableEq

def StartFault.message : StartFault → String
  | dataDirectoryNotCreated path fault =>
      "startup check failed: data_dir " ++ path ++ " cannot be created: " ++ fault.details
  | dataDirectoryNotWritable path fault =>
      "startup check failed: data_dir " ++ path ++ " not writable: " ++ fault.details
  | engineNotOpened error => "failed to open engine: " ++ error.message
  | snapshotNotRestored error => "snapshot restore failed: " ++ error.message

/-- The file that is written and removed to see whether a folder can be written to. -/
def writeMarker : String := ".tscore_write_check"

def checkNewest (tree : FileTree) (path : String) (place : Place) : Except FileFault Unit := do
  let entries : Directory := SortedMap.ofList ((tree.names place).map (fun name => (name, [])))
  match entries.snapshots.head? with
  | none => .ok ()
  | some (_, name) =>
      match ← tree.find (joinPath path name) with
      | .folder => .error .isDirectory
      | .file _ => .ok ()

/-- Checks the data directory, opens an engine and restores the newest snapshot. The
answer is the session that runs from then on, with the number of series restored. -/
def start (tree : FileTree) (config : EngineConfig) :
    Except StartFault (Session × Nat) := do
  let path := config.dataDirectory
  let tree ← (tree.createFolder path).mapError (.dataDirectoryNotCreated path)
  (tree.checkWritable (joinPath path writeMarker)).mapError (.dataDirectoryNotWritable path)
  let engine ← (Error.ofArgument (Engine.new config)).mapError .engineNotOpened
  let snapshots := config.snapshotPath
  let tree ← (tree.createFolder snapshots).mapError (fun fault => .engineNotOpened (.file fault))
  let place ← (tree.walk (pathSteps snapshots)).mapError
    (fun fault => .engineNotOpened (.file fault))
  (checkNewest tree snapshots place).mapError (fun fault => .snapshotNotRestored (.file fault))
  match Action.restore.perform (.start engine (tree.directory place)) with
  | (.ok count, session) => .ok (session, count)
  | (.error error, _) => .error (.snapshotNotRestored error)

inductive Course where
  | usage (fault : UsageFault)
  | version
  | help
  | settingsRefused (fault : SettingsFault)
  | validated (config : EngineConfig)
  | startFailed (fault : StartFault)
  | running (session : Session) (restored : Nat)

def run (arguments : List String) (environment : Environment) (tree : FileTree) : Course :=
  match CommandLine.read arguments environment with
  | .error fault => .usage fault
  | .ok .showVersion => .version
  | .ok .showHelp => .help
  | .ok (.start options) =>
      match settings tree environment options with
      | .error fault => .settingsRefused fault
      | .ok config =>
          if options.validateOnly then .validated config
          else
            match start tree config with
            | .error fault => .startFailed fault
            | .ok (session, restored) => .running session restored

def versionLine : String := "tscored 0.1.0"

namespace Course

def exitCode : Course → Nat
  | usage _ => 2
  | version => 0
  | help => 0
  | settingsRefused _ => 1
  | validated _ => 0
  | startFailed _ => 1
  | running _ _ => 0

def output : Course → List String
  | version => [versionLine]
  | validated config => settingsLines config
  | _ => []

def complaints : Course → List String
  | usage fault => ["error: " ++ fault.message]
  | settingsRefused fault => ["config error: " ++ fault.message]
  | startFailed fault => [fault.message]
  | _ => []

end Course

end Daemon

end Chronicle

import Chronicle.Daemon

/-!
The program of the snapshot daemon. It looks at the system for what a start depends
on, leaves every decision to `Chronicle.Daemon`, and prints how the start went.
-/

namespace Chronicle

namespace Program

def variableNames : List String :=
  "TSCORE_CONFIG" :: SettingsLayer.names.map (fun name => "TSCORE_" ++ name.map Char.toUpper)

def readEnvironment : IO Environment :=
  variableNames.filterMapM fun name => do
    return (← IO.getEnv name).map (fun value => (name, value))

def look (tree : FileTree) (path : String) : IO FileTree := do
  let place := (← IO.currentDir) / path
  if ← place.isDir then return { tree with folders := Place.ofPath path :: tree.folders }
  else if ← place.pathExists then
    let content := (← IO.FS.readBinFile place).toList
    return { tree with files := (Place.ofPath path, content) :: tree.files }
  else return tree

def lookInto (tree : FileTree) (path : String) : IO FileTree := do
  let place := (← IO.currentDir) / path
  if ← place.isDir then
    (← place.readDir).toList.foldlM
      (fun tree entry => look tree (Text.joinPath path entry.fileName)) tree
  else return tree

def pathsTo (path : String) : List String :=
  let steps := Text.pathSteps path
  (List.range steps.length).map fun index =>
    (steps.take (index + 1)).foldl Text.joinPath ""

def settingsPath (arguments : List String) (environment : Environment) : String :=
  match CommandLine.read arguments environment with
  | .ok (.start options) => options.settingsFile.getD Daemon.defaultSettingsFile
  | _ => Daemon.defaultSettingsFile

def settings? (arguments : List String) (environment : Environment) (tree : FileTree) :
    Option EngineConfig :=
  match CommandLine.read arguments environment with
  | .ok (.start options) => (Daemon.settings tree environment options).toOption
  | _ => none

/-- Everything on disk that a start depends on. -/
def survey (arguments : List String) (environment : Environment) : IO FileTree := do
  let file := settingsPath arguments environment
  let home := (← IO.currentDir).toString
  let tree ← (file :: (Daemon.besideFolder file).toList).foldlM look (.ofFiles home [])
  match settings? arguments environment tree with
  | none => return tree
  | some config =>
      let marker := Text.joinPath config.dataDirectory Daemon.writeMarker
      let tree ← (marker :: pathsTo config.snapshotPath).foldlM look tree
      lookInto tree config.snapshotPath

end Program

end Chronicle

open Chronicle in
def main (arguments : List String) : IO UInt32 := do
  let environment ← Program.readEnvironment
  let tree ← Program.survey arguments environment
  let course := Daemon.run arguments environment tree
  course.output.forM IO.println
  course.complaints.forM (fun line => IO.eprintln line)
  if let .running session _ := course then
    IO.FS.createDirAll session.engine.config.snapshotPath
  return UInt32.ofNat course.exitCode

import Chronicle.Settings.Scalar
import Chronicle.Text.Decimal

/-!
The command line of the snapshot daemon. Options are long; the value of one stands
in the next argument or after an equals sign. No option may be repeated, and nothing
may stand beside options.
-/

namespace Chronicle

open Text

structure DaemonOptions where
  settingsFile : Option String
  dataDirectory : Option String
  withoutFile : Bool
  validateOnly : Bool
  snapshotInterval : Option UInt64
deriving DecidableEq

namespace DaemonOptions

def none : DaemonOptions := ⟨.none, .none, false, false, .none⟩

end DaemonOptions

inductive UsageFault where
  | unexpected (argument : String)
  | repeated (option : String)
  | valueMissing (option : String)
  | valueNotAllowed (option : String)
  | badValue (option value : String)
deriving DecidableEq

namespace UsageFault

def message : UsageFault → String
  | unexpected argument => "unexpected argument '" ++ argument ++ "' found"
  | repeated option => "the argument '" ++ option ++ "' cannot be used multiple times"
  | valueMissing option => "a value is required for '" ++ option ++ "' but none was supplied"
  | valueNotAllowed option => "no value is allowed for '" ++ option ++ "'"
  | badValue option value => "invalid value '" ++ value ++ "' for '" ++ option ++ "'"

end UsageFault

inductive Invocation where
  | start (options : DaemonOptions)
  | showVersion
  | showHelp
deriving DecidableEq

namespace CommandLine

def settingsFileOption : String := "--config"

def dataDirectoryOption : String := "--data-dir"

def withoutFileOption : String := "--no-config"

def validateOnlyOption : String := "--validate-config"

def snapshotIntervalOption : String := "--snapshot-interval-secs"

def valuedOptions : List String :=
  [settingsFileOption, dataDirectoryOption, snapshotIntervalOption]

def cutValue (argument : String) : String × Option String :=
  let letters := argument.toList
  match letters.dropWhile (· ≠ '=') with
  | _ :: value => (String.ofList (letters.takeWhile (· ≠ '=')), some (String.ofList value))
  | [] => (argument, none)

/-- Whether an argument is read as an option. A single hyphen is not. -/
def isOption (argument : String) : Bool :=
  argument.toList.head? = some '-' && argument ≠ "-"

def readPath (option value : String) : Except UsageFault String :=
  if value.isEmpty then .error (.badValue option value) else .ok value

def once {α : Type} (option : String) (given : Option α) (value : α) :
    Except UsageFault (Option α) :=
  if given.isSome then .error (.repeated option) else .ok (some value)

def takeValue (options : DaemonOptions) (option value : String) :
    Except UsageFault DaemonOptions :=
  if option = settingsFileOption then do
    let path ← readPath option value
    let entered ← once option options.settingsFile path
    .ok { options with settingsFile := entered }
  else if option = dataDirectoryOption then do
    let path ← readPath option value
    let entered ← once option options.dataDirectory path
    .ok { options with dataDirectory := entered }
  else
    match Decimal.readSignedWord? value.toList with
    | none => .error (.badValue option value)
    | some seconds => do
        let entered ← once option options.snapshotInterval seconds
        .ok { options with snapshotInterval := entered }

def takeFlag (options : DaemonOptions) (option : String) :
    Except UsageFault DaemonOptions :=
  if option = withoutFileOption then
    if options.withoutFile then .error (.repeated option)
    else .ok { options with withoutFile := true }
  else if option = validateOnlyOption then
    if options.validateOnly then .error (.repeated option)
    else .ok { options with validateOnly := true }
  else .error (.unexpected option)

inductive Argument where
  | version
  | help
  /-- Nothing after it is an option. -/
  | separator
  /-- An option that takes its value from the next argument. -/
  | valued (option : String)
  | valuedInline (option value : String)
  | flag (option : String)
  | flagInline (option : String)
deriving DecidableEq

def hasShort (argument : String) (letter : Char) : Bool := ['-', letter].isPrefixOf argument.toList

def Argument.ofText (argument : String) : Argument :=
  if argument = "--version" || hasShort argument 'V' then .version
  else if argument = "--help" || hasShort argument 'h' then .help
  else if argument = "--" then .separator
  else
    let (option, inline) := cutValue argument
    match valuedOptions.contains option, inline with
    | true, none => .valued option
    | true, some value => .valuedInline option value
    | false, none => .flag option
    | false, some _ => .flagInline option

/-- Reads arguments from left to right, with the option that awaits its value if there
is one. A call for the version or for help ends the reading. -/
def readFrom (options : DaemonOptions) : Option String → List String →
    Except UsageFault Invocation
  | none, [] => .ok (.start options)
  | some option, [] => .error (.valueMissing option)
  | some option, value :: rest =>
      if isOption value then .error (.valueMissing option)
      else do
        let entered ← takeValue options option value
        readFrom entered none rest
  | none, argument :: rest =>
      match Argument.ofText argument with
      | .version => .ok .showVersion
      | .help => .ok .showHelp
      | .separator =>
          match rest with
          | [] => .ok (.start options)
          | positional :: _ => .error (.unexpected positional)
      | .valued option => readFrom options (some option) rest
      | .valuedInline option value => do
          let entered ← takeValue options option value
          readFrom entered none rest
      | .flag option => do
          let entered ← takeFlag options option
          readFrom entered none rest
      | .flagInline option => .error (.valueNotAllowed option)

/-- The value of a path: from the command line, else from a variable. -/
def pathOrVariable (given : Option String) (environment : Environment)
    (variableName : String) : Except UsageFault (Option String) :=
  match given with
  | some path => .ok (some path)
  | none =>
      match environment.value? variableName with
      | some value => (readPath variableName value).map some
      | none => .ok none

def read (arguments : List String) (environment : Environment) :
    Except UsageFault Invocation := do
  match ← readFrom .none none arguments with
  | .start options =>
      let settingsFile ← pathOrVariable options.settingsFile environment "TSCORE_CONFIG"
      let dataDirectory ← pathOrVariable options.dataDirectory environment "TSCORE_DATA_DIR"
      .ok (.start { options with settingsFile := settingsFile, dataDirectory := dataDirectory })
  | other => .ok other

end CommandLine

end Chronicle

import Chronicle.Sample
import Chronicle.Text.Decimal

/-!
Everything that can be refused, as causes. An error says what was wrong in the
words of the domain; its wording is decided by `message` alone, and its coarse
class, by which a caller decides how to surface it, by `kind`.
-/

namespace Chronicle

open Text

inductive ErrorKind where
  | preconditionViolation
  | stateConflict
  | notFound
  | internal
deriving DecidableEq

def ErrorKind.name : ErrorKind → String
  | preconditionViolation => "precondition_violation"
  | stateConflict => "state_conflict"
  | notFound => "not_found"
  | internal => "internal"

inductive Artifact where
  | series
  | snapshot
deriving DecidableEq

def Artifact.name : Artifact → String
  | series => "series"
  | snapshot => "snapshot"

/-- An argument that cannot be accepted, whatever the state. -/
inductive ArgumentFault where
  | unknownEncoding (text : String)
  | unknownDuplicatePolicy (text : String)
  | unknownAggregation (text : String)
  | unknownReducer (text : String)
  | chunkSize (bytes : Nat)
  | emptySeriesKey
  | emptyLabel (name value : String)
  | zeroRuleBucket
  | zeroAggregationBucket
  | policyShape (text : String)
  | policyZeroBucket (text : String)
  | duration (text : String)
  | durationUnit (text : String)
  | durationOverflow (text : String)
  | stated (details : String)
deriving DecidableEq

def minChunkSize : Nat := 48

def maxChunkSize : Nat := 1048576

def ArgumentFault.details : ArgumentFault → String
  | unknownEncoding text => "unknown chunk encoding '" ++ text ++ "'"
  | unknownDuplicatePolicy text => "unknown duplicate policy '" ++ text ++ "'"
  | unknownAggregation text => "unknown aggregation type '" ++ text ++ "'"
  | unknownReducer text => "unknown reducer '" ++ text ++ "'"
  | chunkSize bytes =>
      "chunk size must be a multiple of 8 in [" ++ Decimal.text minChunkSize ++ ", "
        ++ Decimal.text maxChunkSize ++ "], got " ++ Decimal.text bytes
  | emptySeriesKey => "series key must not be empty"
  | emptyLabel name value =>
      "labels must have a non-empty name and value ('" ++ name ++ "'='" ++ value ++ "')"
  | zeroRuleBucket => "bucket duration must be greater than zero"
  | zeroAggregationBucket => "aggregation bucket must be greater than zero"
  | policyShape text =>
      "compaction policy '" ++ text ++ "' must look like agg:bucket:retention"
  | policyZeroBucket text => "compaction policy '" ++ text ++ "' has a zero bucket"
  | duration text => "invalid duration '" ++ text ++ "'"
  | durationUnit text => "invalid duration unit in '" ++ text ++ "'"
  | durationOverflow text => "duration '" ++ text ++ "' overflows"
  | stated details => details

def ArgumentFault.message (fault : ArgumentFault) : String :=
  "Invalid argument: " ++ fault.details

inductive TextFault where
  /-- A sequence of this many bytes at this index can begin no character. -/
  | invalid (length index : Nat)
  /-- The bytes from this index on begin a character and then end. -/
  | incomplete (index : Nat)
deriving DecidableEq

def TextFault.details : TextFault → String
  | invalid length index =>
      "invalid utf-8 sequence of " ++ Decimal.text length ++ " bytes from index "
        ++ Decimal.text index
  | incomplete index => "incomplete utf-8 byte sequence from index " ++ Decimal.text index

inductive PayloadFault where
  | unexpectedEnd
  | textTooLong
  | variant (found bound : Nat)
  | boolean (found : Nat)
  | optionTag (found : Nat)
  | text (fault : TextFault)
  | stated (details : String)
deriving DecidableEq

def PayloadFault.details : PayloadFault → String
  | unexpectedEnd => "io error: unexpected end of file"
  | textTooLong => "io error: "
  | variant found bound =>
      "invalid value: integer \x60" ++ Decimal.text found
        ++ "\x60, expected variant index 0 <= i < " ++ Decimal.text bound
  | boolean found =>
      "invalid u8 while decoding bool, expected 0 or 1, found " ++ Decimal.text found
  | optionTag found => "tag for enum is not valid, found " ++ Decimal.text found
  | text fault => "string is not valid utf8: " ++ fault.details
  | stated details => details

inductive Damage where
  | bitStreamTruncated
  | bitWidths
  | windowReusedTooEarly
  | uncovered (timestamp : Timestamp)
  | badMagic (artifact : Artifact)
  | unsupportedVersion (artifact : Artifact) (version : Nat)
  | payloadTruncated (artifact : Artifact) (expected found : Nat)
  | checksumMismatch (artifact : Artifact)
  | inFile (cause : Damage) (path : String)
  | stated (details : String)
deriving DecidableEq

def Damage.details : Damage → String
  | bitStreamTruncated => "Compressed chunk bit stream truncated"
  | bitWidths => "Invalid Gorilla bit widths"
  | windowReusedTooEarly => "Gorilla reuse window before initialization"
  | uncovered timestamp => "no chunk covers timestamp " ++ Decimal.text timestamp.toNat
  | badMagic artifact => "Bad " ++ artifact.name ++ " magic"
  | unsupportedVersion artifact version =>
      "Unsupported " ++ artifact.name ++ " version " ++ Decimal.text version
  | payloadTruncated artifact expected found =>
      artifact.name ++ " payload truncated: expected " ++ Decimal.text expected
        ++ " bytes, got " ++ Decimal.text found
  | checksumMismatch artifact => artifact.name ++ " payload CRC mismatch"
  | inFile cause path => cause.details ++ " in \"" ++ path ++ "\""
  | stated details => details

inductive FileFault where
  | shortRead
  | notFound
  | alreadyExists
  | notDirectory
  | isDirectory
  | nameTooLong
  /-- A path with a character in it that no path can have. -/
  | nulInName
  | stated (details : String)
deriving DecidableEq

def FileFault.details : FileFault → String
  | shortRead => "failed to fill whole buffer"
  | notFound => "No such file or directory (os error 2)"
  | alreadyExists => "File exists (os error 17)"
  | notDirectory => "Not a directory (os error 20)"
  | isDirectory => "Is a directory (os error 21)"
  | nameTooLong => "File name too long (os error 36)"
  | nulInName => "file name contained an unexpected NUL byte"
  | stated details => details

inductive SettingFault where
  | chunkSize (cause : ArgumentFault)
  | compactionPolicy (cause : ArgumentFault)
  | zeroSnapshotInterval
  | snapshotsDisabled
  | fileMissing (path : String)
  /-- A settings file or variable that does not have the shape of its setting. -/
  | shape (details : String)
deriving DecidableEq

def SettingFault.details : SettingFault → String
  | chunkSize cause => "chunk_size_bytes: " ++ cause.message
  | compactionPolicy cause => "compaction_policy: " ++ cause.message
  | zeroSnapshotInterval => "snapshot_interval_secs must be greater than zero"
  | snapshotsDisabled => "snapshots are disabled"
  | fileMissing path => "config file not found: " ++ path
  | shape details => details

inductive Error where
  | outOfRetention (timestamp last : Timestamp) (retention : Duration)
  | timestampNotIncreasing (timestamp last : Timestamp)
  | duplicateSample (timestamp : Timestamp)
  | upsertUnsupported (encoding : ChunkEncoding)
  | noMatchers
  | invalidPredicate (text : String)
  | invalidArgument (fault : ArgumentFault)
  | invalidTimeRange (start stop : Timestamp)
  | seriesNotFound (key : String)
  | keyExists (key : String)
  | sameSourceAndDestination (key : String)
  | sourceIsDestination (key : String)
  | destinationHasSource (key : String)
  | ruleNotFound (source destination : String)
  | file (fault : FileFault)
  | payload (fault : PayloadFault)
  | damaged (damage : Damage)
  | lock (details : String)
  | setting (fault : SettingFault)
deriving DecidableEq

namespace Error

def ofArgument {α : Type} (checked : Except ArgumentFault α) : Except Error α :=
  checked.mapError invalidArgument

def kind : Error → ErrorKind
  | outOfRetention .. => .preconditionViolation
  | timestampNotIncreasing .. => .preconditionViolation
  | upsertUnsupported .. => .preconditionViolation
  | noMatchers => .preconditionViolation
  | invalidPredicate .. => .preconditionViolation
  | invalidArgument .. => .preconditionViolation
  | invalidTimeRange .. => .preconditionViolation
  | sameSourceAndDestination .. => .preconditionViolation
  | duplicateSample .. => .stateConflict
  | keyExists .. => .stateConflict
  | sourceIsDestination .. => .stateConflict
  | destinationHasSource .. => .stateConflict
  | seriesNotFound .. => .notFound
  | ruleNotFound .. => .notFound
  | file .. => .internal
  | payload .. => .internal
  | damaged .. => .internal
  | lock .. => .internal
  | setting .. => .internal

def message : Error → String
  | outOfRetention timestamp last retention =>
      "Timestamp " ++ Decimal.text timestamp.toNat ++ " is older than retention (last="
        ++ Decimal.text last.toNat ++ ", retention=" ++ Decimal.text retention.toNat ++ ")"
  | timestampNotIncreasing timestamp last =>
      "Timestamp " ++ Decimal.text timestamp.toNat
        ++ " must be greater than the last timestamp " ++ Decimal.text last.toNat
  | duplicateSample timestamp =>
      "Duplicate sample at " ++ Decimal.text timestamp.toNat ++ " rejected by BLOCK policy"
  | upsertUnsupported encoding =>
      "Upsert is not supported by the " ++ encoding.name ++ " chunk encoding"
  | noMatchers => "Please provide at least one matcher"
  | invalidPredicate text => "Invalid predicate: " ++ text
  | invalidArgument fault => fault.message
  | invalidTimeRange start stop =>
      "Invalid time range: start=" ++ Decimal.text start.toNat ++ ", end="
        ++ Decimal.text stop.toNat
  | seriesNotFound key => "Series not found: " ++ key
  | keyExists key => "Key already exists: " ++ key
  | sameSourceAndDestination key =>
      "The source key and destination key should be different: " ++ key
  | sourceIsDestination key => "The source key " ++ key ++ " already has a source rule"
  | destinationHasSource key => "The destination key " ++ key ++ " already has a rule"
  | ruleNotFound source destination =>
      "Compaction rule does not exist: " ++ source ++ " -> " ++ destination
  | file fault => "I/O Error: " ++ fault.details
  | payload fault => "Serialization Error: " ++ fault.details
  | damaged damage => "Corruption detected: " ++ damage.details
  | lock details => "Lock acquisition failed: " ++ details
  | setting fault => "Configuration Error: " ++ fault.details

end Error

end Chronicle

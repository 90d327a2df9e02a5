import Chronicle.Error
import Chronicle.Store

/-!
What an engine reports as it happens, the log record that each report becomes, and what it
counts. Each occurrence that counts is one signal; the metrics of a run are its signals
counted, except for the number of series, of which the last one holds. The signals of a run
stand with the last one first.
-/

namespace Chronicle

inductive Event where
  | seriesCreated (key : String)
  | seriesDeleted (key : String)
  | ruleCreated (source destination : String)
  | ruleDeleted (source destination : String)
  | chunksTrimmed (key : String) (trimmed : Trimmed)
  /-- A closed bucket had nowhere to go. -/
  | destinationMissing (source destination : String)
  /-- A closed bucket was refused by its destination. -/
  | flushFailed (destination reason : String)
  /-- A key that the label index knows has no series. -/
  | seriesVanished (key : String)
  | snapshotCreated (path : String) (timestamp : Timestamp)
  | snapshotFailed (reason : String)
  | snapshotRestored (path : String) (series : Nat)
deriving DecidableEq

inductive LogLevel where
  | debug
  | info
  | warn
deriving DecidableEq

def LogLevel.name : LogLevel → String
  | debug => "DEBUG"
  | info => "INFO"
  | warn => "WARN"

inductive LogValue where
  | text (value : String)
  | number (value : Nat)
deriving DecidableEq

structure LogRecord where
  level : LogLevel
  message : String
  fields : List (String × LogValue)
deriving DecidableEq

def logTarget : String := "tscore"

/-- Routine changes are logged for debugging, changes of rules and of snapshots as
information, and everything that loses data as a warning. -/
def Event.record : Event → LogRecord
  | seriesCreated key => ⟨.debug, "series created", [("key", .text key)]⟩
  | seriesDeleted key => ⟨.debug, "series deleted", [("key", .text key)]⟩
  | ruleCreated source destination =>
      ⟨.info, "compaction rule created",
        [("source_key", .text source), ("dest_key", .text destination)]⟩
  | ruleDeleted source destination =>
      ⟨.info, "compaction rule deleted",
        [("source_key", .text source), ("dest_key", .text destination)]⟩
  | chunksTrimmed key trimmed =>
      ⟨.debug, "retention trimmed chunks",
        [("key", .text key), ("chunks", .number trimmed.chunks),
          ("samples", .number trimmed.samples)]⟩
  | destinationMissing source destination =>
      ⟨.warn, "compaction destination missing; bucket dropped",
        [("source_key", .text source), ("dest_key", .text destination)]⟩
  | flushFailed destination reason =>
      ⟨.warn, "compaction flush failed",
        [("dest_key", .text destination), ("error", .text reason)]⟩
  | seriesVanished key => ⟨.debug, "series vanished during scan", [("key", .text key)]⟩
  | snapshotCreated path timestamp =>
      ⟨.info, "snapshot created",
        [("path", .text path), ("timestamp", .number timestamp.toNat)]⟩
  | snapshotFailed reason => ⟨.warn, "snapshot failed", [("error", .text reason)]⟩
  | snapshotRestored path series =>
      ⟨.info, "snapshot restored", [("path", .text path), ("series", .number series)]⟩

inductive Signal where
  | sampleAppended
  /-- A sample was written at or before the end of its series. -/
  | sampleUpserted
  | writeRejected (kind : ErrorKind)
  | flushDelivered
  | seriesCount (count : Nat)
  | multiRangeAnswered
  | snapshotWritten
deriving DecidableEq

def countOf (signal : Signal) (signals : List Signal) : Nat := signals.count signal

def lastSeriesCount (signals : List Signal) : Nat :=
  (signals.findSome? fun
    | .seriesCount count => some count
    | _ => none).getD 0

def rejectedName (kind : ErrorKind) : String :=
  "tscore_writes_rejected\x7bkind=\"" ++ kind.name ++ "\"\x7d"

/-- The metrics of a run under their names; what is zero is left out. -/
def metrics (signals : List Signal) : List (String × Nat) :=
  let rejected := [ErrorKind.preconditionViolation, .stateConflict, .notFound, .internal].map
    (fun kind => (rejectedName kind, countOf (.writeRejected kind) signals))
  ([("tscore_samples_appended", countOf .sampleAppended signals),
    ("tscore_samples_upserted", countOf .sampleUpserted signals),
    ("tscore_compaction_flushes", countOf .flushDelivered signals),
    ("tscore_mrange_duration_seconds_count", countOf .multiRangeAnswered signals),
    ("tscore_snapshot_duration_seconds_count", countOf .snapshotWritten signals),
    ("tscore_series", lastSeriesCount signals)] ++ rejected).filter
      (fun entry => entry.2 ≠ 0)

end Chronicle

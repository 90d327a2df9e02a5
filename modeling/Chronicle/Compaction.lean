import Chronicle.Aggregation.Accumulator
import Chronicle.Aggregation.Bucket
import Chronicle.Error
import Chronicle.Text.Lines

/-!
Compaction. A rule belongs to a source series and watches what is appended to it: it
aggregates one bucket at a time, and when a later bucket opens, the closed one is to be
delivered to the destination, stamped with its start. A policy is a template for the rules
that every automatically created series gets. It is written `kind:bucket:retention`, and a
list of policies is joined by semicolons; a length of time is a numeral with one of the units
ms, s, m, h and d, or without a unit a numeral of milliseconds.
-/

namespace Chronicle.Text

def unitScale? (unit : List Char) : Option Nat :=
  match String.ofList unit with
  | "" => some 1
  | "ms" => some 1
  | "s" => some 1000
  | "m" => some 60000
  | "h" => some 3600000
  | "d" => some 86400000
  | _ => none

/-- Reads a length of time. The numeral has to fit a word before it is scaled, and
the result has to fit one as well. -/
def parseDuration (text : List Char) : Except ArgumentFault Duration :=
  let trimmed := trim text
  let quoted := String.ofList trimmed
  match Decimal.readWord? (trimmed.takeWhile Char.isDigit) with
  | none => .error (.duration quoted)
  | some number =>
      match unitScale? (trimmed.dropWhile Char.isDigit) with
      | none => .error (.durationUnit quoted)
      | some scale =>
          if number.toNat * scale < UInt64.size then .ok (UInt64.ofNat (number.toNat * scale))
          else .error (.durationOverflow quoted)

def durationText (duration : Duration) : String := Decimal.text duration.toNat ++ "ms"

end Chronicle.Text

namespace Chronicle

open Text

structure Policy where
  kind : AggregationKind
  width : Duration
  retention : Duration
deriving DecidableEq

namespace Policy

def destinationFor (policy : Policy) (source : String) : String :=
  source ++ "_" ++ policy.kind.name.map Char.toUpper ++ "_"
    ++ Decimal.text policy.width.toNat

def text (policy : Policy) : String :=
  policy.kind.name ++ ":" ++ durationText policy.width ++ ":"
    ++ durationText policy.retention

/-- Reads one policy. Blanks are allowed around it and around its durations, not
around its kind. -/
def parse (given : List Char) : Except ArgumentFault Policy :=
  let quoted := String.ofList given
  match (trim given).splitOn ':' with
  | [kindText, widthText, retentionText] => do
      let kind ← AggregationKind.parse (String.ofList kindText)
      let width ← parseDuration widthText
      if width = 0 then .error (.policyZeroBucket quoted)
      else
        let retention ← parseDuration retentionText
        .ok ⟨kind, width, retention⟩
  | _ => .error (.policyShape quoted)

/-- Reads a list of policies. Pieces with nothing but blanks are passed over. -/
def parseList (given : List Char) : Except ArgumentFault (List Policy) :=
  (((given.splitOn ';').map trim).filter (fun piece => !piece.isEmpty)).mapM parse

def listText (policies : List Policy) : String :=
  String.intercalate ";" (policies.map text)

end Policy

structure Flush where
  destination : String
  timestamp : Timestamp
  value : Value
deriving DecidableEq

structure Rule where
  destination : String
  kind : AggregationKind
  width : Duration
  accumulator : Accumulator Value
  /-- The start of the open bucket; there is none before the first sample. -/
  openBucket : Option Timestamp
deriving DecidableEq

namespace Rule

def new (destination : String) (kind : AggregationKind) (width : Duration) :
    Except ArgumentFault Rule :=
  if width = 0 then .error .zeroRuleBucket
  else .ok
    { destination := destination
      kind := kind
      width := width
      accumulator := .new kind
      openBucket := none }

def flush (rule : Rule) (opened : Timestamp) : Option Flush :=
  rule.accumulator.finalize.map (fun value => ⟨rule.destination, opened, value⟩)

/-- Takes in an appended sample. A sample of a later bucket closes the open one; a
sample of an earlier bucket counts into the open one. -/
def take (rule : Rule) (sample : Sample) : Rule × Option Flush :=
  let bucket := bucketStart sample.timestamp rule.width
  match rule.openBucket with
  | none =>
      ({ rule with
          openBucket := some bucket
          accumulator := rule.accumulator.append sample.value }, none)
  | some opened =>
      if opened < bucket then
        ({ rule with
            openBucket := some bucket
            accumulator := rule.accumulator.reset.append sample.value },
          rule.flush opened)
      else ({ rule with accumulator := rule.accumulator.append sample.value }, none)

end Rule

end Chronicle

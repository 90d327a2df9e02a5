import Chronicle.Series.Format

/-!
Snapshots: all series of an engine in one file. The name of the file carries the moment of
the snapshot; names of any other form are not snapshots. A snapshot is written under a scratch
name and renamed when it is complete, so that at no moment a reader finds a part of one under
the name of a snapshot. The newest snapshot is the one with the greatest moment in its name.
-/

namespace Chronicle

open Text

namespace Snapshot

def nameStart : List Char := "snapshot_".toList

def nameEnd : List Char := ".bin".toList

def fileName (timestamp : Timestamp) : String :=
  String.ofList (nameStart ++ Decimal.write timestamp.toNat ++ nameEnd)

def scratchName (timestamp : Timestamp) : String := ".tmp_" ++ fileName timestamp

def dropStart? : List Char → List Char → Option (List Char)
  | [], text => some text
  | _ :: _, [] => none
  | letter :: start, first :: text => if letter = first then dropStart? start text else none

/-- What a text holds between a beginning and an end that do not overlap. -/
def between? (start stop text : List Char) : Option (List Char) := do
  let rest ← dropStart? start text
  let reversed ← dropStart? stop.reverse rest.reverse
  some reversed.reverse

def timestampOf? (name : String) : Option Timestamp := do
  let numeral ← between? nameStart nameEnd name.toList
  Decimal.readSignedWord? numeral

def payloadFormat : Format (List Series) := Format.list Series.format

def toBytes (timestamp : Timestamp) (series : List Series) : Bytes :=
  Artifact.snapshot.header ++ Bytes.ofNumber 8 timestamp.toNat ++
    Artifact.sealPayload (payloadFormat.write series)

def locate {α : Type} (path : String) (read : Except Error α) : Except Error α :=
  read.mapError fun
    | .damaged damage => .damaged (.inFile damage path)
    | other => other

def ofBytes (path : String) (bytes : Bytes) : Except Error (List Series) := do
  let afterHeader ← locate path (Artifact.snapshot.readHeader bytes)
  let (_, rest) ← Bytes.readNumber 8 afterHeader
  let payload ← locate path (Artifact.snapshot.openPayload rest)
  (payloadFormat.readAll payload).mapError .payload

end Snapshot

abbrev Directory := SortedMap String Bytes

namespace Directory

def write (directory : Directory) (name : String) (bytes : Bytes) : Directory :=
  directory.insert name bytes

def rename (directory : Directory) (name newName : String) : Directory :=
  match directory.get? name with
  | some bytes => (directory.erase name).insert newName bytes
  | none => directory

def snapshots (directory : Directory) : List (Timestamp × String) :=
  (directory.keys.filterMap
    (fun name => (Snapshot.timestampOf? name).map (fun timestamp => (timestamp, name)))).mergeSort
      (fun earlier later => later.1 ≤ earlier.1)

def addSnapshot (directory : Directory) (timestamp : Timestamp) (series : List Series) :
    Directory :=
  (directory.write (Snapshot.scratchName timestamp) (Snapshot.toBytes timestamp series)).rename
    (Snapshot.scratchName timestamp) (Snapshot.fileName timestamp)

def newestSnapshot (directory : Directory) (path : String) :
    Except Error (Option (String × List Series)) :=
  match directory.snapshots.head? with
  | none => .ok none
  | some (_, name) => do
      let bytes := (directory.get? name).getD []
      let series ← Snapshot.ofBytes (path ++ "/" ++ name) bytes
      .ok (some (name, series))

/-- The names of the snapshots that are not among the newest `keep`; the very newest
always counts among those. -/
def surplus (directory : Directory) (keep : Nat) : List String :=
  (directory.snapshots.drop (max keep 1)).map (·.2)

/-- Removes all but the newest `keep` snapshots, and says how many that were. -/
def prune (directory : Directory) (keep : Nat) : Directory × Nat :=
  let surplus := directory.surplus keep
  (surplus.foldl SortedMap.erase directory, surplus.length)

end Directory

/-- What is done to a file while a snapshot is written. -/
inductive FileChange where
  /-- The file is empty then, in place of any other of its name. -/
  | start (name : String)
  | extend (name : String) (bytes : Bytes)
  | rename (name newName : String)

/-- All that is done to write a snapshot whose bytes come in these pieces. -/
def installation (timestamp : Timestamp) (pieces : List Bytes) : List FileChange :=
  .start (Snapshot.scratchName timestamp) ::
    (pieces.map (.extend (Snapshot.scratchName timestamp)) ++
      [.rename (Snapshot.scratchName timestamp) (Snapshot.fileName timestamp)])

namespace Directory

def changed (directory : Directory) : FileChange → Directory
  | .start name => directory.write name []
  | .extend name bytes => directory.write name ((directory.get? name).getD [] ++ bytes)
  | .rename name newName => directory.rename name newName

/-- The directory when only so many changes were made to write a snapshot. -/
def installing (directory : Directory) (timestamp : Timestamp) (pieces : List Bytes)
    (steps : Nat) : Directory :=
  ((installation timestamp pieces).take steps).foldl changed directory

end Directory

end Chronicle

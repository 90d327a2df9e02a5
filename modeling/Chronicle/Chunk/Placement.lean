import Chronicle.Error

/-!
Putting a sample into a run of samples: the place is found by halving, and what a write to a
timestamp that is already taken does is up to a duplicate policy.
-/

namespace Chronicle

inductive DuplicatePolicy where
  /-- The write is refused. -/
  | block
  /-- The stored value stays. -/
  | first
  /-- The new value replaces the stored one. -/
  | last
  | min
  | max
  /-- The new value is added to the stored one. -/
  | sum
deriving DecidableEq, Inhabited

namespace DuplicatePolicy

def all : List DuplicatePolicy := [block, first, last, min, max, sum]

def name : DuplicatePolicy → String
  | block => "block"
  | first => "first"
  | last => "last"
  | min => "min"
  | max => "max"
  | sum => "sum"

def parse (text : String) : Except ArgumentFault DuplicatePolicy :=
  let lowered := text.map Char.toLower
  match all.find? (fun policy => policy.name = lowered) with
  | some policy => .ok policy
  | none => .error (.unknownDuplicatePolicy lowered)

/-- The value that a timestamp has after a write to it. A value that is not a
number is neither lower nor higher than another, so `min` and `max` keep what is
stored whenever one of the two is not a number. -/
def combine (policy : DuplicatePolicy) (timestamp : Timestamp) (stored offered : Value) :
    Except Error Value :=
  match policy with
  | block => .error (.duplicateSample timestamp)
  | first => .ok stored
  | last => .ok offered
  | min => .ok (Arithmetic.lower stored offered)
  | max => .ok (Arithmetic.upper stored offered)
  | sum => .ok (Arithmetic.add stored offered)

end DuplicatePolicy

namespace Placement

/-- Narrows a span of `size` samples that begins at `base` to its last sample that
is not later than the timestamp, or to its first sample. -/
def narrow (samples : List Sample) (timestamp : Timestamp) (base size : Nat) : Nat :=
  if size ≤ 1 then base
  else
    let half := size / 2
    let middle := base + half
    let later := (samples[middle]?).any (fun sample => timestamp < sample.timestamp)
    narrow samples timestamp (if later then base else middle) (size - half)
termination_by size

def upsert (samples : List Sample) (sample : Sample) (policy : DuplicatePolicy) :
    Except Error (List Sample × Bool) :=
  let position := narrow samples sample.timestamp 0 samples.length
  match samples[position]? with
  | none => .ok (samples ++ [sample], true)
  | some present =>
      if present.timestamp = sample.timestamp then do
        let merged ← policy.combine sample.timestamp present.value sample.value
        .ok (samples.set position { present with value := merged }, false)
      else if present.timestamp < sample.timestamp then
        .ok (samples.insertIdx (position + 1) sample, true)
      else .ok (samples.insertIdx position sample, true)

end Placement

end Chronicle

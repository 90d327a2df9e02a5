import Chronicle.Query.Predicate

/-!
The label index: which keys carry which labels, for finding the keys that satisfy a
list of predicates. The index keeps the keys it knows, and sets of them by label and
value and by label name alone.
-/

namespace Chronicle

abbrev KeySet := SortedMap String Unit

namespace KeySet

def ofKeys (keys : List String) : KeySet :=
  SortedMap.ofList (keys.map (fun key => (key, ())))

def union (left right : KeySet) : KeySet :=
  right.keys.foldl (fun keys key => keys.insert key ()) left

def among (keys others : KeySet) : KeySet := keys.filter (fun (key, _) => others.contains key)

def without (keys others : KeySet) : KeySet :=
  keys.filter (fun (key, _) => !others.contains key)

end KeySet

/-- Sets of keys by what the keys are filed under. No set is kept that has run empty. -/
abbrev Buckets (κ : Type) [Ord κ] := SortedMap κ KeySet

namespace Buckets

variable {κ : Type} [Ord κ]

def under (buckets : Buckets κ) (mark : κ) : KeySet := (buckets.get? mark).getD ∅

variable [Std.TransOrd κ] [Std.LawfulEqOrd κ]

def file (buckets : Buckets κ) (key : String) (mark : κ) : Buckets κ :=
  buckets.insert mark ((buckets.under mark).insert key ())

/-- Takes a key off a mark, and the mark off the buckets with the last of its keys. -/
def strike (buckets : Buckets κ) (key : String) (mark : κ) : Buckets κ :=
  match buckets.get? mark with
  | none => buckets
  | some keys =>
      let rest := keys.erase key
      if rest.isEmpty then buckets.erase mark else buckets.insert mark rest

end Buckets

instance pairOrd : Ord (String × String) := lexOrd

structure LabelIndex where
  keys : KeySet
  /-- The keys that carry a label with a value. -/
  postings : Buckets (String × String)
  /-- The keys that carry a label, with whatever value. -/
  carriers : Buckets String
deriving DecidableEq

namespace LabelIndex

def empty : LabelIndex := ⟨∅, ∅, ∅⟩

def size (index : LabelIndex) : Nat := index.keys.size

def add (index : LabelIndex) (key : String) (labels : Labels) : LabelIndex where
  keys := index.keys.insert key ()
  postings := labels.entries.foldl (fun postings label => postings.file key label) index.postings
  carriers := labels.keys.foldl (fun carriers name => carriers.file key name) index.carriers

def remove (index : LabelIndex) (key : String) (labels : Labels) : LabelIndex where
  keys := index.keys.erase key
  postings := labels.entries.foldl (fun postings label => postings.strike key label)
    index.postings
  carriers := labels.keys.foldl (fun carriers name => carriers.strike key name) index.carriers

def candidates (index : LabelIndex) : Predicate → KeySet
  | .equal name value => index.postings.under (name, value)
  | .oneOf name values =>
      values.foldl (fun keys value => keys.union (index.postings.under (name, value))) ∅
  | _ => ∅

def sift (index : LabelIndex) (keys : KeySet) : Predicate → KeySet
  | .equal name value =>
      if value.isEmpty then keys.without (index.carriers.under name)
      else keys.among (index.candidates (.equal name value))
  | .notEqual name value =>
      if value.isEmpty then keys.among (index.carriers.under name)
      else keys.without (index.postings.under (name, value))
  | .oneOf name values => keys.among (index.candidates (.oneOf name values))
  | .noneOf name values =>
      values.foldl (fun keys value => keys.without (index.postings.under (name, value))) keys

/-- The keys that satisfy every predicate. One predicate has to be positive: the keys of
the first such are looked up, and the others only sift them, while any are left. -/
def resolve (index : LabelIndex) (predicates : List Predicate) : Except Error KeySet :=
  match predicates.find? Predicate.isPositive with
  | none => .error .noMatchers
  | some seed =>
      .ok ((predicates.eraseP Predicate.isPositive).foldl
        (fun keys predicate => if keys.isEmpty then keys else index.sift keys predicate)
        (index.candidates seed))

end LabelIndex

end Chronicle

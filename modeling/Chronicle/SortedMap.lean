/-!
Finite maps kept as their list of bindings. The order is part of the type: a walk over
a map is a walk in increasing key order, and two maps with the same bindings are the
same map. The list stands with the greatest key first, so that a map that grows at its
end grows in one step; every other operation is one pass over the bindings. The lemmas
say what each change does to a lookup.
-/

namespace Chronicle

/-- A finite map whose bindings stand in strictly decreasing key order. -/
structure SortedMap (κ : Type) (ν : Type) [Ord κ] where
  descending : List (κ × ν)
  decreasing :
    descending.Pairwise (fun earlier later => compare earlier.1 later.1 = .gt)
deriving DecidableEq

namespace SortedMap

variable {κ ν : Type} [Ord κ]

def empty : SortedMap κ ν := ⟨[], List.Pairwise.nil⟩

instance : EmptyCollection (SortedMap κ ν) := ⟨empty⟩

instance : Inhabited (SortedMap κ ν) := ⟨empty⟩

def entries (map : SortedMap κ ν) : List (κ × ν) := map.descending.reverse

def isEmpty (map : SortedMap κ ν) : Bool := map.descending.isEmpty

def size (map : SortedMap κ ν) : Nat := map.descending.length

def keys (map : SortedMap κ ν) : List κ := map.entries.map (·.1)

def values (map : SortedMap κ ν) : List ν := map.entries.map (·.2)

def first? (map : SortedMap κ ν) : Option (κ × ν) := map.descending.getLast?

def last? (map : SortedMap κ ν) : Option (κ × ν) := map.descending.head?

def lookup (key : κ) : List (κ × ν) → Option ν
  | [] => none
  | (other, value) :: rest =>
      match compare key other with
      | .eq => some value
      | _ => lookup key rest

def get? (map : SortedMap κ ν) (key : κ) : Option ν := lookup key map.descending

def contains (map : SortedMap κ ν) (key : κ) : Bool := (map.get? key).isSome

def floor? (map : SortedMap κ ν) (bound : κ) : Option (κ × ν) :=
  map.descending.find? (fun entry => (compare entry.1 bound).isLE)

def between (map : SortedMap κ ν) (low high : κ) : List ν :=
  (map.entries.filter
    (fun entry => (compare low entry.1).isLE && (compare entry.1 high).isLE)).map (·.2)

/-- Puts a binding in its place; an old binding under the same key is replaced. -/
def place (key : κ) (value : ν) : List (κ × ν) → List (κ × ν)
  | [] => [(key, value)]
  | (other, old) :: rest =>
      match compare key other with
      | .gt => (key, value) :: (other, old) :: rest
      | .eq => (key, value) :: rest
      | .lt => (other, old) :: place key value rest

theorem mem_of_mem_place {key : κ} {value : ν} {entry : κ × ν} {bindings : List (κ × ν)}
    (member : entry ∈ place key value bindings) : entry = (key, value) ∨ entry ∈ bindings := by
  induction bindings with
  | nil => simpa [place] using member
  | cons head rest ih =>
      obtain ⟨other, old⟩ := head
      unfold place at member
      split at member
      · simpa using member
      · rcases List.mem_cons.mp member with same | tail
        · exact Or.inl same
        · exact Or.inr (List.mem_cons_of_mem _ tail)
      · rcases List.mem_cons.mp member with same | tail
        · exact Or.inr (by simp [same])
        · rcases ih tail with fresh | stale
          · exact Or.inl fresh
          · exact Or.inr (List.mem_cons_of_mem _ stale)

theorem place_decreasing [Std.TransOrd κ] [Std.LawfulEqOrd κ] (key : κ) (value : ν)
    {bindings : List (κ × ν)}
    (decreasing : bindings.Pairwise (fun earlier later => compare earlier.1 later.1 = .gt)) :
    (place key value bindings).Pairwise
      (fun earlier later => compare earlier.1 later.1 = .gt) := by
  induction bindings with
  | nil => simp [place]
  | cons head rest ih =>
      obtain ⟨other, old⟩ := head
      obtain ⟨below, tailDecreasing⟩ := List.pairwise_cons.mp decreasing
      unfold place
      split
      · rename_i before
        refine List.pairwise_cons.mpr ⟨?_, decreasing⟩
        intro entry member
        rcases List.mem_cons.mp member with same | tail
        · simpa [same] using before
        · exact Std.TransCmp.gt_trans before (below entry tail)
      · rename_i same
        have equal := Std.LawfulEqCmp.compare_eq_iff_eq.mp same
        subst equal
        exact List.pairwise_cons.mpr ⟨below, tailDecreasing⟩
      · rename_i after
        refine List.pairwise_cons.mpr ⟨?_, ih tailDecreasing⟩
        intro entry member
        rcases mem_of_mem_place member with fresh | stale
        · simpa [fresh] using Std.OrientedCmp.gt_iff_lt.mpr after
        · exact below entry stale

def insert [Std.TransOrd κ] [Std.LawfulEqOrd κ] (map : SortedMap κ ν) (key : κ) (value : ν) :
    SortedMap κ ν :=
  ⟨place key value map.descending, place_decreasing key value map.decreasing⟩

def erase (map : SortedMap κ ν) (key : κ) : SortedMap κ ν :=
  ⟨map.descending.filter (fun entry => compare entry.1 key != .eq),
    map.decreasing.sublist List.filter_sublist⟩

def filter (map : SortedMap κ ν) (keep : κ × ν → Bool) : SortedMap κ ν :=
  ⟨map.descending.filter keep, map.decreasing.sublist List.filter_sublist⟩

/-- The map without so many of its bindings of least key. -/
def drop (map : SortedMap κ ν) (count : Nat) : SortedMap κ ν :=
  ⟨map.descending.take (map.descending.length - count),
    map.decreasing.sublist (List.take_sublist _ _)⟩

/-- A map from a list of bindings; of two bindings under one key the later one counts. -/
def ofList [Std.TransOrd κ] [Std.LawfulEqOrd κ] (bindings : List (κ × ν)) : SortedMap κ ν :=
  bindings.foldl (fun map binding => map.insert binding.1 binding.2) empty

def adjust [Std.TransOrd κ] [Std.LawfulEqOrd κ] (map : SortedMap κ ν) (key : κ)
    (change : ν → ν) : SortedMap κ ν :=
  match map.get? key with
  | some value => map.insert key (change value)
  | none => map

theorem lookup_place [Std.TransOrd κ] [Std.LawfulEqOrd κ] (key other : κ) (value : ν)
    (bindings : List (κ × ν)) :
    lookup other (place key value bindings) =
      if compare other key = .eq then some value else lookup other bindings := by
  induction bindings with
  | nil =>
      unfold place lookup
      split <;> simp_all [lookup]
  | cons head rest ih =>
      obtain ⟨present, old⟩ := head
      unfold place
      split
      · rw [lookup]
        split <;> simp_all
      · rename_i same
        have equal := Std.LawfulEqCmp.compare_eq_iff_eq.mp same
        subst equal
        rw [lookup, lookup]
        split <;> simp_all
      · rename_i after
        rw [lookup, lookup]
        split
        · rename_i same
          have equal := Std.LawfulEqCmp.compare_eq_iff_eq.mp same
          subst equal
          have before := Std.OrientedCmp.gt_iff_lt.mpr after
          simp [before]
        · exact ih

theorem get?_insert [Std.TransOrd κ] [Std.LawfulEqOrd κ] [DecidableEq κ]
    (map : SortedMap κ ν) (key other : κ) (value : ν) :
    (map.insert key value).get? other =
      if other = key then some value else map.get? other := by
  simp only [get?, insert, lookup_place, Std.LawfulEqCmp.compare_eq_iff_eq]

theorem lookup_erase [Std.TransOrd κ] [Std.LawfulEqOrd κ] [DecidableEq κ] (key other : κ)
    (bindings : List (κ × ν)) :
    lookup other (bindings.filter (fun entry => compare entry.1 key != .eq)) =
      if other = key then none else lookup other bindings := by
  induction bindings with
  | nil => simp [lookup]
  | cons head rest ih =>
      obtain ⟨present, old⟩ := head
      by_cases same : present = key
      · subst same
        rw [List.filter_cons_of_neg (by simp)]
        rw [ih, lookup]
        by_cases equal : other = present
        · simp [equal]
        · have apart : compare other present ≠ .eq :=
            fun found => equal (Std.LawfulEqCmp.compare_eq_iff_eq.mp found)
          cases found : compare other present with
          | eq => exact absurd found apart
          | lt => simp [equal]
          | gt => simp [equal]
      · have kept : compare present key ≠ .eq :=
          fun found => same (Std.LawfulEqCmp.compare_eq_iff_eq.mp found)
        rw [List.filter_cons_of_pos (by simpa using kept), lookup, lookup]
        split
        · rename_i found
          have equal := Std.LawfulEqCmp.compare_eq_iff_eq.mp found
          subst equal
          simp [same]
        · exact ih

theorem get?_erase [Std.TransOrd κ] [Std.LawfulEqOrd κ] [DecidableEq κ]
    (map : SortedMap κ ν) (key other : κ) :
    (map.erase key).get? other = if other = key then none else map.get? other := by
  simp only [get?, erase, lookup_erase]

theorem length_entries (map : SortedMap κ ν) : map.entries.length = map.size := by
  simp [entries, size]

theorem entries_increasing [Std.OrientedOrd κ] (map : SortedMap κ ν) :
    map.entries.Pairwise (fun earlier later => compare earlier.1 later.1 = .lt) := by
  refine List.pairwise_reverse.mpr (map.decreasing.imp ?_)
  intro _ _ greater
  exact Std.OrientedCmp.gt_iff_lt.mp greater

theorem place_greatest [Std.OrientedOrd κ] (key : κ) (value : ν) {bindings : List (κ × ν)}
    (above : ∀ entry ∈ bindings, compare entry.1 key = .lt) :
    place key value bindings = (key, value) :: bindings := by
  cases bindings with
  | nil => rfl
  | cons head rest =>
      have greater := Std.OrientedCmp.gt_iff_lt.mpr (above head (by simp))
      simp only [place, greater]

theorem eq_of_entries {left right : SortedMap κ ν} (same : left.entries = right.entries) :
    left = right := by
  cases left
  cases right
  simpa [entries] using same

theorem insert_increasing [Std.TransOrd κ] [Std.LawfulEqOrd κ] (map : SortedMap κ ν)
    (later : List (κ × ν))
    (increasing : (map.entries ++ later).Pairwise
      (fun earlier later => compare earlier.1 later.1 = .lt)) :
    (later.foldl (fun map binding => map.insert binding.1 binding.2) map).entries =
      map.entries ++ later := by
  induction later generalizing map with
  | nil => simp
  | cons binding later ih =>
      have placed : (map.insert binding.1 binding.2).entries = map.entries ++ [binding] := by
        have front : place binding.1 binding.2 map.descending =
            (binding.1, binding.2) :: map.descending :=
          place_greatest _ _ fun entry member => (List.pairwise_append.mp increasing).2.2 entry
            (List.mem_reverse.mpr member) binding (by simp)
        simp [entries, insert, front]
      rw [List.foldl_cons, ih]
      · simp [placed]
      · simpa [placed] using increasing

theorem ofList_entries [Std.TransOrd κ] [Std.LawfulEqOrd κ] (map : SortedMap κ ν) :
    ofList map.entries = map :=
  eq_of_entries (insert_increasing empty map.entries map.entries_increasing)

end SortedMap

end Chronicle

import Chronicle.Number.Counter
import Chronicle.SortedMap
import Mathlib.Data.List.Sort

/-!
What each change of a map does to its bindings in key order. A change touches one place:
the bindings before and after it stay as they are, so each lemma takes the bindings as
what is before the place and what is after it.
-/

namespace Chronicle

namespace SortedMap

variable {κ ν : Type} [Ord κ]

theorem is_empty_iff (map : SortedMap κ ν) : map.isEmpty = true ↔ map.entries = [] := by
  simp [isEmpty, entries]

theorem head?_entries (map : SortedMap κ ν) : map.entries.head? = map.first? := by
  simp [entries, first?]

theorem getLast?_entries (map : SortedMap κ ν) : map.entries.getLast? = map.last? := by
  simp [entries, last?]

theorem entries_drop (map : SortedMap κ ν) (count : Nat) :
    (map.drop count).entries = map.entries.drop count := by
  simp only [drop, entries, List.drop_reverse]

theorem descending_of_entries {map : SortedMap κ ν} {before after : List (κ × ν)}
    (parts : map.entries = before ++ after) :
    map.descending = after.reverse ++ before.reverse := by
  rw [← List.reverse_append, ← parts, entries, List.reverse_reverse]

theorem place_behind (key : κ) (value : ν) (greater rest : List (κ × ν))
    (above : ∀ entry ∈ greater, compare key entry.1 = .lt) :
    place key value (greater ++ rest) = greater ++ place key value rest := by
  induction greater with
  | nil => rfl
  | cons head greater ih =>
      have first : compare key head.1 = .lt := above head (by simp)
      have others := ih fun entry member => above entry (List.mem_cons_of_mem _ member)
      simp only [List.cons_append, place, first, others]

theorem entries_insert_between [Std.TransOrd κ] [Std.LawfulEqOrd κ] {map : SortedMap κ ν}
    {before after : List (κ × ν)} (parts : map.entries = before ++ after) (key : κ) (value : ν)
    (below : ∀ entry ∈ before, compare entry.1 key = .lt)
    (above : ∀ entry ∈ after, compare key entry.1 = .lt) :
    (map.insert key value).entries = before ++ (key, value) :: after := by
  have placed := place_behind key value after.reverse before.reverse
    fun entry member => above entry (List.mem_reverse.mp member)
  rw [place_greatest key value fun entry member => below entry (List.mem_reverse.mp member)]
    at placed
  simp only [entries, insert, descending_of_entries parts, placed]
  simp

theorem entries_insert_over [Std.TransOrd κ] [Std.LawfulEqOrd κ] {map : SortedMap κ ν}
    {before after : List (κ × ν)} {key : κ} {old : ν}
    (parts : map.entries = before ++ (key, old) :: after) (value : ν) :
    (map.insert key value).entries = before ++ (key, value) :: after := by
  have increasing := map.entries_increasing
  rw [parts] at increasing
  have above := (List.pairwise_cons.mp (List.pairwise_append.mp increasing).2.1).1
  have placed := place_behind key value after.reverse ((key, old) :: before.reverse)
    fun entry member => above entry (List.mem_reverse.mp member)
  have descending : map.descending = after.reverse ++ (key, old) :: before.reverse := by
    simpa using descending_of_entries parts
  have here : place key value ((key, old) :: before.reverse) = (key, value) :: before.reverse := by
    simp only [place, Std.ReflCmp.compare_self]
  simp only [entries, insert, descending, placed, here]
  simp

theorem entries_erase [Std.TransOrd κ] [Std.LawfulEqOrd κ] {map : SortedMap κ ν}
    {before after : List (κ × ν)} {key : κ} {old : ν}
    (parts : map.entries = before ++ (key, old) :: after) :
    (map.erase key).entries = before ++ after := by
  have increasing := map.entries_increasing
  rw [parts] at increasing
  obtain ⟨_, behind, across⟩ := List.pairwise_append.mp increasing
  have keep : ∀ entry ∈ before ++ after, (compare entry.1 key != .eq) = true := by
    intro entry member
    rcases List.mem_append.mp member with early | late
    · simp [across entry early (key, old) (by simp)]
    · simp [Std.OrientedCmp.gt_iff_lt.mpr ((List.pairwise_cons.mp behind).1 entry late)]
  have kept := List.filter_eq_self.mpr keep
  rw [List.filter_append] at kept
  rw [show (map.erase key).entries = map.entries.filter (fun entry => compare entry.1 key != .eq)
    from (List.filter_reverse ..).symm, parts]
  simpa using kept

theorem place_place [Std.ReflOrd κ] (key : κ) (old value : ν) (bindings : List (κ × ν)) :
    place key value (place key old bindings) = place key value bindings := by
  induction bindings with
  | nil => simp [place, Std.ReflCmp.compare_self]
  | cons head rest ih =>
      obtain ⟨other, present⟩ := head
      cases order : compare key other with
      | lt => simp only [place, order, ih]
      | eq => simp only [place, order, Std.ReflCmp.compare_self]
      | gt => simp only [place, order, Std.ReflCmp.compare_self]

theorem insert_insert [Std.TransOrd κ] [Std.LawfulEqOrd κ] (map : SortedMap κ ν) (key : κ)
    (old value : ν) : (map.insert key old).insert key value = map.insert key value := by
  simp only [insert, place_place]

theorem filter_place [Std.OrientedOrd κ] (key : κ) (value : ν) (bindings : List (κ × ν)) :
    (place key value bindings).filter (fun entry => compare entry.1 key != .eq) =
      bindings.filter (fun entry => compare entry.1 key != .eq) := by
  induction bindings with
  | nil => simp [place, Std.ReflCmp.compare_self]
  | cons head rest ih =>
      obtain ⟨other, present⟩ := head
      cases order : compare key other with
      | lt => simp only [place, order, List.filter_cons, ih]
      | eq =>
          have same : compare other key = .eq := Std.OrientedCmp.eq_symm order
          simp [place, order, same, Std.ReflCmp.compare_self]
      | gt => simp [place, order, List.filter_cons, Std.ReflCmp.compare_self]

theorem erase_insert [Std.TransOrd κ] [Std.LawfulEqOrd κ] (map : SortedMap κ ν) (key : κ)
    (value : ν) : (map.insert key value).erase key = map.erase key := by
  simp only [insert, erase, filter_place]

theorem get?_adjust [Std.TransOrd κ] [Std.LawfulEqOrd κ] [DecidableEq κ] (map : SortedMap κ ν)
    (key other : κ) (change : ν → ν) :
    (map.adjust key change).get? other =
      if other = key then (map.get? key).map change else map.get? other := by
  unfold adjust
  cases present : map.get? key with
  | none =>
      by_cases same : other = key
      · rw [if_pos same, same, present, Option.map_none]
      · rw [if_neg same]
  | some value => rw [get?_insert, Option.map_some]

theorem get?_empty (key : κ) : (∅ : SortedMap κ ν).get? key = none := rfl

theorem contains_iff (map : SortedMap κ ν) (key : κ) :
    map.contains key = true ↔ ∃ value, map.get? key = some value := Option.isSome_iff_exists

theorem keys_increasing [Std.OrientedOrd κ] (map : SortedMap κ ν) :
    map.keys.Pairwise (fun earlier later => compare earlier later = .lt) :=
  List.pairwise_map.mpr map.entries_increasing

theorem keys_distinct [Std.TransOrd κ] (map : SortedMap κ ν) : map.keys.Nodup := by
  refine map.keys_increasing.imp ?_
  rintro key _ less rfl
  exact nomatch Std.ReflCmp.compare_self.symm.trans less

section Lookup

variable [Std.LawfulEqOrd κ]

theorem mem_iff_lookup {key : κ} {value : ν} {bindings : List (κ × ν)}
    (decreasing : bindings.Pairwise (fun earlier later => compare earlier.1 later.1 = .gt)) :
    (key, value) ∈ bindings ↔ lookup key bindings = some value := by
  induction bindings with
  | nil => simp [lookup]
  | cons head rest ih =>
      obtain ⟨other, old⟩ := head
      obtain ⟨below, restDecreasing⟩ := List.pairwise_cons.mp decreasing
      have behind := ih restDecreasing
      rw [List.mem_cons, lookup]
      split
      · rename_i same
        obtain rfl := Std.LawfulEqCmp.compare_eq_iff_eq.mp same
        constructor
        · rintro (found | later)
          · obtain ⟨_, rfl⟩ := Prod.mk.inj found
            rfl
          · have greater : compare key key = .gt := below _ later
            exact absurd (same.symm.trans greater) (by decide)
        · rintro found
          exact Or.inl (by rw [Option.some.inj found])
      · rename_i different
        rw [← behind]
        constructor
        · rintro (found | later)
          · obtain ⟨rfl, _⟩ := Prod.mk.inj found
            exact absurd Std.ReflCmp.compare_self different
          · exact later
        · exact Or.inr

theorem mem_entries_iff (map : SortedMap κ ν) (key : κ) (value : ν) :
    (key, value) ∈ map.entries ↔ map.get? key = some value := by
  rw [entries, List.mem_reverse, mem_iff_lookup map.decreasing, get?]

theorem mem_values_iff (map : SortedMap κ ν) (value : ν) :
    value ∈ map.values ↔ ∃ key, map.get? key = some value := by
  simp [values, ← mem_entries_iff]

theorem mem_keys_iff (map : SortedMap κ ν) (key : κ) :
    key ∈ map.keys ↔ map.contains key = true := by
  rw [contains_iff, keys, List.mem_map]
  constructor
  · rintro ⟨⟨_, value⟩, member, rfl⟩
    exact ⟨value, (map.mem_entries_iff _ value).mp member⟩
  · rintro ⟨value, present⟩
    exact ⟨(key, value), (map.mem_entries_iff key value).mpr present, rfl⟩

theorem get?_filter (map : SortedMap κ ν) (keep : κ × ν → Bool) (key : κ) :
    (map.filter keep).get? key = (map.get? key).filter (fun value => keep (key, value)) := by
  apply Option.ext
  intro value
  rw [Option.filter_eq_some_iff, ← mem_entries_iff, ← mem_entries_iff]
  simp only [entries, filter, List.mem_reverse, List.mem_filter]

theorem keys_eq_of_contains [Std.TransOrd κ] {μ : Type} {left : SortedMap κ ν}
    {right : SortedMap κ μ}
    (same : ∀ key, left.contains key = right.contains key) : left.keys = right.keys := by
  have : Std.Irrefl (fun earlier later : κ => compare earlier later = .lt) :=
    ⟨fun key less => nomatch Std.ReflCmp.compare_self.symm.trans less⟩
  have : Std.Antisymm (fun earlier later : κ => compare earlier later = .lt) :=
    ⟨fun _ _ less more => nomatch (Std.OrientedCmp.gt_iff_lt.mpr less).symm.trans more⟩
  refine left.keys_increasing.eq_of_mem_iff right.keys_increasing fun key => ?_
  rw [mem_keys_iff, mem_keys_iff, same]

/-- Nothing but its lookups is in a map. -/
theorem eq_of_get? [Std.TransOrd κ] {left right : SortedMap κ ν}
    (same : ∀ key, left.get? key = right.get? key) : left = right := by
  have : Std.Irrefl (fun earlier later : κ × ν => compare earlier.1 later.1 = .lt) :=
    ⟨fun _ less => nomatch Std.ReflCmp.compare_self.symm.trans less⟩
  have : Std.Antisymm (fun earlier later : κ × ν => compare earlier.1 later.1 = .lt) :=
    ⟨fun _ _ less more => nomatch (Std.OrientedCmp.gt_iff_lt.mpr less).symm.trans more⟩
  apply eq_of_entries
  refine left.entries_increasing.eq_of_mem_iff right.entries_increasing fun entry => ?_
  rw [mem_entries_iff, mem_entries_iff, same]

end Lookup

theorem length_keys (map : SortedMap κ ν) : map.keys.length = map.size := by
  rw [keys, List.length_map, length_entries]

/-- That something holds of every key and the value under it. -/
def Every (map : SortedMap κ ν) (holds : κ → ν → Prop) : Prop :=
  ∀ key value, map.get? key = some value → holds key value

theorem every_empty {holds : κ → ν → Prop} : (∅ : SortedMap κ ν).Every holds :=
  fun _ _ present => nomatch present

theorem every_drop [Std.LawfulEqOrd κ] {map : SortedMap κ ν} {holds : κ → ν → Prop}
    (every : map.Every holds) (count : Nat) : (map.drop count).Every holds := by
  intro key value present
  rw [← mem_entries_iff, entries_drop] at present
  exact every key value ((map.mem_entries_iff key value).mp (List.mem_of_mem_drop present))

section Every

variable [Std.TransOrd κ] [Std.LawfulEqOrd κ] [DecidableEq κ] {map : SortedMap κ ν}
  {holds : κ → ν → Prop}

theorem every_insert (every : map.Every holds) {key : κ} {value : ν} (new : holds key value) :
    (map.insert key value).Every holds := by
  intro other one present
  rw [get?_insert] at present
  split at present
  · rename_i same
    obtain rfl := Option.some.inj present
    exact same ▸ new
  · exact every other one present

theorem every_erase (every : map.Every holds) (key : κ) : (map.erase key).Every holds := by
  intro other one present
  rw [get?_erase] at present
  split at present
  · exact nomatch present
  · exact every other one present

theorem every_adjust (every : map.Every holds) {key : κ} {change : ν → ν}
    (keeps : ∀ value, map.get? key = some value → holds key (change value)) :
    (map.adjust key change).Every holds := by
  intro other one present
  rw [get?_adjust] at present
  split at present
  · rename_i same
    obtain ⟨old, found, rfl⟩ := Option.map_eq_some_iff.mp present
    exact same ▸ keeps old found
  · exact every other one present

end Every

/-- That there is a value under a key, and that something holds of it. -/
def At (map : SortedMap κ ν) (key : κ) (holds : ν → Prop) : Prop :=
  ∃ value, map.get? key = some value ∧ holds value

section At

variable [Std.TransOrd κ] [Std.LawfulEqOrd κ] [DecidableEq κ] {map : SortedMap κ ν} {key other : κ}
  {holds : ν → Prop}

theorem at_insert (there : map.At key holds) {value : ν} (new : other = key → holds value) :
    (map.insert other value).At key holds := by
  obtain ⟨old, present, held⟩ := there
  unfold At
  rw [get?_insert]
  split
  · rename_i same
    exact ⟨value, rfl, new same.symm⟩
  · exact ⟨old, present, held⟩

theorem at_erase (there : map.At key holds) (different : key ≠ other) :
    (map.erase other).At key holds := by
  unfold At
  rw [get?_erase, if_neg different]
  exact there

theorem at_adjust (there : map.At key holds) {change : ν → ν}
    (keeps : ∀ value, other = key → holds value → holds (change value)) :
    (map.adjust other change).At key holds := by
  obtain ⟨old, present, held⟩ := there
  unfold At
  rw [get?_adjust]
  split
  · rename_i same
    rw [← same, present]
    exact ⟨change old, rfl, keeps old same.symm held⟩
  · exact ⟨old, present, held⟩

end At

/-- The binding under the greatest key that is not above a bound. -/
theorem floor?_of_parts {map : SortedMap κ ν} {before after : List (κ × ν)} {entry : κ × ν}
    {bound : κ} (parts : map.entries = before ++ entry :: after)
    (reached : (compare entry.1 bound).isLE)
    (above : ∀ other ∈ after, (compare other.1 bound).isLE = false) :
    map.floor? bound = some entry := by
  have descending : map.descending = after.reverse ++ entry :: before.reverse := by
    simpa using descending_of_entries parts
  have passed : after.reverse.find? (fun entry => (compare entry.1 bound).isLE) = none := by
    rw [List.find?_eq_none]
    intro other member
    simp [above other (List.mem_reverse.mp member)]
  rw [floor?, descending, List.find?_append, passed, Option.none_or]
  exact List.find?_cons_of_pos reached

theorem floor?_eq_none {map : SortedMap κ ν} {bound : κ}
    (above : ∀ entry ∈ map.entries, (compare entry.1 bound).isLE = false) :
    map.floor? bound = none := by
  rw [floor?, List.find?_eq_none]
  intro entry member
  simp [above entry (List.mem_reverse.mpr member)]

theorem floor?_some {map : SortedMap κ ν} {bound : κ} {entry : κ × ν}
    (found : map.floor? bound = some entry) :
    entry ∈ map.entries ∧ (compare entry.1 bound).isLE = true :=
  ⟨List.mem_reverse.mpr (List.mem_of_find?_eq_some found), by simpa using List.find?_some found⟩

theorem floor?_none {map : SortedMap κ ν} {bound : κ} (missing : map.floor? bound = none)
    {entry : κ × ν} (member : entry ∈ map.entries) : ¬ (compare entry.1 bound).isLE = true :=
  List.find?_eq_none.mp missing entry (List.mem_reverse.mp member)

theorem total_one (map : SortedMap κ ν) : total (fun _ => 1) map.values = map.size := by
  have counted : ∀ values : List ν, total (fun _ => 1) values = values.length := by
    intro values
    induction values with
    | nil => rfl
    | cons value later ih => rw [total, ih, List.length_cons, Nat.add_comm]
  rw [counted, values, List.length_map, length_entries]

section Total

variable [Std.TransOrd κ] [Std.LawfulEqOrd κ] [DecidableEq κ] (measure : ν → Nat)
  {map : SortedMap κ ν} {key : κ} {value old : ν}

omit [DecidableEq κ] in
theorem total_erase (present : map.get? key = some value) :
    total measure (map.erase key).values + measure value = total measure map.values := by
  obtain ⟨before, after, parts⟩ := List.append_of_mem ((map.mem_entries_iff key value).mpr present)
  rw [values, values, entries_erase parts, parts, List.map_append, List.map_append, List.map_cons,
    total_append, total_append, total]
  dsimp only
  omega

theorem total_insert (key : κ) (value : ν) : total measure (map.insert key value).values =
    total measure (map.erase key).values + measure value := by
  have present : (map.insert key value).get? key = some value := by
    rw [get?_insert, if_pos rfl]
  rw [← total_erase measure present, erase_insert]

theorem total_exchange (present : map.get? key = some old) (value : ν) :
    total measure (map.insert key value).values + measure old =
      total measure map.values + measure value := by
  have taken := total_erase measure present
  rw [total_insert]
  omega

theorem total_enter (free : map.get? key = none) (value : ν) :
    total measure (map.insert key value).values = total measure map.values + measure value := by
  have same : map.erase key = map := by
    apply eq_of_get?
    intro other
    rw [get?_erase]
    split
    · rename_i here
      rw [here, free]
    · rfl
  rw [total_insert, same]

theorem total_adjust {change : ν → ν} (keeps : ∀ value, measure (change value) = measure value)
    (key : κ) : total measure (map.adjust key change).values = total measure map.values := by
  unfold adjust
  split
  · rename_i value present
    have exchanged := total_exchange measure present (change value)
    rw [keeps] at exchanged
    omega
  · rfl

omit [DecidableEq κ] in
theorem size_erase (present : map.get? key = some value) : (map.erase key).size + 1 = map.size := by
  rw [← total_one, ← total_one map]
  exact total_erase (fun _ => 1) present

theorem size_exchange (present : map.get? key = some old) (value : ν) :
    (map.insert key value).size = map.size := by
  have exchanged := total_exchange (fun _ => 1) present value
  rw [total_one, total_one] at exchanged
  exact Nat.add_right_cancel exchanged

theorem size_enter (free : map.get? key = none) (value : ν) :
    (map.insert key value).size = map.size + 1 := by
  rw [← total_one, ← total_one map]
  exact total_enter (fun _ => 1) free value

theorem size_adjust (key : κ) (change : ν → ν) : (map.adjust key change).size = map.size := by
  rw [← total_one, ← total_one map]
  exact total_adjust (fun _ => 1) (fun _ => rfl) key

end Total

end SortedMap

end Chronicle

import Chronicle.Proofs.SortedMap
import Chronicle.Query.Index

/-!
The label index. Whether a key stands under a mark is all that is seen of the buckets, and
filing and striking a key change just that. An index that files keys under their labels
answers predicates as their labels do.
-/

namespace Chronicle

namespace KeySet

variable (keys others : KeySet) (key : String)

theorem contains_empty : SortedMap.contains (∅ : KeySet) key = false := rfl

theorem contains_insert (other : String) :
    SortedMap.contains (SortedMap.insert keys other ()) key = true ↔
      key = other ∨ keys.contains key = true := by
  unfold SortedMap.contains
  rw [SortedMap.get?_insert]
  split <;> simp [*]

theorem contains_erase (other : String) :
    SortedMap.contains (SortedMap.erase keys other) key = true ↔
      key ≠ other ∧ keys.contains key = true := by
  unfold SortedMap.contains
  rw [SortedMap.get?_erase]
  split <;> simp [*]

theorem contains_filter (keep : String × Unit → Bool) :
    SortedMap.contains (SortedMap.filter keys keep) key = true ↔
      keys.contains key = true ∧ keep (key, ()) = true := by
  unfold SortedMap.contains
  rw [SortedMap.get?_filter]
  cases keys.get? key with
  | none => simp
  | some filed => simp [Option.isSome_filter]

theorem contains_among : (keys.among others).contains key = true ↔
    keys.contains key = true ∧ others.contains key = true :=
  contains_filter keys key _

theorem contains_without : (keys.without others).contains key = true ↔
    keys.contains key = true ∧ others.contains key = false := by
  rw [← Bool.not_eq_true']
  exact contains_filter keys key _

theorem contains_union : (keys.union others).contains key = true ↔
    keys.contains key = true ∨ others.contains key = true := by
  have inserted : ∀ (added : List String) (start : KeySet),
      (added.foldl (fun keys key => SortedMap.insert keys key ()) start).contains key = true ↔
        start.contains key = true ∨ key ∈ added := by
    intro added
    induction added with
    | nil => simp
    | cons first later ih =>
        intro start
        rw [List.foldl_cons, ih, contains_insert, List.mem_cons]
        tauto
  unfold union
  rw [inserted, SortedMap.mem_keys_iff]

theorem is_empty_iff : SortedMap.isEmpty keys = true ↔ ∀ key, keys.contains key = false := by
  rw [SortedMap.is_empty_iff]
  constructor
  · intro none key
    rw [← Bool.not_eq_true, ← SortedMap.mem_keys_iff, SortedMap.keys, none]
    simp
  · intro none
    have bare : keys.keys = [] := by
      apply List.eq_nil_iff_forall_not_mem.mpr
      intro key member
      exact Bool.false_ne_true ((none key).symm.trans ((keys.mem_keys_iff key).mp member))
    exact List.map_eq_nil_iff.mp bare

end KeySet

namespace Buckets

variable {κ : Type} [Ord κ]

def Holds (buckets : Buckets κ) (mark : κ) (key : String) : Prop :=
  (buckets.under mark).contains key = true

variable [Std.TransOrd κ] [Std.LawfulEqOrd κ] [DecidableEq κ] (buckets : Buckets κ)
  (key other : String) (mark filed : κ)

theorem holds_file : (buckets.file key mark).Holds filed other ↔
    buckets.Holds filed other ∨ (filed = mark ∧ other = key) := by
  unfold Holds file under
  rw [SortedMap.get?_insert]
  split
  · rename_i same
    rw [Option.getD_some, KeySet.contains_insert, same]
    tauto
  · rename_i different
    simp [different]

theorem holds_strike : (buckets.strike key mark).Holds filed other ↔
    buckets.Holds filed other ∧ ¬ (filed = mark ∧ other = key) := by
  unfold strike
  split
  · rename_i absent
    constructor
    · intro holds
      refine ⟨holds, ?_⟩
      rintro ⟨rfl, rfl⟩
      rw [Holds, under, absent] at holds
      exact nomatch holds
    · exact And.left
  · rename_i keys present
    have rest : (keys.erase key).contains other = true ↔
        other ≠ key ∧ keys.contains other = true := KeySet.contains_erase keys other key
    dsimp only
    split
    · rename_i none
      have gone := (KeySet.is_empty_iff _).mp none other
      unfold Holds under
      rw [SortedMap.get?_erase]
      split
      · rename_i same
        rw [same, present, Option.getD_none, Option.getD_some, KeySet.contains_empty]
        rw [gone] at rest
        tauto
      · rename_i different
        simp [different]
    · unfold Holds under
      rw [SortedMap.get?_insert]
      split
      · rename_i same
        rw [same, present, Option.getD_some, Option.getD_some, rest]
        tauto
      · rename_i different
        simp [different]

theorem holds_file_all (marks : List κ) :
    Holds (marks.foldl (fun buckets mark => buckets.file key mark) buckets) filed other ↔
      buckets.Holds filed other ∨ (filed ∈ marks ∧ other = key) := by
  induction marks generalizing buckets with
  | nil => simp
  | cons mark later ih =>
      rw [List.foldl_cons, ih, holds_file, List.mem_cons]
      tauto

theorem holds_strike_all (marks : List κ) :
    Holds (marks.foldl (fun buckets mark => buckets.strike key mark) buckets) filed other ↔
      buckets.Holds filed other ∧ ¬ (filed ∈ marks ∧ other = key) := by
  induction marks generalizing buckets with
  | nil => simp
  | cons mark later ih =>
      rw [List.foldl_cons, ih, holds_strike, List.mem_cons]
      tauto

end Buckets

namespace LabelIndex

/-- That an index files exactly some keys, under the labels that they have. -/
structure Files (index : LabelIndex) (labels : String → Option Labels) : Prop where
  keys : ∀ key, index.keys.contains key = (labels key).isSome
  postings : ∀ name value key, index.postings.Holds (name, value) key ↔
    ∃ own, labels key = some own ∧ own.get? name = some value
  carriers : ∀ name key, index.carriers.Holds name key ↔
    ∃ own, labels key = some own ∧ own.contains name = true

variable {index : LabelIndex} {labels : String → Option Labels} {key : String} {own : Labels}

theorem files_empty : empty.Files fun _ => none where
  keys _ := rfl
  postings name value key := by
    constructor
    · exact fun holds => absurd holds Bool.false_ne_true
    · exact fun ⟨_, absent, _⟩ => nomatch absent
  carriers name key := by
    constructor
    · exact fun holds => absurd holds Bool.false_ne_true
    · exact fun ⟨_, absent, _⟩ => nomatch absent

theorem files_add (files : index.Files labels) (free : labels key = none) (own : Labels) :
    (index.add key own).Files fun other => if other = key then some own else labels other where
  keys other := by
    have inserted := KeySet.contains_insert index.keys other key
    rw [files.keys] at inserted
    rw [Bool.eq_iff_iff]
    refine inserted.trans ?_
    split <;> simp [*]
  postings name value other := by
    refine (Buckets.holds_file_all index.postings key other (name, value) own.entries).trans ?_
    rw [files.postings, SortedMap.mem_entries_iff]
    split
    · rename_i same
      simp [same, free]
    · rename_i different
      simp [different]
  carriers name other := by
    refine (Buckets.holds_file_all index.carriers key other name own.keys).trans ?_
    rw [files.carriers, SortedMap.mem_keys_iff]
    split
    · rename_i same
      simp [same, free]
    · rename_i different
      simp [different]

theorem files_remove (files : index.Files labels) (present : labels key = some own) :
    (index.remove key own).Files fun other => if other = key then none else labels other where
  keys other := by
    have erased := KeySet.contains_erase index.keys other key
    rw [files.keys] at erased
    rw [Bool.eq_iff_iff]
    refine erased.trans ?_
    split <;> simp [*]
  postings name value other := by
    refine (Buckets.holds_strike_all index.postings key other (name, value) own.entries).trans ?_
    rw [files.postings, SortedMap.mem_entries_iff]
    split
    · rename_i same
      simp [same, present]
    · rename_i different
      simp [different]
  carriers name other := by
    refine (Buckets.holds_strike_all index.carriers key other name own.keys).trans ?_
    rw [files.carriers, SortedMap.mem_keys_iff]
    split
    · rename_i same
      simp [same, present]
    · rename_i different
      simp [different]

/-- The labels of a key; a key that is not filed counts as one without labels. -/
def carried (labels : String → Option Labels) (key : String) : Labels := (labels key).getD ∅

section Sift

variable (files : index.Files labels) (key : String)

include files

theorem carried_eq (name : String) :
    (index.carriers.under name).contains key = (carried labels key).contains name := by
  refine Bool.eq_iff_iff.mpr ((files.carriers name key).trans ?_)
  unfold carried
  cases labels key with
  | none => simp [SortedMap.contains, SortedMap.get?_empty]
  | some labels => simp

theorem posted_eq (name value : String) :
    (index.postings.under (name, value)).contains key =
      decide ((carried labels key).get? name = some value) := by
  refine Bool.eq_iff_iff.mpr ((files.postings name value key).trans ?_)
  unfold carried
  cases labels key with
  | none => simp [SortedMap.get?_empty]
  | some labels => simp

theorem candidates_equal {name value : String} (given : value.isEmpty = false) :
    (index.candidates (.equal name value)).contains key =
      (Predicate.equal name value).holds (carried labels key) := by
  refine (posted_eq files key name value).trans ?_
  simp [Predicate.holds, given]

theorem candidates_one_of (name : String) (values : List String) :
    (index.candidates (.oneOf name values)).contains key =
      (Predicate.oneOf name values).holds (carried labels key) := by
  have gathered : ∀ (values : List String) (start : KeySet),
      SortedMap.contains (values.foldl (fun keys value =>
          KeySet.union keys (index.postings.under (name, value))) start) key = true ↔
        start.contains key = true ∨
          ∃ value ∈ values, (carried labels key).get? name = some value := by
    intro values
    induction values with
    | nil => simp
    | cons value later ih =>
        intro start
        rw [List.foldl_cons, ih, KeySet.contains_union, posted_eq files key,
          List.exists_mem_cons_iff, or_assoc, decide_eq_true_iff]
  refine Bool.eq_iff_iff.mpr ((gathered values ∅).trans ?_)
  simp [KeySet.contains_empty, Predicate.holds]

/-- A predicate leaves a key whose labels satisfy it. -/
theorem sift_eq (keys : KeySet) (predicate : Predicate) :
    (index.sift keys predicate).contains key =
      (keys.contains key && predicate.holds (carried labels key)) := by
  rw [Bool.eq_iff_iff, Bool.and_eq_true]
  cases predicate with
  | equal name value =>
      unfold sift
      dsimp only
      cases given : value.isEmpty with
      | true =>
          rw [if_pos rfl, KeySet.contains_without, carried_eq files key]
          simp [Predicate.holds, given]
      | false =>
          rw [if_neg Bool.false_ne_true, KeySet.contains_among, candidates_equal files key given]
  | notEqual name value =>
      unfold sift
      dsimp only
      cases given : value.isEmpty with
      | true =>
          rw [if_pos rfl, KeySet.contains_among, carried_eq files key]
          simp [Predicate.holds, given]
      | false =>
          rw [if_neg Bool.false_ne_true, KeySet.contains_without, posted_eq files key]
          simp [Predicate.holds, given]
  | oneOf name values =>
      refine (KeySet.contains_among keys _ key).trans ?_
      rw [candidates_one_of files key]
  | noneOf name values =>
      have sifted : ∀ (values : List String) (start : KeySet),
          SortedMap.contains (values.foldl (fun keys value =>
              KeySet.without keys (index.postings.under (name, value))) start) key = true ↔
            start.contains key = true ∧
              ∀ value ∈ values, (carried labels key).get? name ≠ some value := by
        intro values
        induction values with
        | nil => simp
        | cons value later ih =>
            intro start
            rw [List.foldl_cons, ih, KeySet.contains_without, posted_eq files key,
              List.forall_mem_cons, and_assoc, decide_eq_false_iff_not]
      refine (sifted values keys).trans ?_
      simp [Predicate.holds]

theorem candidates_eq {predicate : Predicate} (positive : predicate.isPositive = true) :
    (index.candidates predicate).contains key = predicate.holds (carried labels key) := by
  cases predicate with
  | equal name value =>
      exact candidates_equal files key (by simpa [Predicate.isPositive] using positive)
  | oneOf name values => exact candidates_one_of files key name values
  | notEqual | noneOf => exact nomatch positive

theorem sift_all_eq (predicates : List Predicate) (keys : KeySet) :
    SortedMap.contains (predicates.foldl (fun keys predicate =>
        if keys.isEmpty then keys else index.sift keys predicate) keys) key =
      (keys.contains key &&
        predicates.all fun predicate => predicate.holds (carried labels key)) := by
  induction predicates generalizing keys with
  | nil => simp
  | cons predicate later ih =>
      rw [List.foldl_cons, ih, List.all_cons]
      split
      · rename_i none
        rw [(KeySet.is_empty_iff keys).mp none key, Bool.false_and, Bool.false_and]
      · rw [sift_eq files key, Bool.and_assoc]

end Sift

theorem not_positive_bare {predicate : Predicate} (positive : predicate.isPositive = true) :
    predicate.holds ∅ = false := by
  cases predicate with
  | equal name value =>
      have given : value.isEmpty = false := by simpa [Predicate.isPositive] using positive
      simp [Predicate.holds, given, SortedMap.get?_empty]
  | oneOf name values => simp [Predicate.holds, SortedMap.get?_empty]
  | notEqual | noneOf => exact nomatch positive

theorem resolve_none (index : LabelIndex) {predicates : List Predicate}
    (negative : predicates.any Predicate.isPositive = false) :
    index.resolve predicates = .error .noMatchers := by
  have unfound : predicates.find? Predicate.isPositive = none := by
    simpa using negative
  rw [resolve, unfound]

/-- Where a predicate is positive, the keys are found whose labels satisfy all of them. -/
theorem resolve_exact (files : index.Files labels) {predicates : List Predicate}
    (positive : predicates.any Predicate.isPositive = true) :
    ∃ keys, index.resolve predicates = .ok keys ∧ ∀ key, keys.contains key = true ↔
      ∃ own, labels key = some own ∧ ∀ predicate ∈ predicates, predicate.holds own = true := by
  cases found : predicates.find? Predicate.isPositive with
  | none =>
      rw [List.find?_eq_none] at found
      obtain ⟨predicate, member, seeds⟩ := List.any_eq_true.mp positive
      exact absurd seeds (found predicate member)
  | some seed =>
      have seeds := List.find?_some found
      refine ⟨_, by rw [resolve, found], fun key => ?_⟩
      -- the seed is not sifted by again, but it has been satisfied from the start
      have first : (predicates.all fun predicate => predicate.holds (carried labels key)) =
          (seed.holds (carried labels key) && (predicates.eraseP Predicate.isPositive).all
            fun predicate => predicate.holds (carried labels key)) := by
        obtain ⟨_, before, after, rfl, passed⟩ := List.find?_eq_some_iff_append.mp found
        have none : ∀ predicate ∈ before, ¬ predicate.isPositive = true := by simpa using passed
        rw [List.eraseP_append_right _ none, List.eraseP_cons_of_pos seeds]
        simp [Bool.and_left_comm]
      rw [sift_all_eq files key, candidates_eq files key seeds, ← first, List.all_eq_true]
      unfold carried
      cases filed : labels key with
      | some own => simp
      | none =>
          -- a key that is not filed has no labels, which the seed refuses
          have member := List.mem_of_find?_eq_some found
          simp only [Option.getD_none, reduceCtorEq, false_and, exists_false, iff_false]
          intro all
          exact Bool.false_ne_true ((not_positive_bare seeds).symm.trans (all seed member))

end LabelIndex

end Chronicle

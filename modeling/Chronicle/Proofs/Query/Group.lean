import Chronicle.Proofs.Aggregation.Bucket
import Chronicle.Proofs.SortedMap
import Chronicle.Query.Range
import Mathlib.Algebra.BigOperators.Group.Finset.Basic
import Mathlib.Data.List.Induction

/-!
What grouping makes of the samples of several series. A group is made of the contributions with
one label value, in the order in which they come, and its samples are the reductions of what
lies at one moment in any of them.
-/

namespace Chronicle

open Timeline

namespace SortedMap

variable {κ ν α : Type} [Ord κ] [Std.TransOrd κ] [Std.LawfulEqOrd κ]

/-- Elements collected under marks: each changes what is under its mark. -/
def collect (mark : α → κ) (start : ν) (take : ν → α → ν) (elements : List α) : SortedMap κ ν :=
  elements.foldl
    (fun map one => map.insert (mark one) (take ((map.get? (mark one)).getD start) one)) ∅

theorem get?_collect [DecidableEq κ] (mark : α → κ) (start : ν) (take : ν → α → ν)
    (elements : List α) (key : κ) : (collect mark start take elements).get? key =
      if (elements.filter fun one => mark one = key).isEmpty then none
      else some ((elements.filter fun one => mark one = key).foldl take start) := by
  induction elements using List.reverseRecOn with
  | nil => rfl
  | append_singleton before last ih =>
      have held : ((collect mark start take before).get? key).getD start =
          (before.filter fun one => mark one = key).foldl take start := by
        rw [ih]
        split
        · rename_i none
          rw [List.isEmpty_iff.mp none, Option.getD_none, List.foldl_nil]
        · rfl
      have next : collect mark start take (before ++ [last]) =
          (collect mark start take before).insert (mark last)
            (take (((collect mark start take before).get? (mark last)).getD start) last) :=
        List.foldl_append
      rw [next, get?_insert, List.filter_append]
      by_cases here : key = mark last
      · subst here
        simp [held]
      · rw [if_neg here, ih]
        simp [Ne.symm here]

end SortedMap

def valuesAt (timestamp : Timestamp) (samples : List Sample) : List Value :=
  (samples.filter fun one => one.timestamp = timestamp).map (·.value)

/-- That samples are the reductions of others moment by moment: one at each moment that occurs,
in the order of time. -/
structure Reduces (reducer : Reducer) (samples reduced : List Sample) : Prop where
  increasing : Increasing reduced
  occurs : ∀ timestamp, timestamp ∈ reduced.map (·.timestamp) ↔
    timestamp ∈ samples.map (·.timestamp)
  exact : ∀ one ∈ reduced,
    Accumulator.aggregate reducer.kind (valuesAt one.timestamp samples) = some one.value

namespace Group

theorem feed_eq (reducer : Reducer) (samples : List Sample) :
    samples.foldl (feed reducer) ∅ = SortedMap.collect Sample.timestamp (.new reducer.kind)
      (fun held sample => held.append sample.value) samples := rfl

theorem get?_feed (reducer : Reducer) (samples : List Sample) (timestamp : Timestamp) :
    (samples.foldl (feed reducer) ∅).get? timestamp =
      if (valuesAt timestamp samples).isEmpty then none
      else some ((valuesAt timestamp samples).foldl Accumulator.append (.new reducer.kind)) := by
  rw [feed_eq, SortedMap.get?_collect, valuesAt, List.isEmpty_map, List.foldl_map]

theorem values_at_ne_nil {timestamp : Timestamp} {samples : List Sample} :
    valuesAt timestamp samples ≠ [] ↔ timestamp ∈ samples.map (·.timestamp) := by
  simp [valuesAt, List.filter_eq_nil_iff]

theorem mem_entries_feed (reducer : Reducer) (samples : List Sample) (timestamp : Timestamp)
    (held : Accumulator Value) :
    (timestamp, held) ∈ (samples.foldl (feed reducer) ∅).entries ↔
      valuesAt timestamp samples ≠ [] ∧
        (valuesAt timestamp samples).foldl Accumulator.append (.new reducer.kind) = held := by
  rw [SortedMap.mem_entries_iff, get?_feed]
  cases valuesAt timestamp samples <;> simp

/-- The samples of a group are the reductions of what it was fed. -/
theorem reduces_feed {group : Group} {reducer : Reducer} {samples : List Sample}
    (fed : group.buckets = samples.foldl (feed reducer) ∅) :
    Reduces reducer samples group.samples where
  increasing := by
    refine List.pairwise_filterMap.mpr (group.buckets.entries_increasing.imp ?_)
    intro earlier later before one reducedOne other reducedOther
    obtain ⟨_, _, rfl⟩ := Option.map_eq_some_iff.mp reducedOne
    obtain ⟨_, _, rfl⟩ := Option.map_eq_some_iff.mp reducedOther
    exact compareOfLessAndEq_eq_lt.mp before
  occurs := by
    intro timestamp
    refine Iff.trans ?_ values_at_ne_nil
    rw [List.mem_map]
    constructor
    · rintro ⟨one, member, rfl⟩
      obtain ⟨⟨moment, held⟩, listed, reduced⟩ := List.mem_filterMap.mp member
      obtain ⟨value, _, rfl⟩ := Option.map_eq_some_iff.mp reduced
      rw [fed, mem_entries_feed] at listed
      exact listed.1
    · intro filled
      obtain ⟨value, worth⟩ := Accumulator.aggregate_of_ne_nil reducer.kind filled
      have listed := (mem_entries_feed reducer samples timestamp _).mpr ⟨filled, rfl⟩
      rw [← fed] at listed
      refine ⟨⟨timestamp, value⟩, List.mem_filterMap.mpr ⟨_, listed, ?_⟩, rfl⟩
      exact Option.map_eq_some_iff.mpr ⟨value, worth, rfl⟩
  exact := by
    intro one member
    obtain ⟨⟨moment, held⟩, listed, reduced⟩ := List.mem_filterMap.mp member
    obtain ⟨value, worth, rfl⟩ := Option.map_eq_some_iff.mp reduced
    rw [fed, mem_entries_feed] at listed
    rw [Accumulator.aggregate, listed.2, worth]

end Group

theorem Reduces.multiplicities {reducer : Reducer} {samples reduced : List Sample}
    (reduces : Reduces reducer samples reduced) :
    total (fun one => (valuesAt one.timestamp samples).length) reduced = samples.length := by
  have summed : ∀ list : List Sample,
      total (fun one => (valuesAt one.timestamp samples).length) list =
        (list.map fun one => (valuesAt one.timestamp samples).length).sum := by
    intro list
    induction list with
    | nil => rfl
    | cons first later ih => rw [total, ih, List.map_cons, List.sum_cons]
  have distinct : (reduced.map (·.timestamp)).Nodup := by
    refine List.pairwise_map.mpr (reduces.increasing.imp ?_)
    exact fun before same => UInt64.lt_irrefl _ (same ▸ before)
  have moments : (reduced.map (·.timestamp)).Perm (samples.map (·.timestamp)).dedup := by
    refine (List.perm_ext_iff_of_nodup distinct (List.nodup_dedup _)).mpr fun timestamp => ?_
    rw [reduces.occurs, List.mem_dedup]
  have counted : ∀ timestamp, (valuesAt timestamp samples).length =
      (samples.map (·.timestamp)).count timestamp := by
    intro timestamp
    rw [valuesAt, List.length_map, List.count, List.countP_map, List.countP_eq_length_filter]
    rfl
  calc total (fun one => (valuesAt one.timestamp samples).length) reduced
      = ((reduced.map (·.timestamp)).map fun timestamp =>
          (samples.map (·.timestamp)).count timestamp).sum := by
        rw [summed, List.map_map]
        simp only [counted, Function.comp_def]
    _ = ((samples.map (·.timestamp)).dedup.map fun timestamp =>
          (samples.map (·.timestamp)).count timestamp).sum := (moments.map _).sum_eq
    _ = samples.length := by
        rw [List.sum_map_count_dedup_eq_length, List.length_map]

/-- Samples in the direction asked for, and no more of them than asked for. -/
def presented (limit : Option Nat) (reverse : Bool) (samples : List Sample) : List Sample :=
  match limit with
  | some count => (if reverse then samples.reverse else samples).take count
  | none => if reverse then samples.reverse else samples

def contributionsTo (value : String) (contributions : List Contribution) : List Contribution :=
  contributions.filter fun one => one.labelValue = value

/-- That a result is the one of the contributions with one label value. -/
structure GroupOf (contributions : List Contribution) (grouping : Grouping) (limit : Option Nat)
    (reverse : Bool) (value : String) (result : SeriesResult) : Prop where
  key : result.key = grouping.label ++ "=" ++ value
  labels : result.labels = .ofList [(grouping.label, value),
    (reducerLabel, grouping.reducer.name),
    (sourceLabel, String.intercalate "," ((contributionsTo value contributions).map (·.key)))]
  samples : ∃ reduced, Reduces grouping.reducer
    ((contributionsTo value contributions).flatMap (·.samples)) reduced ∧
      result.samples = presented limit reverse reduced

section Groups

variable (contributions : List Contribution) (grouping : Grouping) (limit : Option Nat)
  (reverse : Bool)

theorem take_all (reducer : Reducer) (start : Group) :
    (contributions.foldl (Group.take reducer) start).sources =
        start.sources ++ contributions.map (·.key) ∧
      (contributions.foldl (Group.take reducer) start).buckets =
        (contributions.flatMap (·.samples)).foldl (Group.feed reducer) start.buckets := by
  induction contributions generalizing start with
  | nil => exact ⟨(List.append_nil _).symm, rfl⟩
  | cons first later ih =>
      obtain ⟨sources, buckets⟩ := ih (start.take reducer first)
      rw [List.foldl_cons, sources, buckets, List.flatMap_cons, List.foldl_append]
      exact ⟨List.append_assoc .., rfl⟩

theorem get?_collect_groups (reducer : Reducer) (value : String) :
    (collectGroups reducer contributions).get? value =
      if (contributionsTo value contributions).isEmpty then none
      else some ((contributionsTo value contributions).foldl (Group.take reducer) .empty) :=
  SortedMap.get?_collect Contribution.labelValue Group.empty (Group.take reducer)
    contributions value

theorem mem_keys_collect_groups (reducer : Reducer) (value : String) :
    value ∈ (collectGroups reducer contributions).keys ↔
      value ∈ contributions.map (·.labelValue) := by
  rw [SortedMap.mem_keys_iff, SortedMap.contains, get?_collect_groups]
  simp [contributionsTo, apply_ite]

/-- One result for each label value among the contributions, in the order of the values. -/
theorem group_results_exact : ∃ values, values.Pairwise (· < ·) ∧
    (∀ value, value ∈ values ↔ value ∈ contributions.map (·.labelValue)) ∧
    List.Forall₂ (GroupOf contributions grouping limit reverse) values
      (groupResults contributions grouping limit reverse) := by
  refine ⟨(collectGroups grouping.reducer contributions).keys, ?_, ?_, ?_⟩
  · exact (SortedMap.keys_increasing _).imp compareOfLessAndEq_eq_lt.mp
  · exact mem_keys_collect_groups contributions grouping.reducer
  · rw [SortedMap.keys, groupResults, List.forall₂_map_left_iff, List.forall₂_map_right_iff,
      List.forall₂_same]
    rintro ⟨value, group⟩ listed
    rw [SortedMap.mem_entries_iff, get?_collect_groups] at listed
    split at listed
    · contradiction
    · obtain ⟨sources, buckets⟩ := take_all (contributionsTo value contributions)
        grouping.reducer .empty
      rw [Option.some.inj listed] at sources buckets
      refine ⟨rfl, ?_, group.samples, Group.reduces_feed buckets, ?_⟩
      · exact congrArg (fun keys => SortedMap.ofList [(grouping.label, value),
          (reducerLabel, grouping.reducer.name), (sourceLabel, String.intercalate "," keys)])
          sources
      · cases limit <;> rfl

/-- Limit and direction only choose among the samples of each result. -/
theorem group_results_presented : groupResults contributions grouping limit reverse =
    (groupResults contributions grouping none false).map fun whole =>
      { whole with samples := presented limit reverse whole.samples } := by
  unfold groupResults
  rw [List.map_map]
  refine List.map_congr_left fun entry _ => ?_
  cases limit <;> rfl

end Groups

/-- The labels of a result say what it is made of, if its own label is not a reserved one. -/
theorem GroupOf.named {contributions : List Contribution} {grouping : Grouping}
    {limit : Option Nat} {reverse : Bool} {value : String} {result : SeriesResult}
    (group : GroupOf contributions grouping limit reverse value result)
    (notReducer : grouping.label ≠ reducerLabel) (notSource : grouping.label ≠ sourceLabel) :
    result.labels.get? grouping.label = some value ∧
      result.labels.get? reducerLabel = some grouping.reducer.name ∧
      result.labels.get? sourceLabel = some (String.intercalate ","
        ((contributionsTo value contributions).map (·.key))) := by
  have apart : reducerLabel ≠ sourceLabel := by decide
  rw [group.labels]
  simp only [SortedMap.ofList, List.foldl_cons, List.foldl_nil, SortedMap.get?_insert]
  refine ⟨?_, ?_, ?_⟩
  · rw [if_neg notSource, if_neg notReducer, if_pos trivial]
  · rw [if_neg apart, if_pos trivial]
  · rw [if_pos trivial]

end Chronicle

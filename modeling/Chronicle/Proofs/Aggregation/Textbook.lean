import Chronicle.Proofs.Aggregation.Bucket
import Chronicle.Proofs.Aggregation.Fold
import Mathlib.Algebra.BigOperators.Group.List.Lemmas
import Mathlib.Algebra.Order.BigOperators.Group.List
import Mathlib.Analysis.Real.Sqrt
import Mathlib.Data.List.Induction
import Mathlib.Data.Rat.BigOperators
import Mathlib.Data.Rat.Sqrt
import Mathlib.Tactic.FieldSimp
import Mathlib.Tactic.NormNum
import Mathlib.Tactic.Ring

/-!
Aggregates without rounding. Over an ordered field an accumulator comes to what the textbook
says of the values: least and greatest, total and mean, and the mean square of the deviations
from the mean, although the mean is not known before the last value. The recurrence of the
spreads is exact after every value, so no order of the values matters.
-/

namespace Chronicle

/-- That an arithmetic is that of an ordered field: nothing is rounded. -/
class ExactArithmetic (K : Type) [Field K] [LinearOrder K] [Arithmetic K] : Prop where
  ofNat_eq : ∀ count : Nat, (Arithmetic.ofNat count : K) = count
  add_eq : ∀ one other : K, Arithmetic.add one other = one + other
  sub_eq : ∀ one other : K, Arithmetic.sub one other = one - other
  mul_eq : ∀ one other : K, Arithmetic.mul one other = one * other
  div_eq : ∀ one other : K, Arithmetic.div one other = one / other
  less_iff : ∀ one other : K, Arithmetic.less one other = true ↔ one < other

instance : Arithmetic ℚ where
  ofNat := Nat.cast
  add := (· + ·)
  sub := (· - ·)
  mul := (· * ·)
  div := (· / ·)
  sqrt := Rat.sqrt
  less one other := one < other

noncomputable instance : Arithmetic ℝ where
  ofNat := Nat.cast
  add := (· + ·)
  sub := (· - ·)
  mul := (· * ·)
  div := (· / ·)
  sqrt := Real.sqrt
  less one other := one < other

instance : ExactArithmetic ℚ where
  ofNat_eq _ := rfl
  add_eq _ _ := rfl
  sub_eq _ _ := rfl
  mul_eq _ _ := rfl
  div_eq _ _ := rfl
  less_iff _ _ := decide_eq_true_iff

instance : ExactArithmetic ℝ where
  ofNat_eq _ := rfl
  add_eq _ _ := rfl
  sub_eq _ _ := rfl
  mul_eq _ _ := rfl
  div_eq _ _ := rfl
  less_iff _ _ := decide_eq_true_iff

section Spread

variable {K : Type} [Field K]

def mean (values : List K) : K := values.sum / values.length

def squaredDeviations (values : List K) : K :=
  (values.map fun value => (value - mean values) ^ 2).sum

def populationVariance (values : List K) : K := squaredDeviations values / values.length

def sampleVariance (values : List K) : K :=
  if values.length = 1 then 0 else squaredDeviations values / (values.length - 1)

theorem sum_squares_from (values : List K) (origin : K) :
    (values.map fun value => (value - origin) ^ 2).sum =
      (values.map fun value => value ^ 2).sum - 2 * origin * values.sum +
        values.length * origin ^ 2 := by
  induction values with
  | nil => simp
  | cons value later ih =>
      simp only [List.map_cons, List.sum_cons, List.length_cons, ih, Nat.cast_add, Nat.cast_one]
      ring

section Order

variable {left right : List K} (same : left.Perm right)

include same

theorem mean_perm : mean left = mean right := by
  rw [mean, mean, same.sum_eq, same.length_eq]

theorem squared_deviations_perm : squaredDeviations left = squaredDeviations right := by
  rw [squaredDeviations, squaredDeviations, mean_perm same]
  exact (same.map _).sum_eq

end Order

variable [CharZero K]

theorem length_mul_mean (values : List K) : values.length * mean values = values.sum := by
  cases values with
  | nil => simp
  | cons first later =>
      have counted : ((first :: later).length : K) ≠ 0 := by
        rw [List.length_cons]
        exact_mod_cast Nat.succ_ne_zero later.length
      rw [mean, mul_div_cancel₀ _ counted]

theorem squared_deviations_eq (values : List K) : squaredDeviations values =
    (values.map fun value => value ^ 2).sum - values.length * mean values ^ 2 := by
  rw [squaredDeviations, sum_squares_from, ← length_mul_mean values]
  ring

/-- The mean moves towards a new value by its share of the distance. -/
theorem mean_concat (values : List K) (value : K) :
    mean (values ++ [value]) =
      mean values + (value - mean values) / ((values.length + 1 : Nat) : K) := by
  have counted : ((values.length + 1 : Nat) : K) ≠ 0 := by
    exact_mod_cast Nat.succ_ne_zero values.length
  have total := length_mul_mean values
  rw [mean, List.sum_append, List.sum_singleton, List.length_append, List.length_singleton,
    ← total]
  field_simp
  push_cast
  ring

/-- The squared deviations grow by the product of the distances of a new value from the mean
before it and from the mean after it. -/
theorem squared_deviations_concat (values : List K) (value : K) :
    squaredDeviations (values ++ [value]) =
      squaredDeviations values +
        (value - mean values) * (value - mean (values ++ [value])) := by
  have counted : ((values.length + 1 : Nat) : K) ≠ 0 := by
    exact_mod_cast Nat.succ_ne_zero values.length
  rw [squared_deviations_eq, squared_deviations_eq, mean_concat, List.map_append, List.sum_append,
    List.length_append, List.length_singleton, List.map_singleton, List.sum_singleton]
  field_simp
  push_cast
  ring

end Spread

theorem spreads_nonneg {K : Type} [Field K] [LinearOrder K] [IsStrictOrderedRing K]
    (values : List K) : 0 ≤ populationVariance values ∧ 0 ≤ sampleVariance values := by
  have squares : 0 ≤ squaredDeviations values := by
    apply List.sum_nonneg
    intro square member
    obtain ⟨value, _, rfl⟩ := List.mem_map.mp member
    exact sq_nonneg _
  refine ⟨div_nonneg squares (Nat.cast_nonneg _), ?_⟩
  unfold sampleVariance
  split
  · exact le_refl 0
  · rename_i several
    cases values with
    | nil => simp [squaredDeviations]
    | cons first later =>
        rw [List.length_cons, Nat.cast_add, Nat.cast_one, add_sub_cancel_right]
        exact div_nonneg squares (Nat.cast_nonneg _)

section Exact

open Arithmetic ExactArithmetic

variable {K : Type} [Field K] [LinearOrder K] [Arithmetic K] [ExactArithmetic K]

namespace Arithmetic

theorem lower_eq (held offered : K) : lower held offered = min held offered := by
  unfold lower
  by_cases less : offered < held
  · rw [if_pos ((less_iff _ _).mpr less), min_eq_right less.le]
  · rw [if_neg (mt (less_iff _ _).mp less), min_eq_left (not_lt.mp less)]

theorem upper_eq (held offered : K) : upper held offered = max held offered := by
  unfold upper
  by_cases less : held < offered
  · rw [if_pos ((less_iff _ _).mpr less), max_eq_right less.le]
  · rw [if_neg (mt (less_iff _ _).mp less), max_eq_left (not_lt.mp less)]

end Arithmetic

namespace Accumulator

theorem aggregate_min_eq (values : List K) : aggregate .min values = values.min? := by
  have same : (lower : K → K → K) = Min.min := funext fun held => funext (lower_eq held)
  cases values with
  | nil => rfl
  | cons first later => rw [aggregate_min, same, List.min?_cons']

theorem aggregate_max_eq (values : List K) : aggregate .max values = values.max? := by
  have same : (upper : K → K → K) = Max.max := funext fun held => funext (upper_eq held)
  cases values with
  | nil => rfl
  | cons first later => rw [aggregate_max, same, List.max?_cons']

theorem total_onto_eq (total : K) (values : List K) :
    totalOnto total values = total + values.sum := by
  induction values generalizing total with
  | nil => exact (add_zero total).symm
  | cons value later ih =>
      have next : totalOnto total (value :: later) = totalOnto (add value total) later := rfl
      rw [next, ih, add_eq, List.sum_cons]
      ring

theorem aggregate_sum_eq {values : List K} (filled : values ≠ []) :
    aggregate .sum values = some values.sum := by
  rw [aggregate_sum filled, total_onto_eq, ofNat_eq, Nat.cast_zero, zero_add]

theorem aggregate_avg_eq {values : List K} (filled : values ≠ []) :
    aggregate .avg values = some (mean values) := by
  rw [aggregate_avg filled, total_onto_eq, div_eq, ofNat_eq, ofNat_eq, Nat.cast_zero, zero_add,
    mean]

variable [IsStrictOrderedRing K]

/-- After every value the recurrence holds the mean and the squared deviations from it, of all
values that came. -/
theorem foldl_spread (kind : AggregationKind) (values : List K) :
    values.foldl append (.variance kind 0 (ofNat 0) (ofNat 0)) =
      .variance kind (values.length : Int) (mean values) (squaredDeviations values) := by
  induction values using List.reverseRecOn with
  | nil => simp [mean, squaredDeviations, ofNat_eq]
  | append_singleton values value ih =>
      have counted : (values.length : Int) + 1 = ((values.length + 1 : Nat) : Int) := by omega
      rw [List.foldl_append, ih, List.foldl_cons, List.foldl_nil, append, counted,
        Counter.shown_ofNat, squared_deviations_concat, mean_concat, List.length_append,
        List.length_singleton]
      simp only [add_eq, sub_eq, mul_eq, div_eq, ofNat_eq]
      rw [add_comm (squaredDeviations values)]

theorem aggregate_population {values : List K} (filled : values ≠ []) :
    aggregate .varP values = some (populationVariance values) := by
  have some := List.length_pos_iff.mpr filled
  have counted : (values.length : Int) ≠ 0 := by omega
  rw [aggregate, new, foldl_spread, finalize, if_neg counted]
  simp only [spread, Counter.shown_ofNat, div_eq, ofNat_eq, populationVariance]

theorem aggregate_sample {values : List K} (filled : values ≠ []) :
    aggregate .varS values = some (sampleVariance values) := by
  have some := List.length_pos_iff.mpr filled
  have counted : (values.length : Int) ≠ 0 := by omega
  rw [aggregate, new, foldl_spread, finalize, if_neg counted]
  simp only [spread, Counter.shown_ofNat, div_eq, sub_eq, ofNat_eq, sampleVariance, Nat.cast_zero,
    Nat.cast_one]
  by_cases alone : values.length = 1
  · rw [if_pos (by omega), if_pos alone]
  · rw [if_neg (by omega), if_neg alone]

/-- No aggregate depends on the order of the values but the first and the last of them. -/
theorem aggregate_perm {left right : List K} (same : left.Perm right) {kind : AggregationKind}
    (unordered : kind ∉ [AggregationKind.first, .last]) :
    aggregate kind left = aggregate kind right := by
  have lowest : aggregate .min left = aggregate .min right := by
    rw [aggregate_min_eq, aggregate_min_eq]
    ext least
    simp only [List.min?_eq_some_iff, same.mem_iff]
  have highest : aggregate .max left = aggregate .max right := by
    rw [aggregate_max_eq, aggregate_max_eq]
    ext greatest
    simp only [List.max?_eq_some_iff, same.mem_iff]
  by_cases given : right = []
  · rw [given] at same ⊢
    rw [same.eq_nil]
  have filled : left ≠ [] := by
    rintro rfl
    exact given same.symm.eq_nil
  have spread := squared_deviations_perm same
  have population : aggregate .varP left = aggregate .varP right := by
    rw [aggregate_population filled, aggregate_population given, populationVariance, spread,
      same.length_eq, populationVariance]
  have sample : aggregate .varS left = aggregate .varS right := by
    rw [aggregate_sample filled, aggregate_sample given, sampleVariance, spread,
      same.length_eq, sampleVariance]
  cases kind with
  | min => exact lowest
  | max => exact highest
  | avg => rw [aggregate_avg_eq filled, aggregate_avg_eq given, mean_perm same]
  | sum => rw [aggregate_sum_eq filled, aggregate_sum_eq given, same.sum_eq]
  | count => rw [aggregate_count filled, aggregate_count given, same.length_eq]
  | range => rw [range_eq, range_eq, lowest, highest]
  | first => exact absurd List.mem_cons_self unordered
  | last => exact absurd (List.mem_cons_of_mem _ List.mem_cons_self) unordered
  | stdP => rw [(deviations_eq left).1, (deviations_eq right).1, population]
  | stdS => rw [(deviations_eq left).2, (deviations_eq right).2, sample]
  | varP => exact population
  | varS => exact sample

/-- That the aggregates of some values are those of the textbook. -/
structure Textbook (values : List K) (least greatest : K) : Prop where
  lowest : least ∈ values ∧ ∀ value ∈ values, least ≤ value
  highest : greatest ∈ values ∧ ∀ value ∈ values, value ≤ greatest
  min : aggregate .min values = some least
  max : aggregate .max values = some greatest
  range : aggregate .range values = some (greatest - least)
  sum : aggregate .sum values = some values.sum
  avg : aggregate .avg values = some (values.sum / values.length)
  count : aggregate .count values = some (values.length : K)
  varP : aggregate .varP values = some (populationVariance values)
  varS : aggregate .varS values = some (sampleVariance values)
  nonneg : 0 ≤ populationVariance values ∧ 0 ≤ sampleVariance values
  unordered : ∀ kind, kind ∉ [AggregationKind.first, .last] → ∀ other : List K,
    other.Perm values → aggregate kind other = aggregate kind values

theorem exists_textbook {values : List K} (filled : values ≠ []) :
    ∃ least greatest, Textbook values least greatest := by
  obtain ⟨least, lowest⟩ := aggregate_of_ne_nil .min filled
  obtain ⟨greatest, highest⟩ := aggregate_of_ne_nil .max filled
  have low := List.min?_eq_some_iff.mp ((aggregate_min_eq values).symm.trans lowest)
  have high := List.max?_eq_some_iff.mp ((aggregate_max_eq values).symm.trans highest)
  refine ⟨least, greatest, low, high, lowest, highest, ?_, aggregate_sum_eq filled,
    aggregate_avg_eq filled, ?_, aggregate_population filled, aggregate_sample filled,
    spreads_nonneg values, fun kind unordered other same => aggregate_perm same unordered⟩
  · rw [range_eq, lowest, highest, Option.bind_some, Option.map_some, sub_eq]
  · rw [aggregate_count filled, ofNat_eq]

end Accumulator

end Exact

theorem mean_cast (values : List ℚ) :
    mean (values.map (Rat.cast : ℚ → ℝ)) = (mean values : ℚ) := by
  rw [mean, mean, List.length_map, Rat.cast_div, Rat.cast_list_sum, Rat.cast_natCast]

theorem squared_deviations_cast (values : List ℚ) :
    squaredDeviations (values.map (Rat.cast : ℚ → ℝ)) = (squaredDeviations values : ℚ) := by
  rw [squaredDeviations, squaredDeviations, mean_cast, Rat.cast_list_sum, List.map_map,
    List.map_map]
  congr 1
  apply List.map_congr_left
  intro value _
  simp

theorem spreads_cast (values : List ℚ) :
    populationVariance (values.map (Rat.cast : ℚ → ℝ)) = (populationVariance values : ℚ) ∧
      sampleVariance (values.map (Rat.cast : ℚ → ℝ)) = (sampleVariance values : ℚ) := by
  constructor
  · rw [populationVariance, populationVariance, squared_deviations_cast, List.length_map]
    push_cast
    rfl
  · rw [sampleVariance, sampleVariance, squared_deviations_cast, List.length_map]
    split <;> push_cast <;> rfl

namespace Accumulator

/-- That an aggregate of some numbers, in whatever order they come, is the root of a number. -/
def Root (kind : AggregationKind) (values : List ℚ) (square : ℚ) : Prop :=
  ∃ root : ℝ, 0 ≤ root ∧ root ^ 2 = square ∧ ∀ other : List ℚ, other.Perm values →
    aggregate kind (other.map (Rat.cast : ℚ → ℝ)) = some root

theorem root_of_spread {kind : AggregationKind} {values : List ℚ} {square : ℚ}
    (positive : 0 ≤ square) (unordered : kind ∉ [AggregationKind.first, .last])
    (rooted : aggregate kind (values.map (Rat.cast : ℚ → ℝ)) = some (Real.sqrt square)) :
    Root kind values square := by
  refine ⟨Real.sqrt square, Real.sqrt_nonneg _, Real.sq_sqrt (Rat.cast_nonneg.mpr positive), ?_⟩
  intro other same
  rw [aggregate_perm (same.map _) unordered, rooted]

/-- Of all rational numbers, at least one, each aggregate is what the textbook says. Deviations
are roots, which are real numbers. -/
theorem textbook_aggregates (values : List ℚ) (filled : values ≠ []) :
    (∃ least greatest, Textbook values least greatest) ∧
      Root .stdP values (populationVariance values) ∧
      Root .stdS values (sampleVariance values) := by
  have real : values.map (Rat.cast : ℚ → ℝ) ≠ [] := mt List.map_eq_nil_iff.mp filled
  obtain ⟨population, sample⟩ := spreads_cast values
  obtain ⟨first, second⟩ := spreads_nonneg values
  refine ⟨exists_textbook filled, root_of_spread first (by decide) ?_,
    root_of_spread second (by decide) ?_⟩
  · rw [(deviations_eq _).1, aggregate_population real, population]
    rfl
  · rw [(deviations_eq _).2, aggregate_sample real, sample]
    rfl

theorem textbook_aggregates_eight :
    ([2, 4, 4, 4, 5, 5, 7, 9] : List ℚ) ≠ [] ∧
      (∃ least greatest, Textbook ([2, 4, 4, 4, 5, 5, 7, 9] : List ℚ) least greatest) ∧
      Root .stdP [2, 4, 4, 4, 5, 5, 7, 9] 4 ∧ Root .stdS [2, 4, 4, 4, 5, 5, 7, 9] (32 / 7) := by
  have given : ([2, 4, 4, 4, 5, 5, 7, 9] : List ℚ) ≠ [] := List.cons_ne_nil _ _
  obtain ⟨book, population, sample⟩ := textbook_aggregates _ given
  have spread : squaredDeviations ([2, 4, 4, 4, 5, 5, 7, 9] : List ℚ) = 32 := by
    norm_num [squaredDeviations, mean]
  rw [populationVariance, spread] at population
  rw [sampleVariance, spread] at sample
  norm_num at population sample
  exact ⟨given, book, population, sample⟩

end Accumulator

end Chronicle

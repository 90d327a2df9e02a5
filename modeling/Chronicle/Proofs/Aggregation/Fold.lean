import Chronicle.Aggregation.Accumulator

/-!
What an accumulator comes to hold. Each kind of accumulator folds the values that it takes in
in a way of its own, and counts them if it has to know how many there were; the four kinds of
spread hold the same.
-/

namespace Chronicle

namespace Accumulator

open Arithmetic

variable {α : Type} [Arithmetic α]

theorem foldl_min (values : List α) (held : α) :
    values.foldl append (.min (some held)) = .min (some (values.foldl lower held)) := by
  induction values generalizing held with
  | nil => rfl
  | cons value later ih => exact ih (lower held value)

theorem foldl_max (values : List α) (held : α) :
    values.foldl append (.max (some held)) = .max (some (values.foldl upper held)) := by
  induction values generalizing held with
  | nil => rfl
  | cons value later ih => exact ih (upper held value)

theorem foldl_range (values : List α) (low high : α) :
    values.foldl append (.range (some (low, high))) =
      .range (some (values.foldl lower low, values.foldl upper high)) := by
  induction values generalizing low high with
  | nil => rfl
  | cons value later ih => exact ih (lower low value) (upper high value)

theorem aggregate_min (first : α) (later : List α) :
    aggregate .min (first :: later) = some (later.foldl lower first) :=
  congrArg finalize (foldl_min later first)

theorem aggregate_max (first : α) (later : List α) :
    aggregate .max (first :: later) = some (later.foldl upper first) :=
  congrArg finalize (foldl_max later first)

theorem aggregate_range (first : α) (later : List α) :
    aggregate .range (first :: later) =
      some (sub (later.foldl upper first) (later.foldl lower first)) :=
  congrArg finalize (foldl_range later first first)

theorem foldl_first (values : List α) (held : Option α) :
    values.foldl append (.first held) = .first (held <|> values.head?) := by
  induction values generalizing held with
  | nil => cases held <;> rfl
  | cons value later ih => cases held <;> exact ih _

theorem foldl_last (values : List α) (held : Option α) :
    values.foldl append (.last held) = .last (values.getLast? <|> held) := by
  induction values generalizing held with
  | nil => rfl
  | cons value later ih =>
      rw [List.foldl_cons, append, ih, List.getLast?_cons]
      cases later.getLast? <;> rfl

omit [Arithmetic α] in
theorem count_cons (taken : Int) (value : α) (later : List α) :
    taken + 1 + (later.length : Int) = taken + ((value :: later).length : Int) := by
  rw [List.length_cons]
  omega

theorem foldl_count (values : List α) (taken : Int) :
    values.foldl append (.count taken) = .count (taken + values.length) := by
  induction values generalizing taken with
  | nil => exact congrArg Accumulator.count (Int.add_zero taken).symm
  | cons value later ih => rw [List.foldl_cons, append, ih, count_cons taken value later]

def totalOnto (total : α) (values : List α) : α :=
  values.foldl (fun total value => add value total) total

/-- Whatever adds each value to a total and counts it comes to the total and the count of all. -/
theorem foldl_total {form : α → Int → Accumulator α}
    (adds : ∀ total taken value, (form total taken).append value =
      form (add value total) (taken + 1)) (values : List α) (total : α) (taken : Int) :
    values.foldl append (form total taken) =
      form (totalOnto total values) (taken + values.length) := by
  induction values generalizing total taken with
  | nil => exact congrArg (form total) (Int.add_zero taken).symm
  | cons value later ih =>
      rw [List.foldl_cons, adds, ih, count_cons taken value later]
      rfl

theorem foldl_sum (values : List α) (total : α) (taken : Int) :
    values.foldl append (.sum total taken) =
      .sum (totalOnto total values) (taken + values.length) :=
  foldl_total (fun _ _ _ => rfl) values total taken

theorem foldl_avg (values : List α) (total : α) (taken : Int) :
    values.foldl append (.avg total taken) =
      .avg (totalOnto total values) (taken + values.length) :=
  foldl_total (fun _ _ _ => rfl) values total taken

omit [Arithmetic α] in
/-- Where something was taken in, the count that was kept from the beginning is not zero and
shows how much it was. -/
theorem count_of_filled {values : List α} (filled : values ≠ []) :
    (0 : Int) + values.length ≠ 0 ∧ Counter.shown (0 + values.length) = values.length := by
  have some := List.length_pos_iff.mpr filled
  rw [Int.zero_add]
  exact ⟨by omega, Counter.shown_ofNat _⟩

theorem aggregate_count {values : List α} (filled : values ≠ []) :
    aggregate .count values = some (ofNat values.length) := by
  obtain ⟨counted, shown⟩ := count_of_filled filled
  rw [aggregate, new, foldl_count, finalize, if_neg counted, shown]

theorem aggregate_sum {values : List α} (filled : values ≠ []) :
    aggregate .sum values = some (totalOnto (ofNat 0) values) := by
  rw [aggregate, new, foldl_sum, finalize, if_neg (count_of_filled filled).1]

theorem aggregate_avg {values : List α} (filled : values ≠ []) :
    aggregate .avg values = some (div (totalOnto (ofNat 0) values) (ofNat values.length)) := by
  obtain ⟨counted, shown⟩ := count_of_filled filled
  rw [aggregate, new, foldl_avg, finalize, if_neg counted, shown]

/-- What is kept for a spread does not depend on which one is asked for. -/
theorem foldl_variance (values : List α) (taken : Int) (mean squares : α) :
    ∃ moved summed, ∀ kind, values.foldl append (.variance kind taken mean squares) =
      .variance kind (taken + values.length) moved summed := by
  induction values generalizing taken mean squares with
  | nil =>
      refine ⟨mean, squares, fun kind => ?_⟩
      exact congrArg (fun count => variance kind count mean squares) (Int.add_zero taken).symm
  | cons value later ih =>
      simp only [List.foldl_cons, append, ← count_cons taken value later]
      exact ih _ _ _

theorem finalize_deviation (taken : Int) (mean squares : α) :
    (variance .stdP taken mean squares).finalize =
        (variance .varP taken mean squares).finalize.map sqrt ∧
      (variance .stdS taken mean squares).finalize =
        (variance .varS taken mean squares).finalize.map sqrt := by
  unfold finalize
  by_cases none : taken = 0
  · simp only [if_pos none, Option.map_none, and_self]
  · simp only [if_neg none, Option.map_some]
    exact ⟨rfl, rfl⟩

theorem avg_eq (values : List α) : aggregate .avg values =
    (aggregate .sum values).bind fun total => (aggregate .count values).map (div total) := by
  by_cases given : values = []
  · rw [given]
    rfl
  · rw [aggregate_avg given, aggregate_sum given, aggregate_count given]
    rfl

theorem range_eq (values : List α) : aggregate .range values =
    (aggregate .max values).bind fun high => (aggregate .min values).map (sub high) := by
  cases values with
  | nil => rfl
  | cons first later =>
      rw [aggregate_range, aggregate_max, aggregate_min]
      rfl

theorem deviations_eq (values : List α) :
    aggregate .stdP values = (aggregate .varP values).map sqrt ∧
      aggregate .stdS values = (aggregate .varS values).map sqrt := by
  obtain ⟨mean, squares, kept⟩ := foldl_variance values 0 (ofNat 0 : α) (ofNat 0)
  simp only [aggregate, new, kept]
  exact finalize_deviation _ mean squares

end Accumulator

end Chronicle

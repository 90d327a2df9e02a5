import Chronicle.Proofs.Aggregation.Bucket
import Chronicle.Proofs.Aggregation.Fold
import Mathlib.Data.List.Induction

/-!
What an accumulator knows of its past. After any values and resets it is the accumulator that
took in the values since the last reset and nothing else. What the kinds make of the same
values hangs together: averages are quotients, ranges differences and deviations roots of what
the other kinds yield, in whatever arithmetic they are computed.
-/

namespace Chronicle

inductive Intake (α : Type) where
  | append (value : α)
  | reset
deriving DecidableEq

namespace Intake

variable {α : Type}

def backToReset : List (Intake α) → List α
  | .append value :: earlier => value :: backToReset earlier
  | _ => []

/-- The values that came after the last reset, in their order. -/
def sinceReset (intakes : List (Intake α)) : List α := (backToReset intakes.reverse).reverse

theorem since_reset_append (intakes : List (Intake α)) (value : α) :
    sinceReset (intakes ++ [.append value]) = sinceReset intakes ++ [value] := by
  rw [sinceReset, List.reverse_concat, backToReset, List.reverse_cons, sinceReset]

theorem since_reset_reset (intakes : List (Intake α)) : sinceReset (intakes ++ [.reset]) = [] := by
  rw [sinceReset, List.reverse_concat]
  rfl

end Intake

namespace Accumulator

open Arithmetic Intake

variable {α : Type} [Arithmetic α]

def accept (accumulator : Accumulator α) : Intake α → Accumulator α
  | .append value => accumulator.append value
  | .reset => accumulator.reset

def after (accumulator : Accumulator α) (intakes : List (Intake α)) : Accumulator α :=
  intakes.foldl accept accumulator

/-- A reset leaves nothing of what was taken in before it. -/
theorem after_eq (kind : AggregationKind) (intakes : List (Intake α)) :
    (new kind).after intakes = (sinceReset intakes).foldl append (new kind) := by
  induction intakes using List.reverseRecOn with
  | nil => rfl
  | append_singleton earlier intake ih =>
      rw [after] at ih
      rw [after, List.foldl_append, ih, List.foldl_cons, List.foldl_nil]
      cases intake with
      | append value =>
          rw [since_reset_append, List.foldl_append]
          rfl
      | reset =>
          rw [since_reset_reset, accept, reset, kind_foldl]
          rfl

theorem aggregate_eq_none_iff (kind : AggregationKind) (values : List α) :
    aggregate kind values = none ↔ values = [] := by
  constructor
  · intro nothing
    refine Classical.byContradiction fun given => ?_
    obtain ⟨value, something⟩ := aggregate_of_ne_nil kind given
    exact nomatch nothing.symm.trans something
  · rintro rfl
    exact finalize_new kind

/-- That the aggregates of some values of the different kinds belong together, to the bit. -/
structure Coheres (values : List α) : Prop where
  avg : aggregate .avg values =
    (aggregate .sum values).bind fun total => (aggregate .count values).map (div total)
  range : aggregate .range values =
    (aggregate .max values).bind fun high => (aggregate .min values).map (sub high)
  stdP : aggregate .stdP values = (aggregate .varP values).map sqrt
  stdS : aggregate .stdS values = (aggregate .varS values).map sqrt
  first : aggregate .first values = values.head?
  last : aggregate .last values = values.getLast?

theorem coheres (values : List α) : Coheres values where
  avg := avg_eq values
  range := range_eq values
  stdP := (deviations_eq values).1
  stdS := (deviations_eq values).2
  first := congrArg finalize (foldl_first values none)
  last := by
    rw [aggregate, new, foldl_last, finalize]
    cases values.getLast? <;> rfl

/-- Whatever came and however often it was reset, an accumulator is still of its kind, has an
aggregate unless nothing came since the last reset, and yields what a new one yields for what
came since; and what the kinds yield for the same values belongs together. -/
theorem folds_since_reset (kind : AggregationKind) (intakes : List (Intake α)) :
    ((new kind).after intakes).kind = kind ∧
      (((new kind).after intakes).finalize = none ↔ sinceReset intakes = []) ∧
      ((new kind).after intakes).finalize = aggregate kind (sinceReset intakes) ∧
      ∀ values : List α, Coheres values := by
  have same := after_eq kind intakes
  refine ⟨?_, ?_, ?_, coheres⟩
  · rw [same, kind_foldl]
  · rw [same]
    exact aggregate_eq_none_iff kind (sinceReset intakes)
  · rw [same]
    rfl

end Accumulator

end Chronicle

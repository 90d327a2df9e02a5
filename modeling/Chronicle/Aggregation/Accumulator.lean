import Chronicle.Error
import Chronicle.Number.Counter

/-!
The kinds of aggregate that values can be reduced to, and the running state of one aggregate:
what has to be kept of the values seen so far. Each value changes it once, and the aggregate
can be asked for at any time. Variances follow the single-pass recurrence on the mean and on
the sum of squared deviations from it. A reducer is one of the kinds by which the samples of
several series at one timestamp become one.
-/

namespace Chronicle

inductive AggregationKind where
  | min
  | max
  | avg
  | sum
  | count
  | range
  | first
  | last
  | stdP
  | stdS
  | varP
  | varS
deriving DecidableEq, Inhabited

namespace AggregationKind

def all : List AggregationKind :=
  [min, max, avg, sum, count, range, first, last, stdP, stdS, varP, varS]

def name : AggregationKind → String
  | min => "min"
  | max => "max"
  | avg => "avg"
  | sum => "sum"
  | count => "count"
  | range => "range"
  | first => "first"
  | last => "last"
  | stdP => "std.p"
  | stdS => "std.s"
  | varP => "var.p"
  | varS => "var.s"

def parse (text : String) : Except ArgumentFault AggregationKind :=
  match all.find? (fun kind => kind.name = text.map Char.toLower) with
  | some kind => .ok kind
  | none => .error (.unknownAggregation text)

/-- The kind to use when samples arrive newest first. -/
def reversed : AggregationKind → AggregationKind
  | first => last
  | last => first
  | other => other

end AggregationKind

inductive Accumulator (α : Type) where
  | min (held : Option α)
  | max (held : Option α)
  | sum (total : α) (count : Counter)
  | avg (total : α) (count : Counter)
  | count (count : Counter)
  | range (ends : Option (α × α))
  | first (held : Option α)
  | last (held : Option α)
  /-- The count, the mean and the sum of squared deviations from the mean. -/
  | variance (kind : AggregationKind) (count : Counter) (mean squares : α)
deriving DecidableEq

namespace Accumulator

variable {α : Type} [Arithmetic α]

open Arithmetic

def new : AggregationKind → Accumulator α
  | .min => .min none
  | .max => .max none
  | .avg => .avg (ofNat 0) 0
  | .sum => .sum (ofNat 0) 0
  | .count => .count 0
  | .range => .range none
  | .first => .first none
  | .last => .last none
  | .stdP => .variance .stdP 0 (ofNat 0) (ofNat 0)
  | .stdS => .variance .stdS 0 (ofNat 0) (ofNat 0)
  | .varP => .variance .varP 0 (ofNat 0) (ofNat 0)
  | .varS => .variance .varS 0 (ofNat 0) (ofNat 0)

omit [Arithmetic α] in
def kind : Accumulator α → AggregationKind
  | .min _ => .min
  | .max _ => .max
  | .sum _ _ => .sum
  | .avg _ _ => .avg
  | .count _ => .count
  | .range _ => .range
  | .first _ => .first
  | .last _ => .last
  | .variance kind _ _ _ => kind

/-- Takes a value in. A total is added to the new value, so that of two that are not
numbers the newer one stays. -/
def append (accumulator : Accumulator α) (value : α) : Accumulator α :=
  match accumulator with
  | .min none => .min (some value)
  | .min (some held) => .min (some (lower held value))
  | .max none => .max (some value)
  | .max (some held) => .max (some (upper held value))
  | .sum total taken => .sum (add value total) (taken + 1)
  | .avg total taken => .avg (add value total) (taken + 1)
  | .count taken => .count (taken + 1)
  | .range none => .range (some (value, value))
  | .range (some (low, high)) => .range (some (lower low value, upper high value))
  | .first none => .first (some value)
  | .first (some held) => .first (some held)
  | .last _ => .last (some value)
  | .variance kind taken mean squares =>
      let deviation := sub value mean
      let moved := add mean (div deviation (ofNat (Counter.shown (taken + 1))))
      .variance kind (taken + 1) moved
        (add (mul deviation (sub value moved)) squares)

/-- The variance of a population or of a sample, by kind. A sample of one has none. -/
def spread (kind : AggregationKind) (taken : Counter) (squares : α) : α :=
  match kind with
  | .varS | .stdS =>
      if taken.shown < 2 then ofNat 0
      else div squares (sub (ofNat taken.shown) (ofNat 1))
  | _ => div squares (ofNat taken.shown)

def finalize : Accumulator α → Option α
  | .min held => held
  | .max held => held
  | .sum total taken => if taken = 0 then none else some total
  | .avg total taken => if taken = 0 then none else some (div total (ofNat taken.shown))
  | .count taken => if taken = 0 then none else some (ofNat taken.shown)
  | .range ends => ends.map (fun (low, high) => sub high low)
  | .first held => held
  | .last held => held
  | .variance kind taken _ squares =>
      if taken = 0 then none
      else
        let variance := spread kind taken squares
        match kind with
        | .stdP | .stdS => some (sqrt variance)
        | _ => some variance

def reset (accumulator : Accumulator α) : Accumulator α := new accumulator.kind

def aggregate (kind : AggregationKind) (values : List α) : Option α :=
  (values.foldl append (new kind)).finalize

theorem kind_new (kind : AggregationKind) : (new kind : Accumulator α).kind = kind := by
  cases kind <;> rfl

theorem kind_append (accumulator : Accumulator α) (value : α) :
    (accumulator.append value).kind = accumulator.kind := by
  cases accumulator with
  | min held => cases held <;> rfl
  | max held => cases held <;> rfl
  | range ends => cases ends <;> rfl
  | first held => cases held <;> rfl
  | _ => rfl

theorem finalize_new (kind : AggregationKind) :
    (new kind : Accumulator α).finalize = none := by
  cases kind <;> rfl

end Accumulator

inductive Reducer where
  | sum
  | min
  | max
  | avg
  | count
deriving DecidableEq, Inhabited

namespace Reducer

def all : List Reducer := [sum, min, max, avg, count]

def kind : Reducer → AggregationKind
  | sum => .sum
  | min => .min
  | max => .max
  | avg => .avg
  | count => .count

def name (reducer : Reducer) : String := reducer.kind.name

def parse (text : String) : Except ArgumentFault Reducer :=
  let lowered := text.map Char.toLower
  match all.find? (fun reducer => reducer.name = lowered) with
  | some reducer => .ok reducer
  | none => .error (.unknownReducer lowered)

end Reducer

end Chronicle

import Chronicle.Aggregation.Bucket
import Chronicle.Proofs.Timeline

/-!
Buckets of time and what is aggregated in them. A moment lies in one bucket, later moments
lie in the same one or in later ones, and a bucket that took in a value has an aggregate.
-/

namespace Chronicle

open Timeline

/-- That a moment lies in the bucket with the given start, which is a multiple of the width. -/
def InBucket (width : Duration) (start timestamp : Timestamp) : Prop :=
  width.toNat ∣ start.toNat ∧ start.toNat ≤ timestamp.toNat ∧
    timestamp.toNat < start.toNat + width.toNat

instance (width : Duration) (start timestamp : Timestamp) :
    Decidable (InBucket width start timestamp) := inferInstanceAs (Decidable (_ ∧ _ ∧ _))

def valuesIn (width : Duration) (start : Timestamp) (samples : List Sample) : List Value :=
  (samples.filter (fun one => InBucket width start one.timestamp)).map (·.value)

structure ClosedBucket (width : Duration) (samples : List Sample) (start : Timestamp) : Prop where
  filled : ∃ one ∈ samples, InBucket width start one.timestamp
  passed : ∃ one ∈ samples, start.toNat + width.toNat ≤ one.timestamp.toNat

theorem bucket_start_to_nat (timestamp : Timestamp) (width : Duration) :
    (bucketStart timestamp width).toNat =
      timestamp.toNat - timestamp.toNat % width.toNat := by
  have below : timestamp % width ≤ timestamp := by
    rw [UInt64.le_iff_toNat_le, UInt64.toNat_mod]
    exact Nat.mod_le _ _
  rw [bucketStart, UInt64.toNat_sub_of_le _ _ below, UInt64.toNat_mod]

theorem bucket_start_mono (width : Duration) {earlier later : Timestamp} (order : earlier ≤ later) :
    bucketStart earlier width ≤ bucketStart later width := by
  rw [UInt64.le_iff_toNat_le] at order ⊢
  have first := Nat.div_add_mod earlier.toNat width.toNat
  have second := Nat.div_add_mod later.toNat width.toNat
  have less := Nat.mul_le_mul_left width.toNat (Nat.div_le_div_right (c := width.toNat) order)
  rw [bucket_start_to_nat, bucket_start_to_nat]
  omega

section Width

variable {width : Duration} (wide : width ≠ 0)

include wide

theorem width_pos : 0 < width.toNat := by
  rw [Nat.pos_iff_ne_zero]
  intro none
  exact wide (UInt64.toNat_inj.mp none)

theorem in_bucket_iff (start timestamp : Timestamp) :
    InBucket width start timestamp ↔ bucketStart timestamp width = start := by
  have positive := width_pos wide
  have parts := Nat.div_add_mod timestamp.toNat width.toNat
  have rest := Nat.mod_lt timestamp.toNat positive
  rw [← UInt64.toNat_inj, bucket_start_to_nat]
  constructor
  · rintro ⟨⟨count, multiple⟩, reached, within⟩
    have inside : timestamp.toNat % width.toNat = timestamp.toNat - width.toNat * count := by
      rw [show timestamp.toNat = timestamp.toNat - width.toNat * count + width.toNat * count
        by omega, Nat.add_mul_mod_self_left, Nat.mod_eq_of_lt (by omega)]
      omega
    omega
  · intro same
    refine ⟨?_, by omega, by omega⟩
    rw [← same]
    exact Nat.dvd_sub_mod timestamp.toNat

theorem passed_iff {start : Timestamp} (multiple : width.toNat ∣ start.toNat)
    (timestamp : Timestamp) :
    start.toNat + width.toNat ≤ timestamp.toNat ↔ start < bucketStart timestamp width := by
  obtain ⟨count, multiple⟩ := multiple
  have positive := width_pos wide
  have parts := Nat.div_add_mod timestamp.toNat width.toNat
  have rest := Nat.mod_lt timestamp.toNat positive
  rw [UInt64.lt_iff_toNat_lt, bucket_start_to_nat, multiple]
  have whole : timestamp.toNat - timestamp.toNat % width.toNat =
      width.toNat * (timestamp.toNat / width.toNat) := by omega
  rw [whole]
  constructor
  · intro passed
    refine Nat.mul_lt_mul_of_pos_left ?_ positive
    rw [Nat.lt_iff_add_one_le, Nat.le_div_iff_mul_le positive, Nat.mul_comm, Nat.mul_add]
    omega
  · intro less
    have next := Nat.mul_le_mul_left width.toNat
      (Nat.lt_of_mul_lt_mul_left less)
    rw [Nat.mul_succ] at next
    omega

theorem closed_bucket_iff (samples : List Sample) (start : Timestamp) :
    ClosedBucket width samples start ↔
      (∃ one ∈ samples, bucketStart one.timestamp width = start) ∧
        ∃ one ∈ samples, start < bucketStart one.timestamp width := by
  constructor
  · rintro ⟨⟨one, member, inside⟩, ⟨other, among, passed⟩⟩
    refine ⟨⟨one, member, (in_bucket_iff wide _ _).mp inside⟩, other, among, ?_⟩
    exact (passed_iff wide inside.1 other.timestamp).mp passed
  · rintro ⟨⟨one, member, same⟩, ⟨other, among, later⟩⟩
    have inside := (in_bucket_iff wide start one.timestamp).mpr same
    exact ⟨⟨one, member, inside⟩, ⟨other, among, (passed_iff wide inside.1 _).mpr later⟩⟩

section Values

variable (start : Timestamp) (samples : List Sample)

theorem values_in_append_here {sample : Sample}
    (here : bucketStart sample.timestamp width = start) :
    valuesIn width start (samples ++ [sample]) =
      valuesIn width start samples ++ [sample.value] := by
  have inside := (in_bucket_iff wide start sample.timestamp).mpr here
  simp [valuesIn, inside]

theorem values_in_append_elsewhere {sample : Sample}
    (elsewhere : bucketStart sample.timestamp width ≠ start) :
    valuesIn width start (samples ++ [sample]) = valuesIn width start samples := by
  have outside := mt (in_bucket_iff wide start sample.timestamp).mp elsewhere
  simp [valuesIn, outside]

variable {start samples} in
theorem values_in_ne_nil {one : Sample} (member : one ∈ samples)
    (here : bucketStart one.timestamp width = start) : valuesIn width start samples ≠ [] := by
  have inside := (in_bucket_iff wide start one.timestamp).mpr here
  have listed : one.value ∈ valuesIn width start samples :=
    List.mem_map_of_mem (List.mem_filter.mpr ⟨member, decide_eq_true inside⟩)
  exact List.ne_nil_of_mem listed

variable {start samples} in
theorem values_in_eq_nil
    (elsewhere : ∀ one ∈ samples, bucketStart one.timestamp width ≠ start) :
    valuesIn width start samples = [] := by
  rw [valuesIn, List.map_eq_nil_iff, List.filter_eq_nil_iff]
  intro one member inside
  exact elsewhere one member ((in_bucket_iff wide _ _).mp (of_decide_eq_true inside))

end Values

end Width

namespace Accumulator

variable {α : Type} [Arithmetic α]

omit [Arithmetic α] in
def Begun : Accumulator α → Prop
  | .min held | .max held | .first held | .last held => held.isSome = true
  | .range ends => ends.isSome = true
  | .sum _ taken | .avg _ taken | .count taken | .variance _ taken _ _ => 0 < taken

theorem begun_new (kind : AggregationKind) (value : α) : Begun ((new kind).append value) := by
  cases kind <;> simp [new, append, Begun]

theorem begun_append {accumulator : Accumulator α} (begun : accumulator.Begun) (value : α) :
    (accumulator.append value).Begun := by
  cases accumulator with
  | min held => cases held <;> simp [append, Begun]
  | max held => cases held <;> simp [append, Begun]
  | range ends => cases ends <;> simp [append, Begun]
  | first held => cases held <;> simp [append, Begun]
  | last held => rfl
  | sum | avg | count | variance => exact Int.lt_add_one_of_le (Int.le_of_lt begun)

theorem begun_foldl {accumulator : Accumulator α} (begun : accumulator.Begun)
    (values : List α) : (values.foldl append accumulator).Begun := by
  induction values generalizing accumulator with
  | nil => exact begun
  | cons value later ih => exact ih (begun_append begun value)

theorem finalize_begun {accumulator : Accumulator α} (begun : accumulator.Begun) :
    ∃ value, accumulator.finalize = some value := by
  cases accumulator with
  | min | max | first | last => exact Option.isSome_iff_exists.mp begun
  | range ends =>
      obtain ⟨pair, rfl⟩ := Option.isSome_iff_exists.mp begun
      exact ⟨_, rfl⟩
  | sum total taken => exact ⟨_, if_neg (Int.ne_of_gt begun)⟩
  | avg total taken => exact ⟨_, if_neg (Int.ne_of_gt begun)⟩
  | count taken => exact ⟨_, if_neg (Int.ne_of_gt begun)⟩
  | variance kind taken mean squares =>
      rw [finalize, if_neg (Int.ne_of_gt begun)]
      cases kind <;> exact ⟨_, rfl⟩

theorem aggregate_of_ne_nil (kind : AggregationKind) {values : List α} (given : values ≠ []) :
    ∃ value, aggregate kind values = some value := by
  obtain ⟨first, later, rfl⟩ := List.exists_cons_of_ne_nil given
  exact finalize_begun (begun_foldl (begun_new kind first) later)

theorem kind_foldl (kind : AggregationKind) (values : List α) :
    (values.foldl append (new kind)).kind = kind := by
  have kept : ∀ start : Accumulator α, (values.foldl append start).kind = start.kind := by
    induction values with
    | nil => exact fun _ => rfl
    | cons value later ih => exact fun start => (ih _).trans (kind_append start value)
  rw [kept, kind_new]

end Accumulator

/-- That some samples are the aggregates of others by buckets: one, stamped with its start,
for each bucket that has samples behind it, in the order of the buckets. -/
structure Compacts (kind : AggregationKind) (width : Duration)
    (samples aggregates : List Sample) : Prop where
  increasing : Increasing aggregates
  complete : ∀ start, ClosedBucket width samples start → ∃ value, ⟨start, value⟩ ∈ aggregates
  exact : ∀ one ∈ aggregates, ClosedBucket width samples one.timestamp ∧
    Accumulator.aggregate kind (valuesIn width one.timestamp samples) = some one.value

end Chronicle

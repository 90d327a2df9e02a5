import Chronicle.Proofs.Aggregation.Fold
import Chronicle.Proofs.Number.Difference

/-!
Extremes in both directions. The least and the greatest of some values are looked for from
the value that comes first: a number there gives way only to numbers, and what is no number
stays. So the direction shows exactly where one end is a number and the other is not, and in
the distance of the extremes not even there if all numbers are one infinity.
-/

namespace Chronicle

open Arithmetic Binary64

/-- That of two values the first is kept unless both are numbers and the second has the
smaller key. -/
def Picks (choose : Value → Value → Value) (key : Value → Int) : Prop :=
  ∀ held offered, choose held offered =
    if held.isNaN = false ∧ offered.isNaN = false ∧ key offered < key held then offered else held

theorem picks_lower : Picks lower orderKey := by
  intro held offered
  unfold lower
  congr 1
  simp [Arithmetic.less, Binary64.less, and_assoc, and_left_comm]

theorem picks_upper : Picks upper (fun value => -value.orderKey) := by
  intro held offered
  unfold upper
  congr 1
  simp [Arithmetic.less, Binary64.less, and_assoc]

/-- That a value is a number among others and has the least key of the numbers among them. -/
structure Extreme (key : Value → Int) (values : List Value) (value : Value) : Prop where
  member : value ∈ values
  number : value.isNaN = false
  least : ∀ other ∈ values, other.isNaN = false → key value ≤ key other

section Picked

variable {choose : Value → Value → Value} {key : Value → Int} {first last : Value}
  {later earlier : List Value}

theorem foldl_nan (picks : Picks choose key) (nan : first.isNaN = true) (later : List Value) :
    later.foldl choose first = first := by
  induction later with
  | nil => rfl
  | cons value later ih =>
      have kept : choose first value = first := by simp [picks first value, nan]
      rw [List.foldl_cons, kept, ih]

theorem picked_extreme (picks : Picks choose key) (number : first.isNaN = false) (value : Value) :
    Extreme key [first, value] (choose first value) := by
  have chosen := picks first value
  split at chosen
  · rename_i smaller
    obtain ⟨_, whole, less⟩ := smaller
    rw [chosen]
    exact ⟨by simp, whole, by simpa using fun _ => Int.le_of_lt less⟩
  · rename_i kept
    rw [chosen]
    refine ⟨by simp, number, ?_⟩
    intro other among otherNumber
    rcases List.mem_pair.mp among with rfl | rfl
    · exact Int.le_refl _
    · exact Int.not_lt.mp fun less => kept ⟨number, otherNumber, less⟩

theorem Extreme.extend {held value extreme : Value} (pair : Extreme key [first, value] held)
    (whole : Extreme key (held :: later) extreme) :
    Extreme key (first :: value :: later) extreme where
  member := by
    rcases List.mem_cons.mp whole.member with rfl | rest
    · exact List.mem_append_left later pair.member
    · exact List.mem_cons_of_mem _ (List.mem_cons_of_mem _ rest)
  number := whole.number
  least other among number := by
    have parts : other ∈ [first, value] ++ later := among
    rcases List.mem_append.mp parts with early | rest
    · exact Int.le_trans (whole.least held List.mem_cons_self pair.number)
        (pair.least other early number)
    · exact whole.least other (List.mem_cons_of_mem _ rest) number

theorem foldl_extreme (picks : Picks choose key) (number : first.isNaN = false)
    (later : List Value) : Extreme key (first :: later) (later.foldl choose first) := by
  induction later generalizing first with
  | nil =>
      refine ⟨List.mem_cons_self, number, ?_⟩
      intro other member _
      rw [List.mem_singleton.mp member]
      exact Int.le_refl _
  | cons value later ih =>
      have pair := picked_extreme picks number value
      exact pair.extend (ih pair.number)

theorem foldl_isNaN (picks : Picks choose key) (first : Value) (later : List Value) :
    (later.foldl choose first).isNaN = first.isNaN := by
  cases kind : first.isNaN with
  | true => rw [foldl_nan picks kind, kind]
  | false => exact (foldl_extreme picks kind later).number

/-- An extreme is the same from both ends if both ends are numbers, or neither is. -/
theorem same_picked (picks : Picks choose key)
    (keyed : ∀ one other : Value, key one = key other → one.orderKey = other.orderKey)
    (backwards : (first :: later).reverse = last :: earlier) :
    Same (later.foldl choose first) (earlier.foldl choose last) ↔ first.isNaN = last.isNaN := by
  constructor
  · intro same
    rw [← foldl_isNaN picks first later, ← foldl_isNaN picks last earlier, same.1]
  · intro ends
    refine ⟨by rw [foldl_isNaN picks, foldl_isNaN picks, ends], ?_⟩
    intro number
    rw [foldl_isNaN picks] at number
    have front := foldl_extreme picks number later
    have back := foldl_extreme picks (ends.symm.trans number) earlier
    rw [← backwards] at back
    apply keyed
    exact Int.le_antisymm (front.least _ (List.mem_reverse.mp back.member) back.number)
      (back.least _ (List.mem_reverse.mpr front.member) front.number)

end Picked

def OneInfinity (values : List Value) : Prop :=
  ∃ one ∈ [infinity, negativeInfinity], ∀ value ∈ values, value.isNaN = false → value = one

instance (values : List Value) : Decidable (OneInfinity values) :=
  inferInstanceAs (Decidable (∃ one ∈ [infinity, negativeInfinity], _))

/-- That the direction in which values are taken in does not show in an extreme of them, or in
the distance of their extremes. -/
def Steady (kind : AggregationKind) (values : List Value) : Prop :=
  values.head?.map isNaN = values.getLast?.map isNaN ∨ kind = .range ∧ OneInfinity values

instance (kind : AggregationKind) (values : List Value) : Decidable (Steady kind values) :=
  inferInstanceAs (Decidable (_ ∨ _))

theorem one_infinity_reverse (values : List Value) :
    OneInfinity values.reverse ↔ OneInfinity values := by
  simp only [OneInfinity, List.mem_reverse]

theorem distance_isNaN {first : Value} (number : first.isNaN = false) (later : List Value) :
    (Binary64.sub (later.foldl upper first) (later.foldl lower first)).isNaN = true ↔
      OneInfinity (first :: later) := by
  have lowest := foldl_extreme picks_lower number later
  have highest := foldl_extreme picks_upper number later
  rw [sub_isNaN highest.number lowest.number]
  -- every number lies between the extremes, and only an infinity has the key of an infinity
  have squeezed : ∀ one ∈ [infinity, negativeInfinity], later.foldl upper first = one →
      later.foldl lower first = one → OneInfinity (first :: later) := by
    intro one infinite top bottom
    refine ⟨one, infinite, ?_⟩
    intro value member whole
    have above := lowest.least value member whole
    have below := highest.least value member whole
    rw [bottom] at above
    rw [top] at below
    have same : value.orderKey = one.orderKey := by omega
    rcases eq_or_zeros same with equal | ⟨_, rfl⟩ | ⟨_, rfl⟩
    · exact equal
    · exact absurd infinite (by decide)
    · exact absurd infinite (by decide)
  constructor
  · rintro (⟨top, bottom⟩ | ⟨top, bottom⟩)
    · exact squeezed infinity (by simp) top bottom
    · exact squeezed negativeInfinity (by simp) top bottom
  · rintro ⟨one, infinite, every⟩
    have top := every _ highest.member highest.number
    have bottom := every _ lowest.member lowest.number
    rw [top, bottom]
    simpa using infinite

theorem same_lowest {first last : Value} {later earlier : List Value}
    (backwards : (first :: later).reverse = last :: earlier) :
    Same (later.foldl lower first) (earlier.foldl lower last) ↔ first.isNaN = last.isNaN :=
  same_picked picks_lower (fun _ _ same => same) backwards

theorem same_highest {first last : Value} {later earlier : List Value}
    (backwards : (first :: later).reverse = last :: earlier) :
    Same (later.foldl upper first) (earlier.foldl upper last) ↔ first.isNaN = last.isNaN :=
  same_picked picks_upper (fun _ _ same => Int.neg_inj.mp same) backwards

/-- Where one end is a number and the other is not, the distance is the same from both ends
only if it is not a number from either. -/
theorem same_distance_of_nan {first last : Value} {later earlier : List Value}
    (nan : first.isNaN = true) (number : last.isNaN = false) :
    Same (Binary64.sub (later.foldl upper first) (later.foldl lower first))
        (Binary64.sub (earlier.foldl upper last) (earlier.foldl lower last)) ↔
      OneInfinity (last :: earlier) := by
  have none : (Binary64.sub (later.foldl upper first) (later.foldl lower first)).isNaN = true :=
    sub_of_nan_left (by rw [foldl_isNaN picks_upper, nan]) _
  rw [← distance_isNaN number earlier]
  constructor
  · intro same
    exact same.1.symm.trans none
  · intro other
    exact same_of_nan none other

theorem same_distance_iff {first last : Value} {later earlier : List Value}
    (backwards : (first :: later).reverse = last :: earlier) :
    Same (Binary64.sub (later.foldl upper first) (later.foldl lower first))
        (Binary64.sub (earlier.foldl upper last) (earlier.foldl lower last)) ↔
      first.isNaN = last.isNaN ∨ OneInfinity (first :: later) := by
  have turned := one_infinity_reverse (first :: later)
  rw [backwards] at turned
  have agreeing : first.isNaN = last.isNaN →
      Same (Binary64.sub (later.foldl upper first) (later.foldl lower first))
        (Binary64.sub (earlier.foldl upper last) (earlier.foldl lower last)) := by
    intro ends
    exact same_sub ((same_highest backwards).mpr ends) ((same_lowest backwards).mpr ends)
  cases front : first.isNaN with
  | true =>
      cases back : last.isNaN with
      | true => exact iff_of_true (agreeing (front.trans back.symm)) (Or.inl rfl)
      | false =>
          rw [same_distance_of_nan front back, turned]
          simp
  | false =>
      cases back : last.isNaN with
      | true =>
          rw [same_comm, same_distance_of_nan back front]
          simp
      | false => exact iff_of_true (agreeing (front.trans back.symm)) (Or.inl rfl)

namespace Accumulator

/-- An aggregate of extremes is the same backwards exactly where its values are steady. -/
theorem same_backwards_iff {kind : AggregationKind} (listed : kind ∈ [.min, .max, .range])
    {values : List Value} {forward backward : Value}
    (forwards : aggregate kind values = some forward)
    (backwards : aggregate kind values.reverse = some backward) :
    Same forward backward ↔ Steady kind values := by
  cases values with
  | nil =>
      rw [aggregate, List.foldl_nil, finalize_new] at forwards
      cases forwards
  | cons first later =>
      obtain ⟨last, earlier, turned⟩ :=
        List.exists_cons_of_ne_nil (List.reverse_ne_nil_iff.mpr (List.cons_ne_nil first later))
      have ending : (first :: later).getLast? = some last := by
        rw [← List.head?_reverse, turned]
        rfl
      rw [turned] at backwards
      rw [Steady, ending, List.head?_cons, Option.map_some, Option.map_some, Option.some_inj]
      simp only [List.mem_cons, List.not_mem_nil, or_false] at listed
      rcases listed with rfl | rfl | rfl
      · rw [aggregate_min] at forwards backwards
        obtain rfl := Option.some.inj forwards
        obtain rfl := Option.some.inj backwards
        simpa using same_lowest turned
      · rw [aggregate_max] at forwards backwards
        obtain rfl := Option.some.inj forwards
        obtain rfl := Option.some.inj backwards
        simpa using same_highest turned
      · rw [aggregate_range] at forwards backwards
        obtain rfl := Option.some.inj forwards
        obtain rfl := Option.some.inj backwards
        exact (same_distance_iff turned).trans (by simp)

end Accumulator

end Chronicle

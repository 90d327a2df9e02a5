/-!
Counters, and totals of a measure over a list. A counter is kept exactly, however far it
counts. It is shown and stored as a word of 64 bits: a counter below zero stands for the word
that lies as far below 2^64, from which counting on leads through zero. A counter that only
counted up from zero is therefore shown as it is, and one that was read as any word goes on as
a word would, also in sums with others.
-/

namespace Chronicle

abbrev Counter := Int

namespace Counter

def shown (counter : Counter) : Nat :=
  if 0 ≤ counter then counter.toNat else (counter % UInt64.size).toNat

def outOfReach : Nat := 0x1000000000000

/-- The counter that a word stands for. A word that is out of reach is read as a number
below zero. -/
def ofWord (word : UInt64) : Counter :=
  if word.toNat < outOfReach then word.toNat else word.toNat - UInt64.size

def toWord (counter : Counter) : UInt64 := UInt64.ofNat counter.shown

/-- Takes away from a counter, at most all that it shows. -/
def less (counter taken : Counter) : Counter :=
  if counter.shown ≤ taken.shown then 0 else counter - taken.shown

def sum (counters : List Counter) : Counter := counters.foldr (· + ·) 0

theorem shown_ofNat (number : Nat) : shown (number : Counter) = number := by
  simp [shown]

theorem shown_ofWord (word : UInt64) : (ofWord word).shown = word.toNat := by
  have bound : word.toNat < UInt64.size := word.toNat_lt
  by_cases small : word.toNat < outOfReach
  · simp [shown, ofWord, small]
  · have negative : ¬ (0 : Int) ≤ word.toNat - UInt64.size := by omega
    rw [ofWord, if_neg small, shown, if_neg negative, Int.sub_emod_right,
      Int.emod_eq_of_lt (by omega) (by omega), Int.toNat_natCast]

theorem toWord_ofWord (word : UInt64) : (ofWord word).toWord = word := by
  simp [toWord, shown_ofWord]

end Counter

def total {α : Type} (measure : α → Nat) : List α → Nat
  | [] => 0
  | item :: rest => measure item + total measure rest

theorem total_append {α : Type} (measure : α → Nat) (left right : List α) :
    total measure (left ++ right) = total measure left + total measure right := by
  induction left with
  | nil => simp [total]
  | cons item rest ih =>
      simp only [List.cons_append, total, ih]
      omega

theorem total_length {α : Type} (lists : List (List α)) :
    total List.length lists = lists.flatten.length := by
  induction lists with
  | nil => rfl
  | cons first later ih => rw [total, ih, List.flatten_cons, List.length_append]

end Chronicle

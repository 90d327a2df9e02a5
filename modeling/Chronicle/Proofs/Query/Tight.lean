import Chronicle.Proofs.Query.Index

/-!
What a label index looks like. No bucket of it is empty, however it has been edited, so where
two indexes file the same keys under the same labels they are one and the same, and the way
that led to them leaves no trace.
-/

namespace Chronicle

namespace KeySet

theorem filled_insert (keys : KeySet) (key : String) :
    SortedMap.isEmpty (SortedMap.insert keys key ()) = false := by
  rw [← Bool.not_eq_true, is_empty_iff]
  intro none
  have inserted := (contains_insert keys key key).mpr (Or.inl rfl)
  rw [none key] at inserted
  exact Bool.false_ne_true inserted

theorem eq_of_contains {left right : KeySet}
    (same : ∀ key, left.contains key = true ↔ right.contains key = true) : left = right := by
  apply SortedMap.eq_of_get?
  intro key
  have held := same key
  rw [SortedMap.contains_iff, SortedMap.contains_iff] at held
  apply Option.ext
  intro filed
  exact ⟨fun present => held.mp ⟨filed, present⟩ |>.elim fun _ found => found,
    fun present => held.mpr ⟨filed, present⟩ |>.elim fun _ found => found⟩

end KeySet

namespace Buckets

variable {κ : Type} [Ord κ]

def Tight (buckets : Buckets κ) : Prop :=
  SortedMap.Every buckets fun _ keys => SortedMap.isEmpty keys = false

variable [Std.TransOrd κ] [Std.LawfulEqOrd κ] [DecidableEq κ] {buckets : Buckets κ}

theorem tight_file (tight : buckets.Tight) (key : String) (mark : κ) :
    (buckets.file key mark).Tight :=
  SortedMap.every_insert tight (KeySet.filled_insert _ key)

theorem tight_strike (tight : buckets.Tight) (key : String) (mark : κ) :
    (buckets.strike key mark).Tight := by
  unfold strike
  split
  · exact tight
  · dsimp only
    split
    · exact SortedMap.every_erase tight mark
    · rename_i rest
      exact SortedMap.every_insert tight (Bool.not_eq_true _ ▸ rest)

theorem tight_file_all (tight : buckets.Tight) (key : String) (marks : List κ) :
    Tight (marks.foldl (fun buckets mark => buckets.file key mark) buckets) := by
  induction marks generalizing buckets with
  | nil => exact tight
  | cons mark later ih => exact ih (tight_file tight key mark)

theorem tight_strike_all (tight : buckets.Tight) (key : String) (marks : List κ) :
    Tight (marks.foldl (fun buckets mark => buckets.strike key mark) buckets) := by
  induction marks generalizing buckets with
  | nil => exact tight
  | cons mark later ih => exact ih (tight_strike tight key mark)

omit [Std.TransOrd κ] [Std.LawfulEqOrd κ] [DecidableEq κ] in
theorem get?_under (tight : buckets.Tight) (mark : κ) :
    buckets.get? mark =
      if (buckets.under mark).isEmpty then none else some (buckets.under mark) := by
  unfold under
  cases present : SortedMap.get? buckets mark with
  | none => rfl
  | some keys => rw [Option.getD_some, tight mark keys present, if_neg Bool.false_ne_true]

omit [DecidableEq κ] in
/-- What is filed where is all that is in buckets of which none is empty. -/
theorem eq_of_holds {left right : Buckets κ} (tightLeft : left.Tight) (tightRight : right.Tight)
    (same : ∀ mark key, left.Holds mark key ↔ right.Holds mark key) : left = right := by
  apply SortedMap.eq_of_get?
  intro mark
  have keys : left.under mark = right.under mark := KeySet.eq_of_contains (same mark)
  rw [get?_under tightLeft, get?_under tightRight, keys]

end Buckets

namespace LabelIndex

/-- That no bucket of an index is empty. -/
structure Tight (index : LabelIndex) : Prop where
  postings : index.postings.Tight
  carriers : index.carriers.Tight

variable {index : LabelIndex}

theorem tight_empty : empty.Tight := ⟨SortedMap.every_empty, SortedMap.every_empty⟩

theorem tight_add (tight : index.Tight) (key : String) (labels : Labels) :
    (index.add key labels).Tight where
  postings := Buckets.tight_file_all tight.postings key labels.entries
  carriers := Buckets.tight_file_all tight.carriers key labels.keys

theorem tight_remove (tight : index.Tight) (key : String) (labels : Labels) :
    (index.remove key labels).Tight where
  postings := Buckets.tight_strike_all tight.postings key labels.entries
  carriers := Buckets.tight_strike_all tight.carriers key labels.keys

/-- There is one index for keys with their labels. -/
theorem eq_of_files {other : LabelIndex} {labels : String → Option Labels}
    (files : index.Files labels) (tight : index.Tight) (filesOther : other.Files labels)
    (tightOther : other.Tight) : index = other := by
  have keys : index.keys = other.keys := by
    apply KeySet.eq_of_contains
    intro key
    rw [files.keys, filesOther.keys]
  have postings : index.postings = other.postings := by
    apply Buckets.eq_of_holds tight.postings tightOther.postings
    intro mark key
    exact (files.postings mark.1 mark.2 key).trans (filesOther.postings mark.1 mark.2 key).symm
  have carriers : index.carriers = other.carriers := by
    apply Buckets.eq_of_holds tight.carriers tightOther.carriers
    intro name key
    exact (files.carriers name key).trans (filesOther.carriers name key).symm
  cases index
  cases other
  exact LabelIndex.mk.injEq .. ▸ ⟨keys, postings, carriers⟩

end LabelIndex

end Chronicle

/-!
Trails: sequences that grow at their end. A trail is kept last item first and together
with its length, so that growing, measuring and looking at the end are one step each.
What a trail means is its list in order; the lemmas say what becomes of that list.
-/

namespace Chronicle

structure Trail (α : Type) where
  lastFirst : List α
  size : Nat
  size_eq : size = lastFirst.length
deriving DecidableEq

namespace Trail

variable {α : Type}

def empty : Trail α := ⟨[], 0, rfl⟩

instance : Inhabited (Trail α) := ⟨empty⟩

def toList (trail : Trail α) : List α := trail.lastFirst.reverse

def ofList (items : List α) : Trail α := ⟨items.reverse, items.length, by simp⟩

def push (trail : Trail α) (item : α) : Trail α :=
  ⟨item :: trail.lastFirst, trail.size + 1, by simp [trail.size_eq]⟩

def last? (trail : Trail α) : Option α := trail.lastFirst.head?

def modifyLast (trail : Trail α) (change : α → α) : Trail α :=
  ⟨trail.lastFirst.modifyHead change, trail.size, by simp [trail.size_eq]⟩

theorem length_toList (trail : Trail α) : trail.toList.length = trail.size := by
  simp [toList, trail.size_eq]

theorem last?_toList (trail : Trail α) : trail.toList.getLast? = trail.last? := by
  simp [toList, last?]

theorem toList_ofList (items : List α) : (ofList items).toList = items := by
  simp [toList, ofList]

theorem toList_push (trail : Trail α) (item : α) :
    (trail.push item).toList = trail.toList ++ [item] := by
  simp [toList, push]

theorem toList_modifyLast_push (trail : Trail α) (item : α) (change : α → α) :
    ((trail.push item).modifyLast change).toList = trail.toList ++ [change item] := by
  simp [toList, push, modifyLast]

theorem eq_of_toList {left right : Trail α} (same : left.toList = right.toList) :
    left = right := by
  obtain ⟨_, _, sizes⟩ := left
  obtain ⟨_, _, otherSizes⟩ := right
  have items := List.reverse_inj.mp same
  simp only at items
  subst items sizes otherSizes
  rfl

theorem ofList_toList (trail : Trail α) : ofList trail.toList = trail :=
  eq_of_toList (toList_ofList _)

theorem exists_push_of_size_pos {trail : Trail α} (filled : 0 < trail.size) :
    ∃ init last, trail = push init last := by
  obtain ⟨items, _, sizes⟩ := trail
  subst sizes
  cases items with
  | nil => simp at filled
  | cons last older => exact ⟨⟨older, older.length, rfl⟩, last, rfl⟩

end Trail

end Chronicle

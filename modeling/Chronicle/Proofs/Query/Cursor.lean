import Chronicle.Proofs.SortedMap
import Chronicle.Query.Cursor
import Mathlib.Data.String.Basic
import Mathlib.Order.Bounds.Basic

/-!
Scans whose set of keys changes. Between two keys a cursor may be given any other set, so what
a scan returns is no walk over one set. It is told by its past instead: each key is the least
of the set then held that lies above all keys returned before, and a key that no exchange of
the sets ever took away cannot be passed over.
-/

namespace Chronicle

namespace KeyCursor

theorem compare_keys (left right : String) : compare left right = .lt ↔ left < right :=
  compareOfLessAndEq_eq_lt

theorem keys_ascending (keys : KeySet) : keys.keys.Pairwise (· < ·) := by
  apply keys.keys_increasing.imp
  intro earlier later before
  exact (compare_keys earlier later).mp before

/-- The first of increasing keys to pass a test is the least that passes it. -/
theorem find_ascending {keys : List String} (ascending : keys.Pairwise (· < ·))
    (test : String → Bool) (key : String) :
    keys.find? test = some key ↔ IsLeast {key | key ∈ keys ∧ test key = true} key := by
  induction keys with
  | nil => simp [IsLeast]
  | cons head rest ih =>
      obtain ⟨above, ascending⟩ := List.pairwise_cons.mp ascending
      cases passed : test head with
      | true =>
          have least : IsLeast {key | key ∈ head :: rest ∧ test key = true} head := by
            constructor
            · exact ⟨List.mem_cons_self, passed⟩
            · rintro other ⟨member, _⟩
              rcases List.mem_cons.mp member with rfl | later
              · exact le_refl _
              · exact le_of_lt (above other later)
          rw [List.find?_cons_of_pos passed, Option.some_inj]
          constructor
          · rintro rfl
            exact least
          · exact least.unique
      | false =>
          have same : {key | key ∈ head :: rest ∧ test key = true} =
              {key | key ∈ rest ∧ test key = true} := by
            ext other
            constructor
            · rintro ⟨member, passes⟩
              rcases List.mem_cons.mp member with rfl | later
              · rw [passed] at passes
                exact nomatch passes
              · exact ⟨later, passes⟩
            · rintro ⟨later, passes⟩
              exact ⟨List.mem_cons_of_mem _ later, passes⟩
          rw [List.find?_cons_of_neg (by simp [passed]), same]
          exact ih ascending

theorem next_eq_some_iff (cursor : KeyCursor) (key : String) :
    cursor.next? = some key ↔
      IsLeast {key | cursor.keys.contains key = true ∧ cursor.isAhead key = true} key := by
  rw [next?, find_ascending (keys_ascending cursor.keys)]
  simp only [SortedMap.mem_keys_iff]

theorem next_eq_none_iff (cursor : KeyCursor) :
    cursor.next? = none ↔
      ∀ key, cursor.keys.contains key = true → ¬cursor.isAhead key = true := by
  simp only [next?, List.find?_eq_none, SortedMap.mem_keys_iff]

theorem step_returned (cursor : KeyCursor) : cursor.step.1 = cursor.next? := by
  unfold step
  cases cursor.next? <;> rfl

namespace Scan

/-- The keys that no exchange of the sets has taken away. -/
def Lasting (scan : Scan) (key : String) : Prop := ∀ keys ∈ scan.held, keys.contains key = true

/-- What every move keeps. Up to the last key returned, no lasting key is missing. -/
structure Progresses (scan : Scan) : Prop where
  position : scan.cursor.last = scan.returned.getLast?
  present : scan.held.getLast? = some scan.cursor.keys
  ascending : scan.returned.Pairwise (· < ·)
  complete : ∀ key, scan.Lasting key → ∀ given ∈ scan.returned, key ≤ given →
    key ∈ scan.returned

variable {scan : Scan}

/-- What lies ahead of a cursor lies above every key that it has returned. -/
theorem Progresses.ahead_iff (progresses : scan.Progresses) (key : String) :
    scan.cursor.isAhead key = true ↔ ∀ earlier ∈ scan.returned, earlier < key := by
  rw [isAhead, progresses.position]
  cases last : scan.returned.getLast? with
  | none => simp [List.getLast?_eq_none_iff.mp last]
  | some newest =>
      obtain ⟨before, parts⟩ := List.getLast?_eq_some_iff.mp last
      have ascending := progresses.ascending
      rw [parts] at ascending ⊢
      have below := (List.pairwise_append.mp ascending).2.2
      constructor
      · intro ahead earlier member
        have position : newest < key := of_decide_eq_true ahead
        rcases List.mem_append.mp member with older | last
        · exact lt_trans (below earlier older newest List.mem_cons_self) position
        · exact List.mem_singleton.mp last ▸ position
      · intro above
        exact decide_eq_true (above newest (by simp))

theorem Progresses.next_iff (progresses : scan.Progresses) (key : String) :
    scan.cursor.step.1 = some key ↔
      IsLeast {key | scan.cursor.keys.contains key = true ∧
        ∀ earlier ∈ scan.returned, earlier < key} key := by
  rw [step_returned, next_eq_some_iff]
  simp only [progresses.ahead_iff]

theorem Progresses.lasting_held (progresses : scan.Progresses) {key : String}
    (lasting : scan.Lasting key) : scan.cursor.keys.contains key = true :=
  lasting _ (List.mem_of_getLast? progresses.present)

theorem progresses_start (keys : KeySet) : (start keys).Progresses where
  position := rfl
  present := rfl
  ascending := .nil
  complete := nofun

theorem progresses_next (progresses : scan.Progresses) : (scan.move .next).Progresses := by
  cases found : scan.cursor.next? with
  | none =>
      have still : scan.move .next = scan := by simp [move, step, found]
      rw [still]
      exact progresses
  | some key =>
      have moved : scan.move .next = { scan with
          cursor := { scan.cursor with last := some key }
          returned := scan.returned ++ [key] } := by simp [move, step, found]
      obtain ⟨⟨_, above⟩, least⟩ :=
        (progresses.next_iff key).mp ((step_returned scan.cursor).trans found)
      rw [moved]
      constructor
      · simp
      · exact progresses.present
      · apply List.pairwise_append.mpr
        refine ⟨progresses.ascending, List.pairwise_singleton _ _, ?_⟩
        intro earlier member last new
        exact List.mem_singleton.mp new ▸ above earlier member
      · -- a lasting key up to the new one is an old one, or ahead and therefore the new one
        intro other lasting given member upTo
        have lasting : scan.Lasting other := lasting
        by_cases ahead : ∀ earlier ∈ scan.returned, earlier < other
        · have reached : other ≤ key := by
            rcases List.mem_append.mp member with older | new
            · exact absurd upTo (not_le.mpr (ahead given older))
            · exact List.mem_singleton.mp new ▸ upTo
          have same : other = key :=
            le_antisymm reached (least ⟨progresses.lasting_held lasting, ahead⟩)
          simp [same]
        · push Not at ahead
          obtain ⟨earlier, older, passed⟩ := ahead
          exact List.mem_append_left _ (progresses.complete other lasting earlier older passed)

theorem progresses_reseed (progresses : scan.Progresses) (keys : KeySet) :
    (scan.move (.reseed keys)).Progresses where
  position := progresses.position
  present := by simp [move, reseed]
  ascending := progresses.ascending
  complete := by
    intro key lasting given member upTo
    have older : scan.Lasting key := fun keys member => lasting keys (List.mem_append_left _ member)
    exact progresses.complete key older given member upTo

theorem progresses_moved (progresses : scan.Progresses) (moves : List Move) :
    (moves.foldl move scan).Progresses := by
  induction moves generalizing scan with
  | nil => exact progresses
  | cons first later ih =>
      cases first with
      | next => exact ih (progresses_next progresses)
      | reseed keys => exact ih (progresses_reseed progresses keys)

theorem progresses_after (keys : KeySet) (moves : List Move) : (after keys moves).Progresses :=
  progresses_moved (progresses_start keys) moves

theorem next_behind_front (progresses : scan.Progresses) {count : Nat}
    (front : scan.returned = scan.cursor.keys.keys.take count) :
    scan.cursor.next? = scan.cursor.keys.keys[count]? := by
  have ascending := keys_ascending scan.cursor.keys
  unfold next?
  generalize scan.cursor.keys.keys = keys at front ascending ⊢
  have passed : ∀ key ∈ keys.take count, ¬scan.cursor.isAhead key = true := by
    intro key member ahead
    rw [progresses.ahead_iff, front] at ahead
    exact lt_irrefl key (ahead key member)
  rw [← List.take_append_drop count keys] at ascending
  have across := (List.pairwise_append.mp ascending).2.2
  conv_lhs => rw [← List.take_append_drop count keys]
  rw [List.find?_append, List.find?_eq_none.mpr passed, Option.none_or, ← List.head?_drop]
  cases behind : keys.drop count with
  | nil => rfl
  | cons key later =>
      apply List.find?_cons_of_pos
      rw [progresses.ahead_iff, front]
      intro earlier member
      exact across earlier member key (behind ▸ List.mem_cons_self)

/-- A cursor that is left alone returns its keys from the first on. -/
theorem returned_undisturbed (keys : KeySet) (count : Nat) :
    (after keys (List.replicate count .next)).returned = keys.keys.take count ∧
      (after keys (List.replicate count .next)).cursor.keys = keys := by
  induction count with
  | zero => exact ⟨rfl, rfl⟩
  | succ count ih =>
      obtain ⟨returned, same⟩ := ih
      have next := next_behind_front (progresses_after keys (List.replicate count .next))
        (by rw [same, returned])
      have longer : after keys (List.replicate (count + 1) .next) =
          (after keys (List.replicate count .next)).move .next := by
        rw [List.replicate_succ', after, List.foldl_append]
        rfl
      rw [longer, move, step_returned, next, returned, same, List.take_add_one]
      refine ⟨rfl, ?_⟩
      unfold step
      cases KeyCursor.next? _ <;> exact same

/-- However the sets are exchanged between the steps: the keys returned increase, each is the
least of the set then held above all those before it, and when there is none, every key that
was in all the sets has been returned. -/
theorem returns_in_order (keys : KeySet) (moves : List Move) :
    let scan := after keys moves
    scan.returned.Pairwise (· < ·) ∧ scan.returned.Nodup ∧
      (∃ present, scan.held.getLast? = some present ∧ ∀ key, scan.cursor.step.1 = some key ↔
        IsLeast {key | present.contains key = true ∧
          ∀ earlier ∈ scan.returned, earlier < key} key) ∧
      (scan.cursor.step.1 = none → ∀ key, (∀ keys ∈ scan.held, keys.contains key = true) →
        key ∈ scan.returned) := by
  intro scan
  have progresses : scan.Progresses := progresses_after keys moves
  refine ⟨progresses.ascending, progresses.ascending.nodup,
    ⟨_, progresses.present, progresses.next_iff⟩, ?_⟩
  intro ended key lasting
  have behind := (next_eq_none_iff _).mp ((step_returned scan.cursor).symm.trans ended) key
    (progresses.lasting_held lasting)
  rw [progresses.ahead_iff] at behind
  push Not at behind
  obtain ⟨given, member, upTo⟩ := behind
  exact progresses.complete key lasting given member upTo

theorem returns_in_order_exchanged :
    let scan := after (.ofKeys ["a", "b", "c", "d"])
      [.next, .next, .reseed (.ofKeys ["a", "bb", "d"]), .next, .next]
    scan.returned = ["a", "b", "bb", "d"] ∧ scan.cursor.step.1 = none ∧ "d" ∈ scan.returned := by
  refine ⟨by decide +kernel, by decide +kernel, ?_⟩
  exact (returns_in_order _ _).2.2.2 (by decide +kernel) "d" (by decide +kernel)

end Scan

end KeyCursor

end Chronicle

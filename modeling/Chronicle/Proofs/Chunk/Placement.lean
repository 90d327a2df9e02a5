import Chronicle.Chunk.Placement
import Chronicle.Proofs.Timeline

/-!
Finding a place by halving. Narrowing keeps two facts: what lies behind the span is later
than the timestamp, and the first sample of the span, unless the span began there, is
not. From them the sample found is the last that is not later, and inserting or merging
there is the write of a timeline.
-/

namespace Chronicle

namespace Placement

open Timeline

/-- What is known of a position that narrowing found in a span. -/
structure Found (samples : List Sample) (timestamp : Timestamp) (base size position : Nat) :
    Prop where
  from_base : base ≤ position
  inside : position < base + size
  reached : position = base ∨ ∀ found ∈ samples[position]?, found.timestamp ≤ timestamp
  beyond : ∀ index, position < index → index < base + size →
    ∀ later ∈ samples[index]?, timestamp < later.timestamp

theorem later_behind {samples : List Sample} {timestamp : Timestamp} {middle index : Nat}
    (increasing : Increasing samples) (behind : middle ≤ index)
    (later : ∃ sample, samples[middle]? = some sample ∧ timestamp < sample.timestamp) :
    ∀ beyond ∈ samples[index]?, timestamp < beyond.timestamp := by
  intro beyond member
  obtain ⟨sample, present, after⟩ := later
  obtain ⟨middleInside, rfl⟩ := List.getElem?_eq_some_iff.mp present
  obtain ⟨indexInside, rfl⟩ := List.getElem?_eq_some_iff.mp member
  rcases Nat.eq_or_lt_of_le behind with rfl | further
  · exact after
  · exact UInt64.lt_trans after
      (List.pairwise_iff_getElem.mp increasing middle index middleInside indexInside further)

theorem found_narrow (samples : List Sample) (timestamp : Timestamp)
    (increasing : Increasing samples) (base size : Nat) (nonempty : 0 < size)
    (within : base + size ≤ samples.length) :
    Found samples timestamp base size (narrow samples timestamp base size) := by
  fun_induction narrow samples timestamp base size with
  | case1 base size single =>
      exact ⟨by omega, by omega, Or.inl rfl, fun index more less => by omega⟩
  | case2 base size several half middle later ih =>
      have inside : middle < samples.length := by omega
      have present : samples[middle]? = some samples[middle] := List.getElem?_eq_getElem inside
      by_cases after : timestamp < samples[middle].timestamp
      · have passed : later = true := by simp [later, present, after]
        simp only [passed, if_true, dite_true] at ih ⊢
        obtain ⟨fromBase, inHalf, reached, beyond⟩ := ih (by omega) (by omega)
        refine ⟨fromBase, by omega, reached, ?_⟩
        intro index more _
        by_cases near : index < base + (size - half)
        · exact beyond index more near
        · exact later_behind increasing (by omega) ⟨_, present, after⟩
      · have kept : later = false := by simpa [later, present] using after
        simp only [kept, Bool.false_eq_true, if_false, dite_false] at ih ⊢
        obtain ⟨fromMiddle, inHalf, reached, beyond⟩ := ih (by omega) (by omega)
        refine ⟨by omega, by omega, Or.inr ?_, fun index more _ => beyond index more (by omega)⟩
        rcases reached with start | reached
        · intro found member
          rw [start, present] at member
          obtain rfl := Option.some.inj member
          exact UInt64.not_lt.mp after
        · exact reached

theorem exists_parts_at {samples : List Sample} {position : Nat} {present : Sample}
    (here : samples[position]? = some present) :
    ∃ before after, samples = before ++ present :: after ∧ before.length = position := by
  obtain ⟨inside, rfl⟩ := List.getElem?_eq_some_iff.mp here
  refine ⟨samples.take position, samples.drop (position + 1), ?_, ?_⟩
  · rw [List.getElem_cons_drop, List.take_append_drop]
  · rw [List.length_take, Nat.min_eq_left (Nat.le_of_lt inside)]

theorem insert_idx_append (before after : List Sample) (sample : Sample) :
    (before ++ after).insertIdx before.length sample = before ++ sample :: after := by
  induction before with
  | nil => simp
  | cons head before ih => simp [ih]

/-- Inserting or merging at the place found is the write of a timeline. -/
theorem upsert_eq_write (samples : List Sample) (sample : Sample) (policy : DuplicatePolicy)
    (increasing : Increasing samples) :
    Placement.upsert samples sample policy = write samples sample policy := by
  by_cases nonempty : 0 < samples.length
  · have found := found_narrow samples sample.timestamp increasing 0 samples.length nonempty
      (by omega)
    unfold upsert
    generalize narrow samples sample.timestamp 0 samples.length = position at found ⊢
    have inside : position < samples.length := by simpa using found.inside
    have here : samples[position]? = some samples[position] := List.getElem?_eq_getElem inside
    generalize samples[position] = present at here
    obtain ⟨before, after, rfl, rfl⟩ := exists_parts_at here
    obtain ⟨_, behind, across⟩ := List.pairwise_append.mp increasing
    have earlier : ∀ other ∈ before, other.timestamp < present.timestamp :=
      fun other member => across other member present (by simp)
    have later : ∀ other ∈ after, present.timestamp < other.timestamp :=
      (List.pairwise_cons.mp behind).1
    simp only [here]
    by_cases same : present.timestamp = sample.timestamp
    · -- the sample found is merged where it stands
      rw [if_pos same, write_present policy same (same ▸ earlier) (same ▸ later), ← same]
      cases policy.combine present.timestamp present.value sample.value <;>
        simp [bind, Except.bind, Except.map]
    by_cases early : present.timestamp < sample.timestamp
    · -- the new sample goes right behind the one found
      have below : ∀ other ∈ before ++ [present], other.timestamp < sample.timestamp := by
        intro other member
        rcases List.mem_append.mp member with front | last
        · exact UInt64.lt_trans (earlier other front) early
        · exact List.mem_singleton.mp last ▸ early
      have above : ∀ other ∈ after, sample.timestamp < other.timestamp := by
        intro other member
        obtain ⟨index, place⟩ := List.getElem?_of_mem member
        have bound := (List.getElem?_eq_some_iff.mp place).1
        refine found.beyond (before.length + 1 + index) (by omega) (by simp; omega) other ?_
        rw [List.getElem?_append_right (by omega)]
        simpa [show before.length + 1 + index - before.length = index + 1 by omega] using place
      have whole : before ++ present :: after = before ++ [present] ++ after := by simp
      have placed := insert_idx_append (before ++ [present]) after sample
      rw [if_neg same, if_pos early, whole, write_absent policy below above, ← placed,
        List.length_append, List.length_singleton]
    · -- only the first sample of all can be later than the new one
      have late : sample.timestamp < present.timestamp :=
        UInt64.lt_of_le_of_ne (UInt64.not_lt.mp early) (Ne.symm same)
      have start : before = [] := by
        rcases found.reached with first | reached
        · exact List.length_eq_zero_iff.mp first
        · exact absurd (reached present here) (UInt64.not_le.mpr late)
      subst start
      have above : ∀ other ∈ present :: after, sample.timestamp < other.timestamp := by
        intro other member
        rcases List.mem_cons.mp member with rfl | rest
        · exact late
        · exact UInt64.lt_trans late (later other rest)
      have written : write ([] ++ present :: after) sample policy = _ :=
        write_absent policy (by simp) above
      rw [if_neg same, if_neg early, written]
      rfl
  · have empty : samples = [] := List.length_eq_zero_iff.mp (by omega)
    subst empty
    have found : narrow [] sample.timestamp 0 0 = 0 := by simp [narrow]
    simp [upsert, write, found, valueAt?, put]

end Placement

end Chronicle

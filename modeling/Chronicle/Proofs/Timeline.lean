import Chronicle.Chunk.Placement

/-!
Samples as a map from timestamps to values: a list with strictly increasing timestamps,
in which a write puts one sample in its place. Everything that stores samples is
described by what it does to such a list.
-/

namespace Chronicle

namespace Timeline

def Increasing (samples : List Sample) : Prop :=
  samples.Pairwise (fun earlier later => earlier.timestamp < later.timestamp)

def valueAt? (samples : List Sample) (timestamp : Timestamp) : Option Value :=
  (samples.find? (fun sample => sample.timestamp = timestamp)).map (·.value)

/-- The samples with one more, which replaces what stood at its timestamp. -/
def put (samples : List Sample) (sample : Sample) : List Sample :=
  samples.filter (fun other => other.timestamp < sample.timestamp) ++
    sample :: samples.filter (fun other => sample.timestamp < other.timestamp)

/-- A write: a value that is there already is combined with the new one. The flag says
whether a timestamp was added. -/
def write (samples : List Sample) (sample : Sample) (policy : DuplicatePolicy) :
    Except Error (List Sample × Bool) :=
  match valueAt? samples sample.timestamp with
  | none => .ok (put samples sample, true)
  | some stored => do
      let merged ← policy.combine sample.timestamp stored sample.value
      .ok (put samples ⟨sample.timestamp, merged⟩, false)

section Place

variable {before after : List Sample} {sample : Sample}

theorem filter_below (below : ∀ other ∈ before, other.timestamp < sample.timestamp) :
    before.filter (fun other => other.timestamp < sample.timestamp) = before ∧
      before.filter (fun other => sample.timestamp < other.timestamp) = [] := by
  constructor
  · exact List.filter_eq_self.mpr fun other member => by simpa using below other member
  · refine List.filter_eq_nil_iff.mpr fun other member => ?_
    simpa using UInt64.le_of_lt (below other member)

theorem filter_above (above : ∀ other ∈ after, sample.timestamp < other.timestamp) :
    after.filter (fun other => other.timestamp < sample.timestamp) = [] ∧
      after.filter (fun other => sample.timestamp < other.timestamp) = after := by
  constructor
  · refine List.filter_eq_nil_iff.mpr fun other member => ?_
    simpa using UInt64.le_of_lt (above other member)
  · exact List.filter_eq_self.mpr fun other member => by simpa using above other member

theorem find_outside {samples : List Sample} {timestamp : Timestamp}
    (outside : ∀ other ∈ samples, other.timestamp < timestamp ∨ timestamp < other.timestamp) :
    samples.find? (fun other => other.timestamp = timestamp) = none := by
  rw [List.find?_eq_none]
  intro other member same
  have equal : other.timestamp = timestamp := by simpa using same
  rcases outside other member with less | greater
  · exact UInt64.ne_of_lt less equal
  · exact UInt64.ne_of_lt greater equal.symm

/-- Samples on both sides of the place of a write are not touched by it. -/
theorem put_between (run : List Sample) (sample : Sample)
    (below : ∀ other ∈ before, other.timestamp < sample.timestamp)
    (above : ∀ other ∈ after, sample.timestamp < other.timestamp) :
    put (before ++ run ++ after) sample = before ++ put run sample ++ after := by
  simp only [put, List.filter_append, filter_below below, filter_above above]
  simp

theorem value_between (run : List Sample) {timestamp : Timestamp}
    (below : ∀ other ∈ before, other.timestamp < timestamp)
    (above : ∀ other ∈ after, timestamp < other.timestamp) :
    valueAt? (before ++ run ++ after) timestamp = valueAt? run timestamp := by
  have early := find_outside fun other member => Or.inl (below other member)
  have late := find_outside fun other member => Or.inr (above other member)
  simp [valueAt?, List.find?_append, early, late]

theorem put_absent (below : ∀ other ∈ before, other.timestamp < sample.timestamp)
    (above : ∀ other ∈ after, sample.timestamp < other.timestamp) :
    put (before ++ after) sample = before ++ sample :: after := by
  simpa [put] using put_between [] sample below above

theorem value_absent {timestamp : Timestamp}
    (below : ∀ other ∈ before, other.timestamp < timestamp)
    (above : ∀ other ∈ after, timestamp < other.timestamp) :
    valueAt? (before ++ after) timestamp = none := by
  simpa [valueAt?] using value_between [] below above

theorem put_behind {samples : List Sample}
    (below : ∀ other ∈ samples, other.timestamp < sample.timestamp) :
    put samples sample = samples ++ [sample] ∧ valueAt? samples sample.timestamp = none := by
  have above : ∀ other ∈ ([] : List Sample), sample.timestamp < other.timestamp :=
    fun _ member => absurd member List.not_mem_nil
  have ended := put_absent below above
  have free := value_absent below above
  rw [List.append_nil] at ended free
  exact ⟨ended, free⟩

theorem put_present {present : Sample} (same : present.timestamp = sample.timestamp)
    (below : ∀ other ∈ before, other.timestamp < sample.timestamp)
    (above : ∀ other ∈ after, sample.timestamp < other.timestamp) :
    put (before ++ present :: after) sample = before ++ sample :: after := by
  have alone : put [present] sample = [sample] := by simp [put, same]
  have placed := put_between [present] sample below above
  rw [alone] at placed
  simpa using placed

theorem value_present {present : Sample} {timestamp : Timestamp}
    (same : present.timestamp = timestamp)
    (below : ∀ other ∈ before, other.timestamp < timestamp)
    (above : ∀ other ∈ after, timestamp < other.timestamp) :
    valueAt? (before ++ present :: after) timestamp = some present.value := by
  have found := value_between [present] below above
  simpa [valueAt?, same] using found

end Place

theorem le_last_of_increasing {samples : List Sample} {sample newest : Sample}
    (increasing : Increasing samples) (ended : samples.getLast? = some newest)
    (member : sample ∈ samples) : sample.timestamp ≤ newest.timestamp := by
  obtain ⟨front, parts⟩ := List.getLast?_eq_some_iff.mp ended
  rw [parts] at increasing member
  rcases List.mem_append.mp member with early | last
  · have across := (List.pairwise_append.mp increasing).2.2
    exact UInt64.le_of_lt (across sample early newest (List.mem_singleton_self _))
  · exact List.mem_singleton.mp last ▸ UInt64.le_refl _

theorem increasing_put {samples : List Sample} (increasing : Increasing samples)
    (sample : Sample) : Increasing (put samples sample) := by
  refine List.pairwise_append.mpr ⟨increasing.sublist List.filter_sublist,
    List.pairwise_cons.mpr ⟨?_, increasing.sublist List.filter_sublist⟩, ?_⟩
  · intro later member
    simpa using (List.mem_filter.mp member).2
  · intro earlier early later late
    have before : earlier.timestamp < sample.timestamp := by
      simpa using (List.mem_filter.mp early).2
    rcases List.mem_cons.mp late with rfl | after
    · exact before
    · exact UInt64.lt_trans before (by simpa using (List.mem_filter.mp after).2)

theorem put_ne_nil (samples : List Sample) (sample : Sample) : put samples sample ≠ [] := by
  simp [put]

/-- A timestamp has a place in every timeline: between two samples, or at one. -/
theorem exists_place {samples : List Sample} (increasing : Increasing samples)
    (timestamp : Timestamp) :
    ∃ before here after, samples = before ++ here ++ after ∧
      (∀ other ∈ before, other.timestamp < timestamp) ∧
      (∀ other ∈ after, timestamp < other.timestamp) ∧
      (here = [] ∨ ∃ present, here = [present] ∧ present.timestamp = timestamp) := by
  induction samples with
  | nil => exact ⟨[], [], [], by simp⟩
  | cons sample later ih =>
      obtain ⟨beyond, increasingLater⟩ := List.pairwise_cons.mp increasing
      by_cases early : sample.timestamp < timestamp
      · obtain ⟨before, here, after, parts, below, above, shape⟩ := ih increasingLater
        refine ⟨sample :: before, here, after, by simp [parts], ?_, above, shape⟩
        intro other member
        rcases List.mem_cons.mp member with rfl | rest
        · exact early
        · exact below other rest
      by_cases same : sample.timestamp = timestamp
      · refine ⟨[], [sample], later, rfl, by simp, ?_, Or.inr ⟨sample, rfl, same⟩⟩
        intro other member
        exact same ▸ beyond other member
      · have late : timestamp < sample.timestamp :=
          UInt64.lt_of_le_of_ne (UInt64.not_lt.mp early) (Ne.symm same)
        refine ⟨[], [], sample :: later, rfl, by simp, ?_, Or.inl rfl⟩
        intro other member
        rcases List.mem_cons.mp member with rfl | rest
        · exact late
        · exact UInt64.lt_trans late (beyond other rest)

theorem length_put {samples : List Sample} (increasing : Increasing samples) (sample : Sample) :
    (put samples sample).length =
      samples.length + (if valueAt? samples sample.timestamp = none then 1 else 0) := by
  obtain ⟨before, here, after, rfl, below, above, shape⟩ :=
    exists_place increasing sample.timestamp
  rcases shape with rfl | ⟨present, rfl, same⟩
  · rw [List.append_nil, put_absent below above, value_absent below above]
    simp [Nat.add_assoc]
  · rw [List.append_assoc, List.singleton_append, put_present same below above,
      value_present same below above]
    simp

theorem getLast?_put_before {front : List Sample} {newest sample : Sample}
    (early : sample.timestamp < newest.timestamp) :
    (put (front ++ [newest]) sample).getLast? = some newest := by
  have kept : [newest].filter (fun other => sample.timestamp < other.timestamp) = [newest] :=
    List.filter_eq_self.mpr (by simpa using early)
  simp only [put, List.filter_append, kept]
  rw [← List.cons_append, ← List.append_assoc, List.getLast?_concat]

theorem getLast?_put_end {samples : List Sample} {sample : Sample}
    (reached : ∀ other ∈ samples, other.timestamp ≤ sample.timestamp) :
    (put samples sample).getLast? = some sample := by
  have none : samples.filter (fun other => sample.timestamp < other.timestamp) = [] := by
    refine List.filter_eq_nil_iff.mpr fun other member => ?_
    simpa using reached other member
  rw [put, none, List.getLast?_concat]

/-- A put at or before the end does not move the end. -/
theorem last_moment_put {samples : List Sample} {sample newest : Sample}
    (increasing : Increasing samples) (ended : samples.getLast? = some newest)
    (reached : sample.timestamp ≤ newest.timestamp) :
    ∃ final, (put samples sample).getLast? = some final ∧
      final.timestamp = newest.timestamp := by
  rcases UInt64.lt_or_eq_of_le reached with early | same
  · obtain ⟨front, rfl⟩ := List.getLast?_eq_some_iff.mp ended
    exact ⟨newest, getLast?_put_before early, rfl⟩
  · refine ⟨sample, getLast?_put_end ?_, same⟩
    intro other member
    rw [same]
    exact le_last_of_increasing increasing ended member

theorem write_absent {before after : List Sample} {sample : Sample} (policy : DuplicatePolicy)
    (below : ∀ other ∈ before, other.timestamp < sample.timestamp)
    (above : ∀ other ∈ after, sample.timestamp < other.timestamp) :
    write (before ++ after) sample policy = .ok (before ++ sample :: after, true) := by
  simp only [write, value_absent below above, put_absent below above]

theorem write_present {before after : List Sample} {present sample : Sample}
    (policy : DuplicatePolicy) (same : present.timestamp = sample.timestamp)
    (below : ∀ other ∈ before, other.timestamp < sample.timestamp)
    (above : ∀ other ∈ after, sample.timestamp < other.timestamp) :
    write (before ++ present :: after) sample policy =
      (policy.combine sample.timestamp present.value sample.value).map fun merged =>
        (before ++ ⟨sample.timestamp, merged⟩ :: after, false) := by
  have placed (merged : Value) : put (before ++ present :: after) ⟨sample.timestamp, merged⟩ =
      before ++ ⟨sample.timestamp, merged⟩ :: after := put_present same below above
  simp only [write, value_present same below above, placed]
  cases policy.combine sample.timestamp present.value sample.value <;> rfl

theorem write_refused {samples : List Sample} {sample : Sample} {policy : DuplicatePolicy}
    {reason : Error} (refused : write samples sample policy = .error reason) :
    reason = .duplicateSample sample.timestamp := by
  unfold write at refused
  split at refused
  · exact nomatch refused
  · cases policy with
    | block => exact (Except.error.inj refused).symm
    | first | last | min | max | sum => exact nomatch refused

theorem write_last (samples : List Sample) (sample : Sample) :
    write samples sample .last =
      .ok (put samples sample, (valueAt? samples sample.timestamp).isNone) := by
  unfold write
  cases valueAt? samples sample.timestamp <;> rfl

/-- What a write that is accepted leaves: one sample put in its place. -/
theorem write_ok {samples changed : List Sample} {sample : Sample} {policy : DuplicatePolicy}
    {inserted : Bool} (increasing : Increasing samples)
    (written : write samples sample policy = .ok (changed, inserted)) :
    (∃ value, changed = put samples ⟨sample.timestamp, value⟩) ∧
      changed.length = samples.length + (if inserted then 1 else 0) := by
  unfold write at written
  split at written
  · rename_i free
    obtain ⟨rfl, rfl⟩ := Prod.mk.inj (Except.ok.inj written)
    exact ⟨⟨sample.value, rfl⟩, by simp [length_put increasing, free]⟩
  · rename_i stored taken
    cases merged : policy.combine sample.timestamp stored sample.value with
    | error refused => simp [merged, bind, Except.bind] at written
    | ok value =>
        simp only [merged, bind, Except.bind] at written
        obtain ⟨rfl, rfl⟩ := Prod.mk.inj (Except.ok.inj written)
        exact ⟨⟨value, rfl⟩, by simp [length_put increasing, taken]⟩

/-- A write to part of a timeline, around which all else is earlier or later. -/
theorem write_between {before run after : List Sample} {sample : Sample}
    (policy : DuplicatePolicy)
    (below : ∀ other ∈ before, other.timestamp < sample.timestamp)
    (above : ∀ other ∈ after, sample.timestamp < other.timestamp) :
    write (before ++ run ++ after) sample policy =
      (write run sample policy).map fun (changed, inserted) =>
        (before ++ changed ++ after, inserted) := by
  unfold write
  rw [value_between run below above]
  cases valueAt? run sample.timestamp with
  | none => simp only [put_between run sample below above, Except.map]
  | some stored =>
      cases merged : policy.combine sample.timestamp stored sample.value with
      | error refused => simp [merged, bind, Except.bind, Except.map]
      | ok value =>
          have placed := put_between run ⟨sample.timestamp, value⟩ below above
          simp only [merged, bind, Except.bind, Except.map, placed]

def since (moment : Timestamp) (samples : List Sample) : List Sample :=
  samples.filter fun sample => moment ≤ sample.timestamp

section Since

variable {moment : Timestamp} {samples : List Sample} {sample : Sample}

theorem mem_since :
    sample ∈ since moment samples ↔ sample ∈ samples ∧ moment ≤ sample.timestamp := by
  rw [since, List.mem_filter, decide_eq_true_eq]

theorem since_append (front back : List Sample) :
    since moment (front ++ back) = since moment front ++ since moment back :=
  List.filter_append ..

theorem since_none (old : ∀ sample ∈ samples, sample.timestamp < moment) :
    since moment samples = [] := by
  refine List.filter_eq_nil_iff.mpr fun sample member => ?_
  simpa using old sample member

theorem since_all (recent : ∀ sample ∈ samples, moment ≤ sample.timestamp) :
    since moment samples = samples :=
  List.filter_eq_self.mpr fun sample member => by simpa using recent sample member

theorem since_since {later : Timestamp} (order : moment ≤ later) (samples : List Sample) :
    since later (since moment samples) = since later samples := by
  rw [since, since, List.filter_filter]
  apply List.filter_congr
  intro sample _
  rw [Bool.eq_iff_iff, Bool.and_eq_true, decide_eq_true_eq, decide_eq_true_eq]
  exact ⟨And.left, fun late => ⟨late, UInt64.le_trans order late⟩⟩

/-- What is missing from a moment on is what came before. -/
theorem exists_before_since (increasing : Increasing samples) (moment : Timestamp) :
    ∃ old, samples = old ++ since moment samples ∧
      ∀ sample ∈ old, sample.timestamp < moment := by
  obtain ⟨before, here, after, rfl, below, above, place⟩ := exists_place increasing moment
  refine ⟨before, ?_, below⟩
  have recent : ∀ sample ∈ here ++ after, moment ≤ sample.timestamp := by
    intro sample member
    rcases List.mem_append.mp member with present | behind
    · rcases place with rfl | ⟨one, rfl, same⟩
      · exact absurd present List.not_mem_nil
      · rw [List.mem_singleton.mp present, same]
        exact UInt64.le_refl _
    · exact UInt64.le_of_lt (above sample behind)
  rw [List.append_assoc, since_append, since_none below, since_all recent, List.nil_append]

theorem mem_put {other : Sample} (member : other ∈ put samples sample) :
    other ∈ samples ∨ other = sample := by
  rcases List.mem_append.mp member with early | rest
  · exact Or.inl (List.mem_filter.mp early).1
  · rcases List.mem_cons.mp rest with same | late
    · exact Or.inr same
    · exact Or.inl (List.mem_filter.mp late).1

theorem since_put (recent : ∀ sample ∈ samples, moment ≤ sample.timestamp)
    (inside : moment ≤ sample.timestamp) :
    since moment (put samples sample) = put samples sample := by
  apply since_all
  intro other member
  rcases mem_put member with old | rfl
  · exact recent other old
  · exact inside

end Since

end Timeline

end Chronicle

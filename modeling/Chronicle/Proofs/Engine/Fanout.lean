import Chronicle.Proofs.Compaction.Series
import Chronicle.Proofs.Engine.Creation
import Chronicle.Proofs.Engine.Lasting
import Chronicle.Proofs.Engine.Linked
import Chronicle.Proofs.Series.Twins

/-!
How far a write reaches. It changes the series that is written to, which keeps its settings and
links, and of the series that this one feeds directly the samples, each by one closed bucket at
most, stamped with the start of a bucket.
-/

namespace Chronicle

theorem bucket_start_idem (timestamp : Timestamp) (width : Duration) :
    bucketStart (bucketStart timestamp width) width = bucketStart timestamp width := by
  have whole := Nat.mod_eq_zero_of_dvd (Nat.dvd_sub_mod (n := width.toNat) timestamp.toNat)
  rw [← UInt64.toNat_inj, bucket_start_to_nat, bucket_start_to_nat, whole, Nat.sub_zero]

namespace Rule

variable {rule : Rule} {sample : Sample}

/-- That what a rule has open, if anything, begins where a bucket does. -/
def Aligned (rule : Rule) : Prop :=
  ∀ opened, rule.openBucket = some opened → bucketStart opened rule.width = opened

theorem aligned_new {destination : String} {kind : AggregationKind} {width : Duration}
    (made : Rule.new destination kind width = .ok rule) : rule.Aligned := by
  unfold Rule.new at made
  split at made
  · exact nomatch made
  · obtain rfl := Except.ok.inj made
    exact fun opened none => nomatch none

theorem aligned_take (aligned : rule.Aligned) (sample : Sample) : (rule.take sample).1.Aligned := by
  have fresh : ∀ opened, some (bucketStart sample.timestamp rule.width) = some opened →
      bucketStart opened rule.width = opened := by
    intro opened same
    rw [← Option.some.inj same, bucket_start_idem]
  unfold take
  dsimp only
  split
  · exact fresh
  · split
    · exact fresh
    · exact aligned

theorem closes {flush : Flush} (closed : (rule.take sample).2 = some flush) :
    rule.openBucket = some flush.timestamp ∧ rule.accumulator.finalize = some flush.value := by
  unfold take at closed
  dsimp only at closed
  split at closed
  · exact nomatch closed
  · rename_i opened isOpen
    split at closed
    · obtain ⟨value, worth, rfl⟩ := Option.map_eq_some_iff.mp closed
      exact ⟨isOpen, worth⟩
    · exact nomatch closed

end Rule

namespace Series

def Aligned (series : Series) : Prop := ∀ rule ∈ series.rules, rule.Aligned

theorem lasting_aligned : Lasting Aligned where
  made := by
    intro key labels policy config series made rule among
    rw [new_outcome made] at among
    exact nomatch among
  altered := fun _ aligned => aligned
  added := by
    intro series changed timestamp value override written aligned accepted
    rcases add_outcome accepted with ⟨_, _, _, _, rfl, _⟩ | ⟨_, _, _, _, rfl, _⟩
    · exact aligned
    · intro rule among
      obtain ⟨before, member, rfl⟩ := List.mem_map.mp among
      exact Rule.aligned_take (aligned before member) _
  received := by
    intro series changed timestamp value trimmed aligned accepted
    obtain ⟨store, _, rfl⟩ := append_compacted_outcome accepted
    exact aligned
  ruled := by
    intro series destination kind width rule aligned made other among
    rcases List.mem_append.mp among with old | new
    · exact aligned other old
    · rw [List.mem_singleton.mp new]
      exact Rule.aligned_new made
  struck := fun _ aligned rule among => aligned rule (List.mem_of_mem_eraseP among)
  sourced := fun _ aligned => aligned

end Series

def Series.fedBy (series : Series) (flush : Flush) : Series :=
  settled series (series.appendCompacted flush.timestamp flush.value)

theorem Series.fed_by_outcome (fed : Series) (flush : Flush) :
    fed.fedBy flush = fed ∨ ∃ store trimmed,
      fed.store.append flush.timestamp flush.value = .ok (store, trimmed) ∧
        fed.fedBy flush = { fed with store := store } := by
  unfold fedBy
  cases appended : fed.appendCompacted flush.timestamp flush.value with
  | error refused => exact Or.inl rfl
  | ok result =>
      obtain ⟨store, taken, longer⟩ := append_compacted_outcome appended
      exact Or.inr ⟨store, result.2, taken, longer⟩

namespace Session

theorem get?_delivery (source : String) (session : Session) (flush : Flush) (key : String) :
    (session.delivery source flush).engine.series.get? key =
      if flush.destination = key then (session.engine.series.get? key).map (·.fedBy flush)
      else session.engine.series.get? key := by
  by_cases here : flush.destination = key
  · subst here
    rw [if_pos rfl, delivery]
    cases present : session.engine.series.get? flush.destination with
    | none => exact present
    | some fed =>
        rw [Option.map_some, Series.fedBy]
        dsimp only
        cases fed.appendCompacted flush.timestamp flush.value with
        | error refused => exact present
        | ok result =>
            exact (SortedMap.get?_insert _ _ _ _).trans (if_pos rfl)
  · rw [if_neg here]
    have arrived := delivered source flush session
    generalize session.delivery source flush = after at arrived
    cases arrived with
    | missing | refused => rfl
    | taken => rw [received, Engine.store, SortedMap.get?_insert, if_neg (Ne.symm here)]

/-- What is delivered to a series, one after the other, is all that becomes of it. -/
theorem get?_deliveries (source : String) (flushes : List Flush) (session : Session)
    (key : String) :
    (flushes.foldl (delivery source) session).engine.series.get? key =
      (session.engine.series.get? key).map fun one =>
        (flushes.filter fun flush => flush.destination = key).foldl Series.fedBy one := by
  induction flushes generalizing session with
  | nil => exact Option.map_id'.symm
  | cons flush later ih =>
      rw [List.foldl_cons, ih, get?_delivery]
      by_cases here : flush.destination = key
      · rw [if_pos here, List.filter_cons_of_pos (by simpa using here), Option.map_map]
        rfl
      · rw [if_neg here, List.filter_cons_of_neg (by simpa using here)]

end Session

namespace Series

variable {series changed : Series} {timestamp : Timestamp} {value : Value}
  {override : Option DuplicatePolicy} {written : Written}

/-- A write closes at most one bucket of each rule. -/
theorem flushes_of_rule (distinct : series.destinations.Nodup)
    (taken : series.add timestamp value override = .ok (changed, written)) {rule : Rule}
    (among : rule ∈ series.rules) :
    written.flushes.filter (fun flush => flush.destination = rule.destination) = [] ∨
      ∃ flush, written.flushes.filter (fun flush => flush.destination = rule.destination) =
          [flush] ∧ rule.openBucket = some flush.timestamp ∧
        rule.accumulator.finalize = some flush.value := by
  rcases add_outcome taken with ⟨_, _, _, _, _, rfl⟩ | ⟨_, _, _, _, _, rfl⟩
  · exact Or.inl rfl
  · dsimp only
    rw [flushes_to distinct among]
    cases closed : (rule.take ⟨timestamp, value⟩).2 with
    | none => exact Or.inl rfl
    | some flush => exact Or.inr ⟨flush, rfl, Rule.closes closed⟩

end Series

/-- That a series is another one with a bucket behind it that a rule has had open. -/
def Rule.Extends (rule : Rule) (fed longer : Series) : Prop :=
  ∃ opened value store trimmed, rule.openBucket = some opened ∧
    bucketStart opened rule.width = opened ∧ rule.accumulator.finalize = some value ∧
    fed.store.append opened value = .ok (store, trimmed) ∧ longer = { fed with store := store }

/-- How far a write reaches: to its series, which is what the write leaves of it and keeps all but
its samples and what its rules have taken in, and to the series that these rules feed, each by
one bucket at most. -/
structure Writes (key : String) (old : Series) (outcome : Except Error (Series × Written))
    (before after : SortedMap String Series) : Prop where
  elsewhere : ∀ other, other ≠ key → other ∉ old.destinations →
    after.get? other = before.get? other
  own : after.get? key = some (Series.settled old outcome)
  continues : old.Continues (Series.settled old outcome)
  fed : ∀ rule ∈ old.rules, rule.destination ≠ key ∧
    ∃ fed, before.get? rule.destination = some fed ∧
      (after.get? rule.destination = some fed ∨
        ∃ longer, after.get? rule.destination = some longer ∧ rule.Extends fed longer)

section Writes

open Chronicle.Action

variable {session : Session} (linked : Engine.Linked session.engine.series)
  {key : String} {old : Series} (present : session.engine.series.get? key = some old)

include linked present

theorem writes_same (refused : Error) :
    Writes key old (.error refused) session.engine.series session.engine.series where
  elsewhere := fun _ _ _ => rfl
  own := present
  continues := ⟨rfl, rfl, rfl, rfl, rfl, rfl⟩
  fed := by
    intro rule among
    obtain ⟨different, fed, there, _⟩ :=
      linked.fed key old present rule.destination (List.mem_map_of_mem among)
    exact ⟨different, fed, there, Or.inl there⟩

variable (aligned : session.engine.All Series.Aligned)

include aligned

theorem writes_stored {new : Series} {timestamp : Timestamp} {value : Value}
    {override : Option DuplicatePolicy} {written : Written}
    (taken : old.add timestamp value override = .ok (new, written)) :
    Writes key old (.ok (new, written)) session.engine.series
      (written.flushes.foldl (Session.delivery key)
        (session.stored key new written)).engine.series := by
  have after := Session.get?_deliveries key written.flushes (session.stored key new written)
  have stored : ∀ other, (session.stored key new written).engine.series.get? other =
      if other = key then some new else session.engine.series.get? other :=
    fun other => SortedMap.get?_insert _ _ _ _
  have notItself : key ∉ old.destinations :=
    fun leads => (linked.fed key old present key leads).1 rfl
  constructor
  · intro other different outside
    rw [after, stored, if_neg different, Series.flushes_outside taken outside]
    exact Option.map_id'
  · rw [after, stored, if_pos rfl, Series.flushes_outside taken notItself]
    rfl
  · exact Series.continues_add taken
  · intro rule among
    obtain ⟨different, fed, there, _⟩ :=
      linked.fed key old present rule.destination (List.mem_map_of_mem among)
    refine ⟨different, fed, there, ?_⟩
    rw [after, stored, if_neg different, there, Option.map_some]
    rcases Series.flushes_of_rule (linked.distinct key old present) taken among with
      none | ⟨flush, once, opened, worth⟩
    · rw [none]
      exact Or.inl rfl
    · rw [once, List.foldl_cons, List.foldl_nil]
      rcases Series.fed_by_outcome fed flush with same | ⟨store, trimmed, taken, longer⟩
      · exact Or.inl (congrArg some same)
      · have starts := aligned key old present rule among flush.timestamp opened
        exact Or.inr ⟨_, rfl, flush.timestamp, flush.value, store, trimmed, opened, starts, worth,
          taken, longer⟩

theorem writes_write {change : Series → Except Error (Series × Written)} (adds : Adds change) :
    Writes key old (change old) session.engine.series
      ((write key change).perform session).2.engine.series := by
  rcases write_outcome key change session with ⟨absent, _⟩ | ⟨one, there, outcome⟩
  · exact nomatch absent.symm.trans present
  · obtain rfl := Option.some.inj (present.symm.trans there)
    rcases outcome with ⟨refused, rejected, failed⟩ | ⟨new, written, accepted, done⟩
    · rw [rejected, failed]
      exact writes_same linked present refused
    · obtain ⟨timestamp, value, override, taken⟩ := adds old (new, written) accepted
      rw [accepted, done]
      exact writes_stored linked present aligned taken

theorem writes_ensured (options : SeriesOptions)
    {change : Series → Except Error (Series × Written)} (adds : Adds change) :
    Writes key old (change old) session.engine.series
      ((ensure key options >>= fun _ => write key change).perform session).2.engine.series := by
  rw [perform_bind_ok (ensure_present present options)]
  exact writes_write linked present aligned adds

end Writes

end Chronicle

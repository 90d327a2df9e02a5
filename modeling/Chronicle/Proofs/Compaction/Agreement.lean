import Chronicle.Proofs.Compaction.Rule
import Chronicle.Proofs.Series.Change
import Mathlib.Data.List.ReduceOption

/-!
Rules against aggregated reads. A rule is handed its samples one at a time and lets go of a
bucket when a later one opens; a read pulls all of them and ends with the bucket that is still
open. On samples in the order of time the two keep the same bucket open, so what a rule has let
go, followed by what it still holds, is what a read of the same samples yields.
-/

namespace Chronicle

open Timeline

namespace Rule

/-- The rule behind some samples, and what it let go at each of them. -/
def takeAll (rule : Rule) : List Sample → Rule × List (Option Flush)
  | [] => (rule, [])
  | sample :: later =>
      (((rule.take sample).1.takeAll later).1,
        (rule.take sample).2 :: ((rule.take sample).1.takeAll later).2)

def held (rule : Rule) : Option Sample :=
  match rule.openBucket, rule.accumulator.finalize with
  | some opened, some value => some ⟨opened, value⟩
  | _, _ => none

/-- What a rule lets go as it takes in some samples, and then what it still holds. -/
def yield (rule : Rule) (samples : List Sample) : List Sample :=
  (rule.takeAll samples).2.reduceOption.map Flush.sample ++
    (rule.takeAll samples).1.held.toList

theorem yield_cons (rule : Rule) (sample : Sample) (later : List Sample) :
    rule.yield (sample :: later) =
      (rule.take sample).2.toList.map Flush.sample ++ (rule.take sample).1.yield later := by
  unfold yield
  rw [takeAll]
  cases (rule.take sample).2 with
  | none => rw [List.reduceOption_cons_of_none]; rfl
  | some flush => rw [List.reduceOption_cons_of_some]; rfl

theorem length_take_all (rule : Rule) (samples : List Sample) :
    (rule.takeAll samples).2.length = samples.length := by
  induction samples generalizing rule with
  | nil => rfl
  | cons sample later ih => exact congrArg (· + 1) (ih _)

theorem take_keeps (rule : Rule) (sample : Sample) :
    (rule.take sample).1.destination = rule.destination ∧
      (rule.take sample).1.kind = rule.kind ∧ (rule.take sample).1.width = rule.width := by
  have same := Prod.mk.inj (outline_take rule sample)
  exact ⟨same.1, Prod.mk.inj same.2⟩

theorem destination_take_all {rule : Rule} {samples : List Sample} {flush : Flush}
    (released : some flush ∈ (rule.takeAll samples).2) :
    flush.destination = rule.destination := by
  induction samples generalizing rule with
  | nil => exact absurd released List.not_mem_nil
  | cons sample later ih =>
      rcases List.mem_cons.mp released with here | behind
      · exact destination_flush here.symm
      · exact (ih behind).trans (take_keeps rule sample).1

/-- That a rule has the same bucket open as a read, with the same state of its aggregate. -/
structure Opens (rule : Rule) (bucket : OpenBucket) : Prop where
  start : rule.openBucket = some bucket.start
  aggregate : rule.accumulator = bucket.accumulator
  kind : bucket.accumulator.kind = rule.kind
  begun : bucket.accumulator.Begun
  multiple : rule.width.toNat ∣ bucket.start.toNat

section Step

variable {rule : Rule} {bucket : OpenBucket} {sample : Sample}

/-- The open bucket of a read is worth something. -/
theorem held_opens (opens : rule.Opens bucket) :
    ∃ value, bucket.accumulator.finalize = some value ∧
      bucket.close = [⟨bucket.start, value⟩] ∧ rule.held = some ⟨bucket.start, value⟩ := by
  obtain ⟨value, worth⟩ := Accumulator.finalize_begun opens.begun
  refine ⟨value, worth, ?_, ?_⟩
  · rw [OpenBucket.close, worth]
  · rw [held, opens.start, opens.aggregate, worth]

theorem opens_of_sample (sample : Sample) (destination : String) (kind : AggregationKind)
    (width : Duration) (accumulator : Accumulator Value)
    (made : accumulator = (Accumulator.new kind).append sample.value) :
    Opens ⟨destination, kind, width, accumulator, some (bucketStart sample.timestamp width)⟩
      (.ofSample kind width sample) where
  start := rfl
  aggregate := made
  kind := (Accumulator.kind_append _ _).trans (Accumulator.kind_new kind)
  begun := Accumulator.begun_new kind sample.value
  multiple := by
    change width.toNat ∣ (bucketStart sample.timestamp width).toNat
    rw [bucket_start_to_nat]
    exact Nat.dvd_sub_mod _

theorem take_first (unopened : rule.openBucket = none)
    (empty : rule.accumulator = .new rule.kind) (sample : Sample) :
    (rule.take sample).2 = none ∧
      (rule.take sample).1.Opens (.ofSample rule.kind rule.width sample) := by
  rw [take, unopened]
  exact ⟨rfl, opens_of_sample sample _ _ _ _ (by rw [empty])⟩

theorem take_same (opens : rule.Opens bucket)
    (same : bucketStart sample.timestamp rule.width = bucket.start) :
    (rule.take sample).2 = none ∧ (rule.take sample).1.Opens (bucket.take sample.value) := by
  have still : ¬ bucket.start < bucketStart sample.timestamp rule.width :=
    same ▸ UInt64.lt_irrefl _
  have kind : (bucket.accumulator.append sample.value).kind = rule.kind :=
    (Accumulator.kind_append _ _).trans opens.kind
  rw [take, opens.start]
  dsimp only
  rw [if_neg still]
  refine ⟨rfl, rfl, ?_, kind, Accumulator.begun_append opens.begun _, opens.multiple⟩
  exact congrArg (Accumulator.append · sample.value) opens.aggregate

theorem take_later (opens : rule.Opens bucket)
    (later : bucket.start < bucketStart sample.timestamp rule.width) :
    (rule.take sample).2.toList.map Flush.sample = bucket.close ∧
      (rule.take sample).1.Opens (.ofSample rule.kind rule.width sample) := by
  obtain ⟨value, worth, close, _⟩ := held_opens opens
  rw [take, opens.start]
  dsimp only
  rw [if_pos later]
  constructor
  · rw [flush, opens.aggregate, worth, close]
    rfl
  · refine opens_of_sample sample _ _ _ _ ?_
    rw [Accumulator.reset, opens.aggregate, opens.kind]

end Step

/-- That a rule and a read have the same bucket open, and that the samples still to come are in
the order of time and none of them lies before that bucket. -/
structure Awaits (rule : Rule) (bucket : OpenBucket) (samples : List Sample) : Prop where
  opens : rule.Opens bucket
  ahead : ∀ one ∈ samples, bucket.start ≤ bucketStart one.timestamp rule.width
  ordered : samples.Pairwise (·.timestamp ≤ ·.timestamp)

section Run

variable {rule : Rule} {bucket : OpenBucket} {sample : Sample} {samples later : List Sample}

theorem awaits_of_sample (opens : rule.Opens (.ofSample rule.kind rule.width sample))
    (ordered : (sample :: later).Pairwise (·.timestamp ≤ ·.timestamp)) :
    rule.Awaits (.ofSample rule.kind rule.width sample) later where
  opens := opens
  ahead := fun one member =>
    bucket_start_mono rule.width ((List.pairwise_cons.mp ordered).1 one member)
  ordered := (List.pairwise_cons.mp ordered).2

/-- One sample: either it falls into the open bucket, or it opens a later one and the rule lets
go of what the read yields. -/
theorem awaits_take (awaits : rule.Awaits bucket (sample :: later)) :
    (bucketStart sample.timestamp rule.width = bucket.start ∧ (rule.take sample).2 = none ∧
      (rule.take sample).1.Awaits (bucket.take sample.value) later) ∨
    (bucket.start < bucketStart sample.timestamp rule.width ∧
      (rule.take sample).2.toList.map Flush.sample = bucket.close ∧
      (rule.take sample).1.Awaits (.ofSample rule.kind rule.width sample) later) := by
  obtain ⟨_, kind, width⟩ := take_keeps rule sample
  by_cases same : bucketStart sample.timestamp rule.width = bucket.start
  · obtain ⟨silent, opens⟩ := take_same awaits.opens same
    refine Or.inl ⟨same, silent, opens, ?_, (List.pairwise_cons.mp awaits.ordered).2⟩
    rw [width]
    exact fun one member => awaits.ahead one (List.mem_cons_of_mem _ member)
  · have behind := UInt64.lt_of_le_of_ne (awaits.ahead sample List.mem_cons_self) (Ne.symm same)
    obtain ⟨closed, opens⟩ := take_later awaits.opens behind
    refine Or.inr ⟨behind, closed, ?_⟩
    rw [← kind, ← width] at opens ⊢
    exact awaits_of_sample opens awaits.ordered

theorem yield_awaits (awaits : rule.Awaits bucket samples) :
    Feed.aggregateInto rule.kind rule.width bucket (samples.map .ok) =
      (rule.yield samples).map .ok := by
  induction samples generalizing rule bucket with
  | nil =>
      obtain ⟨value, _, close, still⟩ := held_opens awaits.opens
      change bucket.close.map _ = _
      rw [close, yield, takeAll, still]
      rfl
  | cons sample later ih =>
      obtain ⟨_, kind, width⟩ := take_keeps rule sample
      rw [yield_cons, List.map_cons, Feed.aggregateInto, List.map_append]
      rcases awaits_take awaits with ⟨same, silent, after⟩ | ⟨behind, closed, after⟩
      · have agrees := ih after
        rw [kind, width] at agrees
        rw [if_pos same, silent, agrees]
        rfl
      · have agrees := ih after
        rw [kind, width] at agrees
        rw [if_neg (UInt64.ne_of_lt behind).symm, closed, agrees]

/-- What is yielded starts no earlier than with the open bucket and goes on in the order of
buckets. -/
theorem yield_increasing (awaits : rule.Awaits bucket samples) :
    Increasing (rule.yield samples) ∧ ∀ one ∈ rule.yield samples,
      bucket.start ≤ one.timestamp ∧ rule.width.toNat ∣ one.timestamp.toNat := by
  induction samples generalizing rule bucket with
  | nil =>
      obtain ⟨value, _, _, still⟩ := held_opens awaits.opens
      rw [yield, takeAll, still]
      refine ⟨List.pairwise_singleton _ _, fun one member => ?_⟩
      rw [List.mem_singleton.mp member]
      exact ⟨UInt64.le_refl _, awaits.opens.multiple⟩
  | cons sample later ih =>
      have width := (take_keeps rule sample).2.2
      rw [yield_cons]
      rcases awaits_take awaits with ⟨_, silent, after⟩ | ⟨behind, closed, after⟩
      · have rest := ih after
        rw [width] at rest
        rw [silent]
        exact rest
      · obtain ⟨increasing, later⟩ := ih after
        rw [width] at later
        obtain ⟨value, _, close, _⟩ := held_opens awaits.opens
        rw [closed, close]
        -- the bucket that closes lies before the one that opens, and so before all that follows
        refine ⟨List.pairwise_cons.mpr ⟨fun one member => ?_, increasing⟩, fun one member => ?_⟩
        · exact UInt64.lt_of_lt_of_le behind (later one member).1
        · rcases List.mem_cons.mp member with rfl | among
          · exact ⟨UInt64.le_refl _, awaits.opens.multiple⟩
          · obtain ⟨reached, multiple⟩ := later one among
            exact ⟨UInt64.le_trans (UInt64.le_of_lt behind) reached, multiple⟩

theorem held_awaits (awaits : rule.Awaits bucket samples) :
    ∃ opened value, (rule.takeAll samples).1.openBucket = some opened ∧
      (rule.takeAll samples).1.accumulator.finalize = some value := by
  induction samples generalizing rule bucket with
  | nil =>
      obtain ⟨value, worth, _, _⟩ := held_opens awaits.opens
      rw [← awaits.opens.aggregate] at worth
      exact ⟨bucket.start, value, awaits.opens.start, worth⟩
  | cons sample later ih =>
      rcases awaits_take awaits with ⟨_, _, after⟩ | ⟨_, _, after⟩
      · exact ih after
      · exact ih after

end Run

theorem awaits_new {destination : String} {kind : AggregationKind} {width : Duration} {rule : Rule}
    (made : Rule.new destination kind width = .ok rule) {sample : Sample} {later : List Sample}
    (ordered : (sample :: later).Pairwise (·.timestamp ≤ ·.timestamp)) :
    (rule.take sample).2 = none ∧
      (rule.take sample).1.Awaits (.ofSample kind width sample) later := by
  obtain ⟨_, rfl, rfl, tracks⟩ := tracks_new made
  obtain ⟨_, unopened, empty⟩ := tracks.idle rfl
  obtain ⟨silent, opens⟩ := take_first unopened empty sample
  obtain ⟨_, kind, width⟩ := take_keeps rule sample
  refine ⟨silent, ?_⟩
  rw [← kind, ← width] at opens ⊢
  exact awaits_of_sample opens ordered

/-- A rule that takes in samples in the order of time lets go at most one aggregate at each of
them. All of these, and then the bucket that is still open, are what a read aggregates from the
same samples. They are in the order of buckets, and a bucket is open at the end unless there
was no sample. -/
theorem agrees_with_read (destination : String) (kind : AggregationKind) (width : Duration)
    (wide : width ≠ 0) (samples : List Sample)
    (ordered : samples.Pairwise (·.timestamp ≤ ·.timestamp)) :
    ∃ rule after released, Rule.new destination kind width = .ok rule ∧
      rule.takeAll samples = (after, released) ∧ released.length = samples.length ∧
      ((samples = [] ∧ after.openBucket = none ∧ released = [] ∧
          Feed.aggregate kind width false (samples.map .ok) = []) ∨
        ∃ opened value, samples ≠ [] ∧ after.openBucket = some opened ∧
          after.accumulator.finalize = some value ∧
          Feed.aggregate kind width false (samples.map .ok) =
            (released.reduceOption.map Flush.sample ++ [Sample.mk opened value]).map .ok) ∧
      (released.reduceOption.map Flush.timestamp).Pairwise (· < ·) ∧
      ∀ flush ∈ released.reduceOption,
        flush.destination = destination ∧ width.toNat ∣ flush.timestamp.toNat := by
  have made : ∃ rule, Rule.new destination kind width = .ok rule := by
    unfold Rule.new
    rw [if_neg wide]
    exact ⟨_, rfl⟩
  obtain ⟨rule, made⟩ := made
  obtain ⟨named, kinded, widened, tracks⟩ := tracks_new made
  refine ⟨rule, _, _, made, rfl, length_take_all rule samples, ?_⟩
  cases samples with
  | nil =>
      refine ⟨Or.inl ⟨rfl, (tracks.idle rfl).2.1, rfl, rfl⟩, List.Pairwise.nil, ?_⟩
      exact fun flush member => absurd member List.not_mem_nil
  | cons sample later =>
      obtain ⟨silent, awaits⟩ := awaits_new made ordered
      obtain ⟨_, sameKind, sameWidth⟩ := take_keeps rule sample
      obtain ⟨opened, value, isOpen, worth⟩ := held_awaits awaits
      obtain ⟨increasing, placed⟩ := yield_increasing awaits
      have read := yield_awaits awaits
      have still : ((rule.take sample).1.takeAll later).1.held = some ⟨opened, value⟩ := by
        rw [held, isOpen, worth]
      have released : (rule.takeAll (sample :: later)).2.reduceOption =
          ((rule.take sample).1.takeAll later).2.reduceOption := by
        rw [takeAll, silent, List.reduceOption_cons_of_none]
      rw [sameKind, sameWidth, kinded, widened] at read
      rw [sameWidth, widened] at placed
      rw [yield, still, Option.toList_some] at read increasing placed
      rw [released]
      refine ⟨Or.inr ⟨opened, value, List.cons_ne_nil _ _, isOpen, worth, ?_⟩, ?_, ?_⟩
      · rw [← read, List.map_cons, Feed.aggregate]
        rw [if_neg wide, if_neg Bool.false_ne_true]
      · have closed := (List.pairwise_append.mp increasing).1
        rw [List.pairwise_map] at closed ⊢
        exact closed
      · intro flush member
        have given : some flush ∈ (rule.takeAll (sample :: later)).2 :=
          List.reduceOption_mem_iff.mp (released ▸ member)
        refine ⟨(destination_take_all given).trans named, (placed flush.sample ?_).2⟩
        exact List.mem_append_left _ (List.mem_map_of_mem member)

/-- Readings with two at one moment, a bucket of several and a gap of buckets without any. -/
def gapped : List Sample := [⟨3, ⟨1⟩⟩, ⟨3, ⟨9⟩⟩, ⟨8, ⟨4⟩⟩, ⟨12, ⟨2⟩⟩, ⟨47, ⟨5⟩⟩, ⟨49, ⟨3⟩⟩]

theorem agrees_with_read_gapped :
    ∃ rule after released, Rule.new "b" .max 10 = .ok rule ∧
      rule.takeAll gapped = (after, released) ∧ released.length = gapped.length ∧
      ((gapped = [] ∧ after.openBucket = none ∧ released = [] ∧
          Feed.aggregate .max 10 false (gapped.map .ok) = []) ∨
        ∃ opened value, gapped ≠ [] ∧ after.openBucket = some opened ∧
          after.accumulator.finalize = some value ∧
          Feed.aggregate .max 10 false (gapped.map .ok) =
            (released.reduceOption.map Flush.sample ++ [Sample.mk opened value]).map .ok) ∧
      (released.reduceOption.map Flush.timestamp).Pairwise (· < ·) ∧
      ∀ flush ∈ released.reduceOption,
        flush.destination = "b" ∧ (10 : Duration).toNat ∣ flush.timestamp.toNat :=
  agrees_with_read "b" .max 10 (by decide) gapped (by decide)

end Rule

end Chronicle

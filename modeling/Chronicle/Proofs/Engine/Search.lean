import Chronicle.Proofs.Engine.Coherence

/-!
Queries of the label index after any run. The run may take in series from blobs and from the
snapshots that it finds or writes; what a query answers depends on the labels of the series
that are there in the end and on nothing else.
-/

namespace Chronicle

/-- That a snapshot, if an operation takes one, is one that words can hold. -/
def Operation.Storable : Operation → Session → Prop
  | .snapshot _, session => Snapshot.Storable session.engine.series.values
  | _, _ => True

namespace Session

variable {session after : Session} {accepted : List Accepted}

/-- That the index of the engine is right, and would be after a snapshot is restored. -/
structure Coherent (session : Session) : Prop where
  engine : session.engine.Coherent
  snapshots : session.directory.Distinct

theorem coherent_stored (coherent : session.Coherent) {key : String} {old new : Series}
    (present : session.engine.series.get? key = some old) (continues : old.Continues new)
    (written : Written) : (session.stored key new written).Coherent where
  engine := Engine.coherent_store coherent.engine present continues.key continues.labels
  snapshots := coherent.snapshots

theorem coherent_delivered {source : String} {flush : Flush}
    (delivered : session.Delivered source flush after) (coherent : session.Coherent) :
    after.Coherent := by
  cases delivered with
  | missing | refused => exact ⟨coherent.engine, coherent.snapshots⟩
  | taken present appended =>
      have continues := Series.continues_append_compacted appended
      exact ⟨Engine.coherent_store coherent.engine present continues.key continues.labels,
        coherent.snapshots⟩

theorem coherent_enrolled (coherent : session.Coherent) {series : Series}
    (free : session.engine.series.get? series.key = none) :
    (session.enrolled series).Coherent where
  engine := Engine.coherent_enroll coherent.engine free
  snapshots := coherent.snapshots

theorem coherent_grow (grow : Grow session accepted after) (coherent : session.Coherent) :
    after.Coherent := by
  cases grow with
  | rejected | answered | vanished => exact ⟨coherent.engine, coherent.snapshots⟩
  | created free made => exact coherent_enrolled coherent free
  | @fed source _ fed _ _ rule present unfed free _ _ made ruled =>
      have entered := coherent_enrolled coherent free
      exact ⟨Engine.coherent_link entered.engine source rule, entered.snapshots⟩
  | @wrote key old new _ _ _ written present taken =>
      have stored := coherent_stored coherent present (Series.continues_add taken) written
      exact deliveries_keep coherent_delivered written.flushes stored

theorem coherent_altered (coherent : session.Coherent) {key : String} {alteration : Alteration}
    {old new : Series} (present : session.engine.series.get? key = some old)
    (taken : old.alter alteration = .ok new) :
    (session.altered key alteration old new).Coherent := by
  have sameKey : new.key = old.key := by rw [Series.alter_outcome taken, Series.altered]
  refine ⟨?_, coherent.snapshots⟩
  unfold Session.altered
  dsimp only
  split
  · exact Engine.coherent_refiled coherent.engine present sameKey
  · -- where the labels are not filed anew, none were given or they are the old ones
    rename_i kept
    have sameLabels : new.labels = old.labels := by
      rw [Series.alter_outcome taken, Series.altered] at kept ⊢
      cases given : alteration.labels with
      | none => rfl
      | some labels => simpa [given] using kept
    exact Engine.coherent_store coherent.engine present sameKey sameLabels

theorem coherent_outcome {operation : Operation} (outcome : Outcome session operation after)
    (storable : operation.Storable session) (coherent : session.Coherent) : after.Coherent := by
  cases outcome with
  | same => exact coherent
  | grown grows growth => exact growth.keeps coherent_grow coherent
  | altered present taken => exact coherent_altered coherent present taken
  | @removed _ key gone removes present =>
      have dismissed := Engine.coherent_dismiss coherent.engine present
      exact ⟨Engine.coherent_unlink dismissed key gone, coherent.snapshots⟩
  | linked different present unfed presentFed unfedFed ruled =>
      exact ⟨Engine.coherent_link coherent.engine _ _, coherent.snapshots⟩
  | cut => exact ⟨Engine.coherent_cut coherent.engine _ _, coherent.snapshots⟩
  | loaded read free => exact coherent_enrolled coherent free
  | saved timestamp =>
      refine ⟨coherent.engine, Directory.distinct_prune ?_ _⟩
      exact Directory.distinct_add_snapshot coherent.snapshots storable
        (Engine.distinct_values coherent.engine.named) timestamp
  | restored read =>
      have distinct := Directory.distinct_newest coherent.snapshots read
      exact ⟨Engine.coherent_replace_all session.engine distinct, coherent.snapshots⟩

def Restorable : List Operation → Session → Prop
  | [], _ => True
  | operation :: later, session =>
      operation.Storable session ∧ Restorable later (session.step operation)

theorem coherent_run {operations : List Operation} (restorable : Restorable operations session)
    (coherent : session.Coherent) : (session.run operations).Coherent := by
  induction operations generalizing session with
  | nil => exact coherent
  | cons operation later ih =>
      obtain ⟨storable, rest⟩ := restorable
      exact ih rest (coherent_outcome (outcome operation session) storable coherent)

/-- The sessions that an engine comes to in some run. The snapshots that it finds at first
hold no two series with one key, as all that an engine has written do. -/
def Reached (session : Session) : Prop :=
  ∃ config directory operations, Directory.Distinct directory ∧
    Restorable operations (fresh config directory) ∧
    session = (fresh config directory).run operations

theorem coherent_reached (reached : session.Reached) : session.Coherent := by
  obtain ⟨config, directory, operations, distinct, restorable, rfl⟩ := reached
  exact coherent_run restorable ⟨Engine.coherent_empty config, distinct⟩

end Session

namespace Engine

variable {engine : Engine}

theorem size_index (coherent : engine.Coherent) : engine.index.size = engine.series.size := by
  have same : engine.index.keys.keys = engine.series.keys := by
    apply SortedMap.keys_eq_of_contains
    intro key
    rw [coherent.filed.keys, labels, Option.isSome_map]
    rfl
  rw [LabelIndex.size, ← SortedMap.length_keys, ← SortedMap.length_keys, same]

end Engine

namespace Action

variable {session : Session} {filters : List Predicate}

theorem perform_query_index_error {refused : Error}
    (failed : session.engine.index.resolve filters = .error refused) :
    (queryIndex filters).perform session = (.error refused, session) := by
  have resolved := perform_of_except (session.engine.index.resolve filters) session
  rw [failed] at resolved
  rw [queryIndex, perform_bind_ok (perform_engine session), failed, perform_bind_error resolved]

theorem perform_query_index_ok {keys : KeySet}
    (found : session.engine.index.resolve filters = .ok keys) :
    (queryIndex filters).perform session = (.ok keys.keys, session) := by
  have resolved := perform_of_except (session.engine.index.resolve filters) session
  rw [found] at resolved
  rw [queryIndex, perform_bind_ok (perform_engine session), found, perform_bind_ok resolved]
  rfl

/-- Where a predicate is positive, a query gives the keys, in increasing order, of the series
whose labels satisfy all predicates. -/
theorem query_index_positive (coherent : session.engine.Coherent)
    (positive : filters.any Predicate.isPositive = true) :
    ∃ keys, (queryIndex filters).perform session = (.ok keys, session) ∧
      keys.Pairwise (· < ·) ∧ ∀ key, key ∈ keys ↔
        ∃ own, session.engine.labels key = some own ∧
          ∀ predicate ∈ filters, predicate.holds own = true := by
  obtain ⟨keys, found, exact⟩ := LabelIndex.resolve_exact coherent.filed positive
  refine ⟨keys.keys, perform_query_index_ok found, ?_, ?_⟩
  · exact keys.keys_increasing.imp compareOfLessAndEq_eq_lt.mp
  · intro key
    rw [SortedMap.mem_keys_iff, exact]

theorem query_index_congr {other : Session} {others : List Predicate}
    (coherent : session.engine.Coherent) (coherentOther : other.engine.Coherent)
    (labels : ∀ key, other.engine.labels key = session.engine.labels key)
    (same : ∀ predicate, predicate ∈ others ↔ predicate ∈ filters) :
    ((queryIndex others).perform other).1 = ((queryIndex filters).perform session).1 := by
  have positives : others.any Predicate.isPositive = filters.any Predicate.isPositive := by
    rw [Bool.eq_iff_iff, List.any_eq_true, List.any_eq_true]
    simp only [same]
  cases positive : filters.any Predicate.isPositive with
  | false =>
      rw [perform_query_index_error (LabelIndex.resolve_none _ positive),
        perform_query_index_error (LabelIndex.resolve_none _ (positives.trans positive))]
  | true =>
      obtain ⟨keys, found, increasing, exact⟩ := query_index_positive coherent positive
      obtain ⟨otherKeys, otherFound, otherIncreasing, otherExact⟩ :=
        query_index_positive coherentOther (positives.trans positive)
      rw [found, otherFound]
      refine congrArg Except.ok (otherIncreasing.eq_of_mem_iff increasing fun key => ?_)
      rw [exact, otherExact, labels]
      simp only [same]

end Action

namespace Session

/-- In every session that is reached, a query by predicates of which one is positive gives, in
increasing order, exactly the keys of the series whose labels satisfy all of them; the index
has as many keys as there are series; and sessions whose series have the same labels answer
the same predicates in the same way, however they came about. -/
theorem query_index_exact (session : Session) (reached : session.Reached) :
    (∀ filters, filters.any Predicate.isPositive = true →
      ∃ keys, (Action.queryIndex filters).perform session = (.ok keys, session) ∧
        keys.Pairwise (· < ·) ∧ ∀ key, key ∈ keys ↔
          ∃ series, session.engine.series.get? key = some series ∧
            ∀ predicate ∈ filters, predicate.holds series.labels = true) ∧
    (∀ filters, filters.any Predicate.isPositive = false →
      (Action.queryIndex filters).perform session = (.error .noMatchers, session)) ∧
    session.engine.index.size = session.engine.series.size ∧
    ∀ other : Session, other.Reached →
      (∀ key, other.engine.labels key = session.engine.labels key) →
      ∀ filters others, (∀ predicate, predicate ∈ others ↔ predicate ∈ filters) →
        ((Action.queryIndex others).perform other).1 =
          ((Action.queryIndex filters).perform session).1 := by
  have coherent := (coherent_reached reached).engine
  refine ⟨?_, ?_, Engine.size_index coherent, ?_⟩
  · intro filters positive
    obtain ⟨keys, found, increasing, exact⟩ := Action.query_index_positive coherent positive
    refine ⟨keys, found, increasing, fun key => ?_⟩
    rw [exact, Engine.labels]
    constructor
    · rintro ⟨own, filed, all⟩
      obtain ⟨series, present, rfl⟩ := Option.map_eq_some_iff.mp filed
      exact ⟨series, present, all⟩
    · rintro ⟨series, present, all⟩
      exact ⟨series.labels, by rw [present, Option.map_some], all⟩
  · intro filters negative
    exact Action.perform_query_index_error (LabelIndex.resolve_none _ negative)
  · intro other reachedOther labels filters others same
    exact Action.query_index_congr coherent (coherent_reached reachedOther).engine labels same

/-- Two series, of which one is filed under another label and one is deleted before both come
back from a snapshot. -/
def resurrected : List Operation :=
  [.request (.create "a" { SeriesOptions.none with labels := .ofList [("room", "kitchen")] }),
    .request (.create "b"
      { SeriesOptions.none with labels := .ofList [("floor", "1"), ("room", "kitchen")] }),
    .snapshot 7, .request (.alter "a" ⟨none, none, none, some (.ofList [("room", "hall")])⟩),
    .request (.delete "b"), .restore]

def resurrection : Session :=
  (fresh { EngineConfig.default with snapshotsEnabled := true } ∅).run resurrected

theorem reached_resurrection : resurrection.Reached := by
  have small : ∀ one ∈ ((fresh { EngineConfig.default with snapshotsEnabled := true } ∅).run
      (resurrected.take 2)).engine.series.values,
      (Series.format.write one).length < UInt64.size ∧
        one.store.config.chunkSize < UInt64.size ∧ one.counters = [0] := by
    decide +kernel
  refine ⟨_, ∅, resurrected, SortedMap.every_empty, ?_, rfl⟩
  refine ⟨trivial, trivial, ⟨?_, ?_⟩, trivial, trivial, trivial, trivial⟩
  · intro one member
    obtain ⟨size, budget, counters⟩ := small one member
    refine ⟨size, budget, fun counter among => ?_⟩
    rw [counters, List.mem_singleton] at among
    exact ⟨0, among⟩
  · decide +kernel

theorem query_index_resurrection :
    resurrection.Reached ∧
      ∃ keys, (Action.queryIndex [.oneOf "room" ["kitchen"], .equal "floor" ""]).perform
          resurrection = (.ok keys, resurrection) ∧
        keys.Pairwise (· < ·) ∧ ∀ key, key ∈ keys ↔
          ∃ series, resurrection.engine.series.get? key = some series ∧
            ∀ predicate ∈ [Predicate.oneOf "room" ["kitchen"], .equal "floor" ""],
              predicate.holds series.labels = true :=
  ⟨reached_resurrection, (query_index_exact resurrection reached_resurrection).1 _ rfl⟩

end Session

end Chronicle

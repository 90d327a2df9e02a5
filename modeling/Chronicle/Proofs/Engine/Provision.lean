import Chronicle.Proofs.Engine.Atomic
import Chronicle.Proofs.Engine.Fanout

/-!
What a series that is created on demand brings with it: a rule for each policy that gets its
destination, in the order of the policies, these destinations, and nothing else.
-/

namespace Chronicle

open Policy

theorem Series.add_first {series : Series} {config : StoreConfig}
    (fresh : series.store = .new config)
    (unopened : ∀ rule ∈ series.rules, rule.openBucket = none) (timestamp : Timestamp)
    (value : Value) (override : Option DuplicatePolicy) :
    ∃ changed written, series.add timestamp value override = .ok (changed, written) ∧
      written.timestamp = timestamp ∧ written.flushes = [] ∧ series.Continues changed ∧
      changed.store.contents = .ok [⟨timestamp, value⟩] := by
  have empty : series.store.isEmpty = true := by rw [fresh]; rfl
  obtain ⟨changed, written, accepted, stamped⟩ :=
    add_to_empty empty timestamp value override
  refine ⟨changed, written, accepted, stamped, ?_, continues_add accepted, ?_⟩
  · rcases add_outcome accepted with ⟨_, _, _, _, _, rfl⟩ | ⟨_, _, _, _, _, rfl⟩
    · rfl
    · refine List.filterMap_eq_nil_iff.mpr fun rule among => ?_
      simp only [Rule.take, unopened rule among]
  · rcases add_outcome accepted with ⟨behind, _⟩ | ⟨_, store, trimmed, appended, rfl, _⟩
    · exact absurd (Or.inl empty) behind
    · rw [fresh] at appended
      obtain ⟨after, count, kept, done, files, shown, _⟩ :=
        Store.append_files (Store.files_new config) timestamp value (Or.inl rfl)
      obtain ⟨rfl, _⟩ := Prod.mk.inj (Except.ok.inj (appended.symm.trans done))
      rw [Store.contents_eq files, shown]
      simp

/-- What a series that was missing has brought with it once its first sample is written: itself
with a rule for each policy that got its destination, in the order of the policies, and these
destinations, which are empty. Whatever else there is was there before, and is as it was. -/
structure Provisioned (before : Engine) (key : String) (options : SeriesOptions)
    (sample : Sample) (after : Engine) : Prop where
  keys : ∀ name, after.series.contains name = true ↔
    before.series.contains name = true ∨ name = key ∨
      ∃ policy ∈ before.config.policies, policy.destinationFor key = name
  kept : ∀ name one, before.series.get? name = some one → after.series.get? name = some one
  own : ∃ series, after.series.get? key = some series ∧ series.key = key ∧
    series.labels = options.labels ∧ series.sourceKey = none ∧
    series.store.config = before.config.storeConfig options ∧
    series.store.contents = .ok [sample] ∧
    series.rules.map Rule.outline =
      (granted before.series.contains key before.config.policies).map fun policy =>
        (policy.destinationFor key, policy.kind, policy.width)
  made : ∀ policy ∈ granted before.series.contains key before.config.policies,
    after.series.get? (policy.destinationFor key) =
      some (policy.destination before.config key options.labels)
  only : ∀ name, after.series.contains name = true → before.series.contains name = false →
    name ≠ key → ∃ policy ∈ granted before.series.contains key before.config.policies,
      policy.destinationFor key = name

section First

variable {before middle after : Engine} {key : String} {options : SeriesOptions}

theorem provisioned_of_provided (missing : before.series.get? key = none)
    (provided : Provided before (before.config.blank key options) before.config.policies middle)
    {created changed : Series} (present : middle.series.get? key = some created)
    (continues : created.Continues changed) {sample : Sample}
    (contents : changed.store.contents = .ok [sample])
    (stored : ∀ name, after.series.get? name =
      if name = key then some changed else middle.series.get? name) :
    Provisioned before key options sample after := by
  have beside : ∀ name, name ≠ key → after.series.get? name = (before.series.get? name).or
      ((before.config.policies.find? fun policy => policy.destinationFor key = name).map
        (·.destination before.config key options.labels)) := by
    intro name different
    rw [stored, if_neg different]
    exact provided.others name different
  have contained : ∀ name, name ≠ key → after.series.contains name =
      (before.series.contains name || before.config.policies.any fun policy =>
        policy.destinationFor key = name) := by
    intro name different
    rw [Action.contains_eq, beside name different, Option.isSome_or, Option.isSome_map,
      List.isSome_find?, Action.contains_eq]
  constructor
  case keys =>
    intro name
    by_cases here : name = key
    · rw [here, Action.contains_eq, stored, if_pos rfl]
      simp
    · rw [contained name here]
      simp [here]
  case kept =>
    intro name one there
    have different : name ≠ key := by
      rintro rfl
      exact nomatch missing.symm.trans there
    rw [beside name different, there]
    rfl
  case own =>
    obtain rfl := Option.some.inj (present.symm.trans provided.own)
    refine ⟨changed, by rw [stored, if_pos rfl], continues.key, continues.labels,
      continues.source, continues.config, contents, ?_⟩
    rw [continues.rules, List.map_map]
    rfl
  case made =>
    intro policy member
    obtain ⟨free, found⟩ := find_of_granted member
    rw [beside _ (policy.destination_ne_source key).symm, found]
    have absent : before.series.get? (policy.destinationFor key) = none :=
      Option.isNone_iff_eq_none.mp (by rw [← Option.not_isSome, ← Action.contains_eq, free]; rfl)
    rw [absent]
    rfl
  case only =>
    intro name there free different
    rw [contained name different, free, Bool.false_or, ← List.isSome_find?,
      ← find_granted free] at there
    obtain ⟨policy, found⟩ := Option.isSome_iff_exists.mp there
    exact ⟨policy, List.mem_of_find?_eq_some found, by simpa using List.find?_some found⟩

end First

namespace Action

variable {session : Session} {key : String}

theorem contains_write (key : String) (change : Series → Except Error (Series × Written))
    (session : Session) (name : String) :
    ((write key change).perform session).2.engine.series.contains name =
      session.engine.series.contains name := by
  rcases write_outcome key change session with ⟨_, failed⟩ | ⟨old, present, outcome⟩
  · rw [failed]
  · rcases outcome with ⟨_, _, failed⟩ | ⟨new, written, _, done⟩
    · rw [failed]
    · have stored : (session.stored key new written).engine.series.get? name =
          if name = key then some new else session.engine.series.get? name :=
        SortedMap.get?_insert _ _ _ _
      rw [done, contains_eq, contains_eq, Session.get?_deliveries, Option.isSome_map, stored]
      split
      · rename_i here
        rw [here, present]
        rfl
      · rfl

theorem contains_ensured {old : Series} (present : session.engine.series.get? key = some old)
    (options : SeriesOptions) (change : Series → Except Error (Series × Written))
    (name : String) :
    ((ensure key options >>= fun _ => write key change).perform session).2.engine.series.contains
      name = session.engine.series.contains name := by
  rw [perform_bind_ok (ensure_present present options)]
  exact contains_write key change session name

theorem ensured_provisions {options : SeriesOptions}
    (missing : session.engine.series.get? key = none) (named : key.isEmpty = false)
    (labelled : checkLabels options.labels = .ok ())
    (sized : checkChunkSize session.engine.config.chunkSize = .ok ())
    (ownSized : checkChunkSize (session.engine.config.storeConfig options).chunkSize = .ok ())
    (positive : ∀ policy ∈ session.engine.config.policies, policy.width ≠ 0)
    {timestamp : Timestamp} {value : Value} {override : Option DuplicatePolicy}
    {change : Series → Except Error (Series × Written)}
    (adds : ∀ series : Series, series.store.isEmpty = true →
      change series = series.add timestamp value override) :
    ∃ after, (ensure key options >>= fun _ => write key change).perform session =
        (.ok timestamp, after) ∧
      Provisioned session.engine key options ⟨timestamp, value⟩ after.engine := by
  have made := session.engine.config.new_blank key labelled ownSized
  obtain ⟨middle, ready, provided⟩ := ensure_provides missing sized labelled positive
    (create_checked options named missing made)
  have present := provided.own
  rcases write_outcome key change middle with ⟨absent, _⟩ | ⟨created, there, outcome⟩
  · exact nomatch absent.symm.trans present
  have same := Option.some.inj (there.symm.trans present)
  have fresh : created.store = .new (session.engine.config.storeConfig options) :=
    congrArg Series.store same
  have unopened : ∀ rule ∈ created.rules, rule.openBucket = none := by
    rw [same]
    simp [Policy.rule]
  have empty : created.store.isEmpty = true := by rw [fresh]; rfl
  obtain ⟨changed, written, accepted, stamped, quiet, continues, contents⟩ :=
    Series.add_first fresh unopened timestamp value override
  rw [← adds created empty] at accepted
  rcases outcome with ⟨_, rejected, _⟩ | ⟨_, _, taken, done⟩
  · exact nomatch rejected.symm.trans accepted
  obtain ⟨rfl, rfl⟩ := Prod.mk.inj (Except.ok.inj (taken.symm.trans accepted))
  rw [quiet, stamped] at done
  refine ⟨_, (perform_bind_ok ready).trans done, ?_⟩
  exact provisioned_of_provided missing provided there continues contents
    fun name => SortedMap.get?_insert _ _ _ _

end Action

/-- That options pass the checks of a new series. -/
structure SeriesOptions.Valid (options : SeriesOptions) : Prop where
  labels : checkLabels options.labels = .ok ()
  chunkSize : ∀ bytes, options.chunkSize = some bytes → checkChunkSize bytes = .ok ()

namespace Session

open Chronicle.Action

/-- What a session promises about series that are written to whether they are there or not. -/
structure Provides (session : Session) : Prop where
  missing : ∀ key options, session.engine.series.get? key = none → key ≠ "" →
    options.Valid → ∀ timestamp value,
      (∃ after, (addOrCreate key timestamp value options).perform session =
          (.ok timestamp, after) ∧
        Provisioned session.engine key options ⟨timestamp, value⟩ after.engine) ∧
      ∃ after, (increase key value timestamp options).perform session = (.ok timestamp, after) ∧
        Provisioned session.engine key options
          ⟨timestamp, Arithmetic.add Binary64.zero value⟩ after.engine
  present : ∀ key old, session.engine.series.get? key = some old → ∀ timestamp value options name,
    ((addOrCreate key timestamp value options).perform session).2.engine.series.contains name =
        session.engine.series.contains name ∧
      ((increase key value timestamp options).perform session).2.engine.series.contains name =
        session.engine.series.contains name

theorem provides_checked {session : Session}
    (sized : checkChunkSize session.engine.config.chunkSize = .ok ())
    (positive : ∀ policy ∈ session.engine.config.policies, policy.width ≠ 0) :
    session.Provides where
  missing := by
    intro key options absent given valid timestamp value
    have named : key.isEmpty = false := by simpa using given
    have ownSized : checkChunkSize (session.engine.config.storeConfig options).chunkSize =
        .ok () := by
      unfold EngineConfig.storeConfig
      cases chosen : options.chunkSize with
      | none => exact sized
      | some bytes => exact valid.chunkSize bytes chosen
    exact ⟨ensured_provisions absent named valid.labels sized ownSized positive fun _ _ => rfl,
      ensured_provisions absent named valid.labels sized ownSized positive
        fun _ empty => step_empty empty timestamp value⟩
  present := by
    intro key old there timestamp value options name
    exact ⟨contains_ensured there options _ name, contains_ensured there options _ name⟩

/-- Whatever an engine went through, a series that is created on demand gets what the policies of
the engine ask for and nothing else, and the key of a destination tells its source and policy. -/
theorem policies_applied {config : EngineConfig} {engine : Engine}
    (opened : Engine.new config = .ok engine)
    (positive : ∀ policy ∈ config.policies, policy.width ≠ 0) (directory : Directory)
    (operations : List Operation) :
    ((start engine directory).run operations).engine.config = config ∧
      ((start engine directory).run operations).Provides ∧
      ∀ (policy other : Policy) (source origin : String),
        policy.destinationFor source = other.destinationFor origin ↔
          source = origin ∧ policy.kind = other.kind ∧ policy.width = other.width := by
  obtain ⟨_, sized, made⟩ := exists_of_bind_ok opened
  have same : (start engine directory).engine.config = config := by
    rw [← Except.ok.inj made]
    rfl
  have kept := config_run operations same
  refine ⟨kept, ?_, fun _ _ _ _ => destination_injective⟩
  exact provides_checked (by rw [kept]; exact sized) (by rw [kept]; exact positive)

/-- Settings with two policies that compete for a destination, and one more. -/
def crowded : EngineConfig :=
  { EngineConfig.default with policies := [⟨.avg, 60, 0⟩, ⟨.avg, 60, 5⟩, ⟨.sum, 10, 0⟩] }

/-- The destination of the last policy is there already, and a series feeds another one. -/
def occupied : Session :=
  (start ⟨crowded, ∅, .empty⟩ ∅).run
    [.request (.create "a_SUM_10" .none), .request (.addOrCreate "b" 5 .zero .none)]

theorem policies_applied_crowded :
    Engine.new crowded = .ok ⟨crowded, ∅, .empty⟩ ∧
      (∀ policy ∈ crowded.policies, policy.width ≠ 0) ∧
      occupied.engine.series.keys = ["a_SUM_10", "b", "b_AVG_60", "b_SUM_10"] ∧
      granted occupied.engine.series.contains "a" crowded.policies = [⟨.avg, 60, 0⟩] ∧
      ∃ after, (addOrCreate "a" 5 .zero .none).perform occupied = (.ok 5, after) ∧
        Provisioned occupied.engine "a" .none ⟨5, .zero⟩ after.engine := by
  have opened : Engine.new crowded = .ok ⟨crowded, ∅, .empty⟩ := rfl
  have positive : ∀ policy ∈ crowded.policies, policy.width ≠ 0 := by decide
  obtain ⟨_, provides, _⟩ := policies_applied opened positive ∅
    [.request (.create "a_SUM_10" .none), .request (.addOrCreate "b" 5 .zero .none)]
  have valid : SeriesOptions.none.Valid := ⟨rfl, fun _ chosen => nomatch chosen⟩
  have missing : occupied.engine.series.get? "a" = none := by decide +kernel
  exact ⟨opened, positive, by decide +kernel, by decide +kernel,
    (provides.missing "a" .none missing (by decide) valid 5 .zero).1⟩

end Session

end Chronicle

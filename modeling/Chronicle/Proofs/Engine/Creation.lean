import Chronicle.Proofs.Compaction.Destination
import Chronicle.Proofs.Engine.Effect
import Chronicle.Proofs.SortedMap

/-!
Creating a series on demand. Only its first step can fail: from then on there is a series
that is empty and that nothing feeds, with labels and settings that were checked, so each
destination that the policies ask for can be created and linked, and a first sample is taken.
Each policy looks at the series that the ones before it have left, so of several with one
destination the first creates it, and a destination that was there before is left alone,
whoever feeds it.
-/

namespace Chronicle

open Policy

namespace Policy

def options (policy : Policy) (labels : Labels) : SeriesOptions :=
  { SeriesOptions.none with retention := some policy.retention, labels := labels }

def rule (policy : Policy) (key : String) : Rule :=
  ⟨policy.destinationFor key, policy.kind, policy.width, .new policy.kind, none⟩

def destination (policy : Policy) (config : EngineConfig) (key : String) (labels : Labels) :
    Series where
  key := policy.destinationFor key
  labels := labels
  duplicatePolicy := config.duplicatePolicy
  store := .new
    { encoding := config.encoding
      chunkSize := config.chunkSize
      retention := policy.retention
      compressedUpsert := config.compressedUpsert }
  sourceKey := some key
  rules := []

end Policy

namespace Series

theorem labelled_new {series : Series} {key : String} {labels : Labels}
    {policy : DuplicatePolicy} {config : StoreConfig}
    (made : Series.new key labels policy config = .ok series) : checkLabels labels = .ok () := by
  obtain ⟨_, labelled, _⟩ := exists_of_bind_ok made
  exact labelled

theorem add_to_empty {series : Series} (empty : series.store.isEmpty = true)
    (timestamp : Timestamp) (value : Value) (override : Option DuplicatePolicy) :
    ∃ changed written, series.add timestamp value override = .ok (changed, written) ∧
      written.timestamp = timestamp := by
  have recent : ¬ series.isTooOld timestamp = true := by simp [isTooOld, empty]
  have behind : ¬ (!series.store.isEmpty && decide (timestamp ≤ series.store.lastTimestamp)) =
      true := by simp [empty]
  rw [Series.add, if_neg recent, if_neg behind, Store.append, if_neg behind]
  exact ⟨_, _, rfl, rfl⟩

end Series

def EngineConfig.blank (config : EngineConfig) (key : String) (options : SeriesOptions) :
    Series where
  key := key
  labels := options.labels
  duplicatePolicy := options.duplicatePolicy.getD config.duplicatePolicy
  store := .new (config.storeConfig options)
  sourceKey := none
  rules := []

theorem EngineConfig.new_blank (config : EngineConfig) (key : String) {options : SeriesOptions}
    (labelled : checkLabels options.labels = .ok ())
    (sized : checkChunkSize (config.storeConfig options).chunkSize = .ok ()) :
    Series.new key options.labels (options.duplicatePolicy.getD config.duplicatePolicy)
      (config.storeConfig options) = .ok (config.blank key options) := by
  rw [Series.new, labelled, sized]
  rfl

namespace Session

/-- That a key has a series without samples that no rule feeds. -/
def Started (session : Session) (key : String) : Prop :=
  ∃ series, session.engine.series.get? key = some series ∧ series.sourceKey = none ∧
    series.store.isEmpty = true

end Session

namespace Action

variable {session : Session} {key : String}

theorem perform_contains (key : String) (session : Session) : (contains key).perform session =
    (.ok (session.engine.series.get? key).isSome, session) := rfl

theorem create_checked (options : SeriesOptions) (named : key.isEmpty = false)
    (free : session.engine.series.get? key = none) {series : Series}
    (made : Series.new key options.labels
      (options.duplicatePolicy.getD session.engine.config.duplicatePolicy)
      (session.engine.config.storeConfig options) = .ok series) :
    (create key options).perform session = (.ok (), session.enrolled series) := by
  have own : series.key = key := by rw [Series.new_outcome made]
  rw [create, if_neg (by simp [named]), perform_bind_ok (perform_engine session)]
  dsimp only
  rw [made, perform_bind_ok (perform_of_argument _ session)]
  rcases enroll_outcome series session with ⟨_, taken, present⟩ | ⟨_, done⟩
  · rw [own, free] at present
    exact nomatch present
  · exact done

theorem perform_create_rule {source destination : String} (kind : AggregationKind)
    {width : Duration} {feeding fed : Series} (different : source ≠ destination)
    (positive : width ≠ 0) (present : session.engine.series.get? source = some feeding)
    (unfed : feeding.sourceKey = none)
    (presentFed : session.engine.series.get? destination = some fed)
    (unfedFed : fed.sourceKey = none) :
    (createRule source destination kind width).perform session =
      (.ok (), session.linked source ⟨destination, kind, width, .new kind, none⟩) := by
  rw [createRule, if_neg different, Rule.new, if_neg positive,
    perform_bind_ok (perform_of_argument _ session),
    perform_bind_ok (perform_require_some present),
    perform_bind_ok (perform_require_some presentFed), unfed, unfedFed]
  rfl

end Action

def Engine.fed (engine : Engine) (policy : Policy) (key : String) (labels : Labels) : Engine :=
  (engine.enroll (engine.config.blank (policy.destinationFor key) (policy.options labels))).link
    key (policy.rule key)

theorem Engine.get?_fed (engine : Engine) (policy : Policy) (key : String) (labels : Labels)
    (name : String) : (engine.fed policy key labels).series.get? name =
      if name = policy.destinationFor key then
        some (policy.destination engine.config key labels)
      else if name = key then (engine.series.get? key).map (·.addRule (policy.rule key))
      else engine.series.get? name := by
  have different := policy.destination_ne_source key
  have created : ∀ other, (engine.enroll (engine.config.blank (policy.destinationFor key)
      (policy.options labels))).series.get? other = if other = policy.destinationFor key then
        some (engine.config.blank (policy.destinationFor key) (policy.options labels))
      else engine.series.get? other := fun other => SortedMap.get?_insert _ _ _ _
  have leads : (policy.rule key).destination = policy.destinationFor key := rfl
  rw [fed, link, SortedMap.get?_adjust, SortedMap.get?_adjust, SortedMap.get?_adjust, leads,
    if_neg different.symm, created, created, created, if_pos rfl, if_neg different]
  by_cases here : name = policy.destinationFor key
  · rw [if_pos here, if_pos here]
    rfl
  · rw [if_neg here, if_neg here, if_neg here]

/-- What some policies have made of a new series: it has a rule for each that got its
destination, and these are there beside all that was there before. -/
structure Provided (before : Engine) (created : Series) (policies : List Policy)
    (after : Engine) : Prop where
  config : after.config = before.config
  own : after.series.get? created.key = some { created with
    rules := (granted before.series.contains created.key policies).map (·.rule created.key) }
  others : ∀ name, name ≠ created.key → after.series.get? name =
    (before.series.get? name).or ((policies.find? fun policy =>
      policy.destinationFor created.key = name).map
        (·.destination before.config created.key created.labels))

namespace Provided

variable {before after : Engine} {created : Series} {earlier : List Policy} {policy : Policy}

theorem begins (config : EngineConfig) (key : String) (options : SeriesOptions) :
    Provided before (config.blank key options) [] (before.enroll (config.blank key options)) where
  config := rfl
  own := (SortedMap.get?_insert _ _ _ _).trans (if_pos rfl)
  others := by
    intro name different
    rw [Engine.enroll, SortedMap.get?_insert, if_neg different]
    exact Option.or_none.symm

section Next

variable (provided : Provided before created earlier after)

include provided

/-- What is there after one more policy, next to what was there before it. -/
theorem next {name : String} (different : name ≠ created.key) (policy : Policy) :
    (before.series.get? name).or (((earlier ++ [policy]).find? fun other =>
        other.destinationFor created.key = name).map
          (·.destination before.config created.key created.labels)) =
      (after.series.get? name).or (if policy.destinationFor created.key = name then
        some (policy.destination before.config created.key created.labels) else none) := by
  rw [provided.others name different, List.find?_append, Option.map_or, ← Option.or_assoc]
  split <;> simp [*]

/-- What is looked up for a policy tells whether it gets its destination. -/
theorem first_eq (policy : Policy) :
    policy.isFirst before.series.contains created.key earlier =
      !after.series.contains (policy.destinationFor created.key) := by
  have other := provided.others _ (policy.destination_ne_source created.key).symm
  rw [isFirst, Action.contains_eq, Action.contains_eq, other, Option.isSome_or, Option.isSome_map,
    List.isSome_find?, Bool.not_or]

theorem passes {policy : Policy} {taken : Series}
    (present : after.series.get? (policy.destinationFor created.key) = some taken) :
    Provided before created (earlier ++ [policy]) after where
  config := provided.config
  own := by
    rw [provided.own, granted_append, provided.first_eq, Action.contains_eq, present]
    simp
  others := by
    intro name different
    rw [provided.next different]
    split
    · rename_i here
      rw [← here, present]
      rfl
    · exact Option.or_none.symm

theorem grants {policy : Policy}
    (free : after.series.get? (policy.destinationFor created.key) = none) :
    Provided before created (earlier ++ [policy])
      (after.fed policy created.key created.labels) where
  config := provided.config
  own := by
    rw [Engine.get?_fed, if_neg (policy.destination_ne_source created.key), if_pos rfl,
      provided.own, granted_append, provided.first_eq, Action.contains_eq, free]
    simp [Series.addRule]
  others := by
    intro name different
    rw [provided.next different, Engine.get?_fed, if_neg different, provided.config]
    by_cases here : name = policy.destinationFor created.key
    · rw [if_pos here, if_pos here.symm, here, free]
      rfl
    · rw [if_neg here, if_neg (Ne.symm here), Option.or_none]

end Next

end Provided

namespace Action

section Policies

variable {before : Engine} {created : Series} {session : Session}
  (sized : checkChunkSize before.config.chunkSize = .ok ())
  (labelled : checkLabels created.labels = .ok ()) (unfed : created.sourceKey = none)

include sized labelled unfed

theorem apply_policy_provides {earlier : List Policy} {policy : Policy}
    (positive : policy.width ≠ 0) (provided : Provided before created earlier session.engine) :
    ∃ after, (applyPolicy created.key created.labels policy).perform session = (.ok (), after) ∧
      Provided before created (earlier ++ [policy]) after.engine := by
  rw [applyPolicy]
  dsimp only
  rw [perform_bind_ok (perform_contains _ session)]
  cases free : session.engine.series.get? (policy.destinationFor created.key) with
  | some taken => exact ⟨session, rfl, provided.passes free⟩
  | none =>
      have different := policy.destination_ne_source created.key
      have made := session.engine.config.new_blank (policy.destinationFor created.key)
        (show checkLabels (policy.options created.labels).labels = .ok () from labelled)
        (by rw [provided.config]; exact sized)
      have done := create_checked _ (policy.destination_named created.key) free made
      have enrolled : ∀ name, (session.enrolled (session.engine.config.blank
          (policy.destinationFor created.key) (policy.options created.labels))).engine.series.get?
            name = _ := fun name => SortedMap.get?_insert _ _ _ _
      have stays := (enrolled created.key).trans ((if_neg different).trans provided.own)
      have arrived := (enrolled (policy.destinationFor created.key)).trans (if_pos rfl)
      have entered := perform_create_rule policy.kind different positive stays unfed arrived rfl
      exact ⟨_, (perform_bind_ok done).trans entered, provided.grants free⟩

theorem apply_policies_provide {policies earlier : List Policy}
    (positive : ∀ policy ∈ policies, policy.width ≠ 0)
    (provided : Provided before created earlier session.engine) :
    ∃ after, (applyPolicies created.key created.labels policies).perform session =
        (.ok (), after) ∧ Provided before created (earlier ++ policies) after.engine := by
  induction policies generalizing session earlier with
  | nil => exact ⟨session, rfl, by rw [List.append_nil]; exact provided⟩
  | cons policy later ih =>
      obtain ⟨between, applied, providedBetween⟩ := apply_policy_provides sized labelled unfed
        (positive policy List.mem_cons_self) provided
      obtain ⟨after, others, providedAfter⟩ := ih
        (fun next member => positive next (List.mem_cons_of_mem policy member)) providedBetween
      rw [List.append_assoc] at providedAfter
      exact ⟨after, (perform_bind_ok applied).trans others, providedAfter⟩

end Policies

variable {session : Session} {key : String}

theorem ensure_present {old : Series} (present : session.engine.series.get? key = some old)
    (options : SeriesOptions) : (ensure key options).perform session = (.ok (), session) := by
  rw [ensure, perform_bind_ok (perform_contains key session), present]
  rfl

theorem ensure_provides {options : SeriesOptions}
    (missing : session.engine.series.get? key = none)
    (sized : checkChunkSize session.engine.config.chunkSize = .ok ())
    (labelled : checkLabels options.labels = .ok ())
    (positive : ∀ policy ∈ session.engine.config.policies, policy.width ≠ 0)
    (created : (create key options).perform session =
      (.ok (), session.enrolled (session.engine.config.blank key options))) :
    ∃ after, (ensure key options).perform session = (.ok (), after) ∧
      Provided session.engine (session.engine.config.blank key options)
        session.engine.config.policies after.engine := by
  have begun : Provided session.engine (session.engine.config.blank key options) []
      (session.enrolled (session.engine.config.blank key options)).engine := .begins _ key options
  obtain ⟨after, applied, provided⟩ := apply_policies_provide sized labelled rfl positive begun
  refine ⟨after, ?_, provided⟩
  rw [ensure, perform_bind_ok (perform_contains key session), missing]
  rw [if_pos (by rfl), perform_bind_ok created, perform_bind_ok (perform_engine _)]
  exact applied

/-- Series are there, or they cannot be created and nothing changes, or they are created with
all that the policies ask for. -/
theorem ensure_outcome (sized : checkChunkSize session.engine.config.chunkSize = .ok ())
    (positive : ∀ policy ∈ session.engine.config.policies, policy.width ≠ 0) (key : String)
    (options : SeriesOptions) :
    ((session.engine.series.get? key).isSome = true ∧
        (ensure key options).perform session = (.ok (), session)) ∨
      session.engine.series.get? key = none ∧
        ((∃ refused, (create key options).perform session = (.error refused, session) ∧
            (ensure key options).perform session = (.error refused, session)) ∨
          ∃ after, (ensure key options).perform session = (.ok (), after) ∧
            after.Started key) := by
  cases missing : session.engine.series.get? key with
  | some taken => exact Or.inl ⟨rfl, ensure_present missing options⟩
  | none =>
      refine Or.inr ⟨rfl, ?_⟩
      rcases create_outcome key options session with ⟨refused, failed⟩ |
        ⟨series, _, _, made, done⟩
      · refine Or.inl ⟨refused, failed, ?_⟩
        rw [ensure, perform_bind_ok (perform_contains key session), missing]
        exact perform_bind_error failed
      · rw [Series.new_outcome made] at done
        obtain ⟨after, applied, provided⟩ :=
          ensure_provides missing sized (Series.labelled_new made) positive done
        exact Or.inr ⟨after, applied, _, provided.own, rfl, rfl⟩

def Begins (timestamp : Timestamp) (change : Series → Except Error (Series × Written)) : Prop :=
  ∀ series : Series, series.store.isEmpty = true →
    ∃ changed written, change series = .ok (changed, written) ∧ written.timestamp = timestamp

theorem begins_add (timestamp : Timestamp) (value : Value) (override : Option DuplicatePolicy) :
    Begins timestamp fun series => series.add timestamp value override :=
  fun _ empty => Series.add_to_empty empty timestamp value override

/-- Without a last value a count starts from zero. -/
theorem step_empty {series : Series} (empty : series.store.isEmpty = true)
    (timestamp : Timestamp) (change : Value) : step timestamp change series =
      series.add timestamp (Arithmetic.add Binary64.zero change) (some .last) := by
  rw [step, Series.lastSample, Store.lastSample, if_pos empty]

theorem begins_step (timestamp : Timestamp) (change : Value) :
    Begins timestamp (step timestamp change) := by
  intro series empty
  rw [step_empty empty]
  exact Series.add_to_empty empty timestamp _ _

theorem write_started {timestamp : Timestamp}
    {change : Series → Except Error (Series × Written)} (begins : Begins timestamp change)
    (started : session.Started key) :
    ∃ after, (write key change).perform session = (.ok timestamp, after) := by
  obtain ⟨series, present, _, empty⟩ := started
  obtain ⟨changed, written, accepted, stamped⟩ := begins series empty
  rcases write_outcome key change session with ⟨absent, _⟩ | ⟨old, found, outcome⟩
  · rw [absent] at present
    exact nomatch present
  rw [present] at found
  obtain rfl := Option.some.inj found
  rcases outcome with ⟨refused, rejected, _⟩ | ⟨new, told, taken, done⟩
  · rw [accepted] at rejected
    exact nomatch rejected
  · rw [accepted] at taken
    obtain ⟨_, rfl⟩ := Prod.mk.inj (Except.ok.inj taken)
    exact ⟨_, by rw [done, stamped]⟩

end Action

end Chronicle

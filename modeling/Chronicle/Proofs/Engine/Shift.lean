import Chronicle.Proofs.Engine.Outcome
import Chronicle.Proofs.SortedMap
import Mathlib.Logic.Relation

/-!
How the series of an engine change. Every request but the creation of a rule comes down
to a sequence of a few kinds of shift, which are guarded by what the request has looked
up before. What holds of all engines that requests lead to is proved shift by shift.
-/

namespace Chronicle

/-- That two states of a series have the same source and feed the same series. -/
structure Series.SameLinks (old new : Series) : Prop where
  source : new.sourceKey = old.sourceKey
  destinations : new.rules.map (·.destination) = old.rules.map (·.destination)

/-- That a series has no rules on either side. -/
structure Series.Unlinked (series : Series) : Prop where
  source : series.sourceKey = none
  rules : series.rules = []

namespace Engine

/-- One change of the series of an engine. -/
inductive Shift (engine : Engine) : Engine → Prop where
  | store {key : String} {old new : Series} (present : engine.series.get? key = some old)
      (links : old.SameLinks new) : Shift engine (engine.store new key)
  | refile (key : String) (old new : Labels) : Shift engine (engine.refile key old new)
  | enroll {series : Series} (free : engine.series.get? series.key = none)
      (unlinked : series.Unlinked) : Shift engine (engine.enroll series)
  | feed {source : String} {feeding fed : Series} {rule : Rule}
      (present : engine.series.get? source = some feeding) (unfed : feeding.sourceKey = none)
      (free : engine.series.get? fed.key = none) (unlinked : fed.Unlinked)
      (leads : rule.destination = fed.key) : Shift engine ((engine.enroll fed).link source rule)
  | remove {key : String} {gone : Series} (present : engine.series.get? key = some gone) :
      Shift engine ((engine.dismiss key gone).unlink key gone)
  | cut {source destination : String} {feeding fed : Series}
      (present : engine.series.get? source = some feeding)
      (feeds : feeding.hasRuleTo destination = true)
      (presentFed : engine.series.get? destination = some fed)
      (sourceOfFed : fed.sourceKey = some source) :
      Shift engine (engine.cut source destination)

abbrev Shifts : Engine → Engine → Prop := Relation.ReflTransGen Shift

/-- Both ends of a rule are there once its destination has been taken in. -/
theorem feed_ready {engine : Engine} {source : String} {feeding fed : Series} {rule : Rule}
    (present : engine.series.get? source = some feeding)
    (free : engine.series.get? fed.key = none) (leads : rule.destination = fed.key) :
    source ≠ rule.destination ∧ (engine.enroll fed).series.get? source = some feeding ∧
      (engine.enroll fed).series.get? rule.destination = some fed := by
  have different : source ≠ fed.key := by
    rintro rfl
    rw [free] at present
    exact nomatch present
  refine ⟨leads ▸ different, ?_, ?_⟩
  · rw [enroll, SortedMap.get?_insert, if_neg different, present]
  · rw [enroll, SortedMap.get?_insert, if_pos leads]

theorem every_clear_sources {series : SortedMap String Series} {holds : String → Series → Prop}
    (every : series.Every holds) (source : String)
    (keeps : ∀ key one, holds key one → holds key (clearSource source one))
    (destinations : List String) :
    (destinations.foldl (fun series destination =>
      series.adjust destination (clearSource source)) series).Every holds := by
  induction destinations generalizing series with
  | nil => exact every
  | cons destination later ih =>
      exact ih (SortedMap.every_adjust every fun one found => keeps _ one (every _ one found))

end Engine

namespace Series

/-- That a change of a series touches nothing but its links. -/
def Relinks (change : Series → Series) : Prop :=
  ∀ one, ∃ source rules, change one = { one with sourceKey := source, rules := rules }

theorem relinks_add_rule (rule : Rule) : Relinks (·.addRule rule) :=
  fun one => ⟨one.sourceKey, _, rfl⟩

theorem relinks_remove_rule (destination : String) : Relinks (·.removeRule destination) :=
  fun one => ⟨one.sourceKey, _, rfl⟩

theorem relinks_set_source (source : Option String) : Relinks (·.setSource source) :=
  fun one => ⟨source, one.rules, rfl⟩

theorem relinks_clear_source (source : String) : Relinks (Engine.clearSource source) := by
  intro one
  unfold Engine.clearSource
  split
  · exact ⟨none, one.rules, rfl⟩
  · exact ⟨one.sourceKey, one.rules, rfl⟩

end Series

namespace Engine

section Relink

variable {motive : SortedMap String Series → Prop}
  (each : ∀ {series : SortedMap String Series} (key : String) {change : Series → Series},
    Series.Relinks change → motive series → motive (series.adjust key change))
  {engine : Engine} (held : motive engine.series)

include each held

theorem link_keeps (source : String) (rule : Rule) : motive (engine.link source rule).series := by
  have ruled := each source (Series.relinks_add_rule rule) held
  exact each rule.destination (Series.relinks_set_source (some source)) ruled

theorem cut_keeps (source destination : String) :
    motive (engine.cut source destination).series := by
  have struck := each source (Series.relinks_remove_rule destination) held
  exact each destination (Series.relinks_set_source none) struck

theorem unlink_keeps (key : String) (gone : Series) :
    motive (engine.unlink key gone).series := by
  apply List.foldlRecOn (motive := motive)
  · split
    · exact each _ (Series.relinks_remove_rule key) held
    · exact held
  · intro series cleared destination _
    exact each destination (Series.relinks_clear_source key) cleared

end Relink

end Engine

namespace Series

theorem Continues.same_links {old new : Series} (continues : old.Continues new) :
    old.SameLinks new :=
  ⟨continues.source, continues.destinations⟩

theorem same_links_altered (series : Series) (alteration : Alteration) :
    series.SameLinks (series.altered alteration) := ⟨rfl, rfl⟩

theorem unlinked_new {key : String} {labels : Labels} {policy : DuplicatePolicy}
    {config : StoreConfig} {series : Series}
    (made : Series.new key labels policy config = .ok series) : series.Unlinked := by
  rw [new_outcome made]
  exact ⟨rfl, rfl⟩

end Series

open Engine

variable {session after : Session} {accepted : List Accepted}

theorem shifts_delivered {source : String} {flush : Flush}
    (delivered : session.Delivered source flush after) :
    Shifts session.engine after.engine := by
  cases delivered with
  | missing | refused => exact .refl
  | taken present appended =>
      exact .single (.store present (Series.continues_append_compacted appended).same_links)

theorem shifts_deliveries (source : String) (flushes : List Flush) (session : Session) :
    Shifts session.engine (flushes.foldl (Session.delivery source) session).engine := by
  apply Session.deliveries_keep (motive := fun after => Shifts session.engine after.engine)
  · intro before after flush delivered shifts
    exact shifts.trans (shifts_delivered delivered)
  · exact .refl

theorem shifts_grow (grow : Grow session accepted after) :
    Shifts session.engine after.engine := by
  cases grow with
  | rejected | answered | vanished => exact .refl
  | created free made => exact .single (.enroll free (Series.unlinked_new made))
  | fed present unfed free made ruled =>
      exact .single (.feed present unfed free (Series.unlinked_new made)
        (Action.destination_new ruled))
  | @wrote key old new _ _ _ written present taken =>
      have delivered := shifts_deliveries key written.flushes (session.stored key new written)
      exact .head (.store present (Series.continues_add taken).same_links) delivered

theorem shifts_growth (growth : Growth session accepted after) :
    Shifts session.engine after.engine := by
  induction growth with
  | still => exact .refl
  | step grow _ ih => exact (shifts_grow grow).trans ih

theorem shifts_altered {key : String} {alteration : Alteration} {old new : Series}
    (present : session.engine.series.get? key = some old)
    (taken : old.alter alteration = .ok new) :
    Shifts session.engine (session.altered key alteration old new).engine := by
  have links : old.SameLinks new :=
    Series.alter_outcome taken ▸ old.same_links_altered alteration
  unfold Session.altered
  dsimp only
  split
  · exact .head (.store present links) (.single (.refile key old.labels new.labels))
  · exact .single (.store present links)

/-- Every request but one for a rule comes down to shifts. -/
theorem shifts_request (request : Request) (other : request.isCreateRule = false)
    (session : Session) : Shifts session.engine (request.action.perform session).2.engine := by
  have outcome := outcome_request request session
  change Shifts session.engine (session.step (.request request)).engine
  generalize session.step (.request request) = after at outcome
  cases outcome with
  | same => exact .refl
  | grown grows growth => exact shifts_growth growth
  | altered present taken => exact shifts_altered present taken
  | removed removes present => exact .single (.remove present)
  | linked => exact nomatch other
  | cut present feeds presentFed sourceOfFed =>
      exact .single (.cut present feeds presentFed sourceOfFed)

end Chronicle

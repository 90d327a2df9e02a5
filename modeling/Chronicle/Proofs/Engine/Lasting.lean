import Chronicle.Proofs.Engine.Shift

/-!
Properties that every series keeps. What holds of a new series and is kept by each change of
one holds of all series of an engine, at every moment of a run that takes none in from outside.
-/

namespace Chronicle

/-- That a property holds of new series and is kept by whatever is done to one. -/
structure Series.Lasting (holds : Series → Prop) : Prop where
  made : ∀ {key labels policy config series},
    Series.new key labels policy config = .ok series → holds series
  altered : ∀ {series} alteration, holds series → holds (series.altered alteration)
  added : ∀ {series changed timestamp value override written}, holds series →
    series.add timestamp value override = .ok (changed, written) → holds changed
  received : ∀ {series changed timestamp value trimmed}, holds series →
    series.appendCompacted timestamp value = .ok (changed, trimmed) → holds changed
  ruled : ∀ {series destination kind width rule}, holds series →
    Rule.new destination kind width = .ok rule → holds (series.addRule rule)
  struck : ∀ {series} destination, holds series → holds (series.removeRule destination)
  sourced : ∀ {series} source, holds series → holds (series.setSource source)

theorem Series.lasting_filed : Lasting Filed where
  made := filed_new
  altered := fun alteration ⟨runs, files⟩ => ⟨runs, files_altered files alteration⟩
  added := filed_add
  received := filed_append_compacted
  ruled := fun filed _ => filed
  struck := fun _ filed => filed
  sourced := fun _ filed => filed

namespace Engine

def All (holds : Series → Prop) (engine : Engine) : Prop :=
  engine.series.Every fun _ one => holds one

variable {holds : Series → Prop} (lasting : Series.Lasting holds) {engine : Engine}

include lasting

theorem all_link (all : engine.All holds) (source : String) {destination : String}
    {kind : AggregationKind} {width : Duration} {rule : Rule}
    (ruled : Rule.new destination kind width = .ok rule) : (engine.link source rule).All holds := by
  have entered := SortedMap.every_adjust all fun one present =>
    lasting.ruled (all source one present) ruled
  exact SortedMap.every_adjust entered fun one present =>
    lasting.sourced (some source) (entered rule.destination one present)

theorem all_cut (all : engine.All holds) (source destination : String) :
    (engine.cut source destination).All holds := by
  have struck := SortedMap.every_adjust all fun one present =>
    lasting.struck destination (all source one present)
  exact SortedMap.every_adjust struck fun one present =>
    lasting.sourced none (struck destination one present)

theorem all_unlink (all : engine.All holds) (key : String) (gone : Series) :
    (engine.unlink key gone).All holds := by
  apply every_clear_sources
  · split
    · exact SortedMap.every_adjust all fun one present => lasting.struck key (all _ one present)
    · exact all
  · intro other one held
    unfold clearSource
    split
    · exact lasting.sourced none held
    · exact held

end Engine

namespace Session

variable {holds : Series → Prop} (lasting : Series.Lasting holds) {session after : Session}
  {accepted : List Accepted}

include lasting

theorem all_delivered {source : String} {flush : Flush}
    (delivered : session.Delivered source flush after) (all : session.engine.All holds) :
    after.engine.All holds := by
  cases delivered with
  | missing | refused => exact all
  | taken present appended =>
      exact SortedMap.every_insert all (lasting.received (all _ _ present) appended)

theorem all_grow (grow : Grow session accepted after) (all : session.engine.All holds) :
    after.engine.All holds := by
  cases grow with
  | rejected | answered | vanished => exact all
  | created free made => exact SortedMap.every_insert all (lasting.made made)
  | @fed source _ fed _ _ rule present unfed free _ _ made ruled =>
      have enrolled : (session.engine.enroll fed).All holds :=
        SortedMap.every_insert all (lasting.made made)
      exact Engine.all_link lasting enrolled source ruled
  | @wrote key old new _ _ _ written present taken =>
      have stored : (session.stored key new written).engine.All holds :=
        SortedMap.every_insert all (lasting.added (all key old present) taken)
      apply deliveries_keep (motive := fun session => session.engine.All holds) _ _ stored
      intro before next flush delivered held
      exact all_delivered lasting delivered held

theorem all_outcome {operation : Operation} (outcome : Outcome session operation after)
    (stays : operation.isLocal = true) (all : session.engine.All holds) :
    after.engine.All holds := by
  cases outcome with
  | same => exact all
  | grown grows growth =>
      apply growth.keeps (motive := fun session => session.engine.All holds) _ all
      intro before next written grow held
      exact all_grow lasting grow held
  | altered present taken =>
      have changed := Series.alter_outcome taken ▸ lasting.altered _ (all _ _ present)
      unfold Session.altered
      dsimp only
      split <;> exact SortedMap.every_insert all changed
  | @removed _ key gone removes present =>
      have dismissed : (session.engine.dismiss key gone).All holds :=
        SortedMap.every_erase all key
      exact Engine.all_unlink lasting dismissed key gone
  | linked _ _ _ _ _ ruled => exact Engine.all_link lasting all _ ruled
  | cut => exact Engine.all_cut lasting all _ _
  | saved => exact all
  | loaded | restored => exact nomatch stays

/-- What is true of every new series and is kept by every change holds throughout a run. -/
theorem all_run {operations : List Operation}
    (stay : ∀ operation ∈ operations, operation.isLocal = true)
    (all : session.engine.All holds) : (session.run operations).engine.All holds := by
  apply run_keeps (motive := fun session => session.engine.All holds) _ stay all
  intro session operation stays all
  exact all_outcome lasting (outcome operation session) stays all

end Session

end Chronicle

import Chronicle.Proofs.Engine.Links

/-!
Rules over a whole run. As long as no series are taken in from outside, the links between
series agree from both sides after every operation, and a closed bucket always finds the
series that it is delivered to.
-/

namespace Chronicle

namespace Session

variable {session after : Session} {accepted : List Accepted}

/-- That a closed bucket had nowhere to go. -/
def Missed (session : Session) : Prop :=
  ∃ source destination, Event.destinationMissing source destination ∈ session.events

theorem not_missed_trim (key : String) (trimmed : Trimmed) (source destination : String) :
    Event.destinationMissing source destination ∉ trimEvents key trimmed := by
  unfold trimEvents
  split <;> simp

theorem not_missed_stored (whole : ¬ session.Missed) (key : String) (changed : Series)
    (written : Written) : ¬ (session.stored key changed written).Missed := by
  rintro ⟨source, destination, member⟩
  rcases List.mem_append.mp member with trimmed | earlier
  · exact not_missed_trim key written.trimmed source destination trimmed
  · exact whole ⟨source, destination, earlier⟩

/-- A delivery takes no series away and adds none. -/
theorem contains_delivered {source : String} {flush : Flush}
    (delivered : session.Delivered source flush after) (key : String) :
    after.engine.series.contains key = session.engine.series.contains key := by
  cases delivered with
  | missing | refused => rfl
  | taken present _ =>
      simp only [received, Engine.store, SortedMap.contains, SortedMap.get?_insert]
      split
      · rename_i same
        rw [same, present]
        rfl
      · rfl

theorem not_missed_delivered {source : String} {flush : Flush}
    (delivered : session.Delivered source flush after) (whole : ¬ session.Missed)
    (present : session.engine.series.contains flush.destination = true) : ¬ after.Missed := by
  cases delivered with
  | missing absent =>
      rw [SortedMap.contains, absent] at present
      exact nomatch present
  | refused reason => simpa [Missed, tell] using whole
  | @taken fed longer trimmed _ _ =>
      rintro ⟨origin, destination, member⟩
      rcases List.mem_append.mp member with told | earlier
      · exact not_missed_trim flush.destination trimmed origin destination told
      · exact whole ⟨origin, destination, earlier⟩

theorem not_missed_deliveries (source : String) (flushes : List Flush)
    (whole : ¬ session.Missed)
    (present : ∀ flush ∈ flushes, session.engine.series.contains flush.destination = true) :
    ¬ (flushes.foldl (delivery source) session).Missed := by
  induction flushes generalizing session with
  | nil => exact whole
  | cons flush later ih =>
      have delivered := delivered source flush session
      apply ih (not_missed_delivered delivered whole (present flush List.mem_cons_self))
      intro next member
      rw [contains_delivered delivered]
      exact present next (List.mem_cons_of_mem flush member)

theorem not_missed_grow (grow : Grow session accepted after)
    (linked : Engine.Linked session.engine.series) (whole : ¬ session.Missed) :
    ¬ after.Missed := by
  cases grow with
  | rejected | answered => exact whole
  | vanished key => simpa [Missed, tell] using whole
  | created free made => simpa [Missed, enrolled] using whole
  | fed present unfed free made ruled => simpa [Missed, enrolled, Session.linked] using whole
  | @wrote key old new _ _ _ written present taken =>
      apply not_missed_deliveries key written.flushes (not_missed_stored whole key new written)
      intro flush member
      have leads := Series.destination_flushed taken member
      obtain ⟨fed, there, _⟩ := (linked.fed key old present _ leads).2
      simp only [stored, Engine.store, SortedMap.contains, SortedMap.get?_insert]
      split
      · rfl
      · rw [there]
        rfl

/-- That rules are linked from both sides and that no bucket was lost for want of a series. -/
structure Intact (session : Session) : Prop where
  linked : Engine.Linked session.engine.series
  whole : ¬ session.Missed

theorem intact_grow (grow : Grow session accepted after) (intact : session.Intact) :
    after.Intact where
  linked := Engine.linked_shifts (shifts_grow grow) intact.linked
  whole := not_missed_grow grow intact.linked intact.whole

theorem intact_outcome {operation : Operation} (outcome : Outcome session operation after)
    (stays : operation.isLocal = true) (intact : session.Intact) : after.Intact := by
  obtain ⟨linked, whole⟩ := intact
  cases outcome with
  | same => exact ⟨linked, whole⟩
  | grown grows growth => exact growth.keeps intact_grow ⟨linked, whole⟩
  | altered present taken =>
      exact ⟨Engine.linked_shifts (shifts_altered present taken) linked, whole⟩
  | removed removes present =>
      refine ⟨Engine.linked_remove linked present, ?_⟩
      simpa [Missed, Session.removed] using whole
  | linked different present unfed presentFed unfedFed ruled =>
      have leads := Action.destination_new ruled
      constructor
      · exact Engine.linked_link linked (leads ▸ different) present unfed (leads ▸ presentFed)
          unfedFed
      · simpa [Missed, Session.linked] using whole
  | cut present feeds presentFed sourceOfFed =>
      refine ⟨Engine.linked_cut linked _ _ presentFed sourceOfFed, ?_⟩
      simpa [Missed, Session.cut] using whole
  | saved timestamp =>
      refine ⟨linked, ?_⟩
      simpa [Missed, Session.saved] using whole
  | loaded | restored => exact absurd stays Bool.false_ne_true

theorem intact_step {operation : Operation} (stays : operation.isLocal = true)
    (intact : session.Intact) : (session.step operation).Intact :=
  intact_outcome (outcome operation session) stays intact

theorem intact_run {operations : List Operation}
    (stay : ∀ operation ∈ operations, operation.isLocal = true) (intact : session.Intact) :
    (session.run operations).Intact :=
  run_keeps intact_step stay intact

theorem intact_fresh (config : EngineConfig) (directory : Directory) :
    (fresh config directory).Intact := by
  refine ⟨Engine.linked_empty, ?_⟩
  rintro ⟨source, destination, member⟩
  exact nomatch member

/-- In every run that takes in no series from outside, rules are entered on both of their
sides and lead to no cycle, whatever the policies of the engine, and no closed bucket misses
its destination. -/
theorem rules_linked (config : EngineConfig) (directory : Directory)
    (operations : List Operation)
    (stay : ∀ operation ∈ operations, operation.isLocal = true) :
    Engine.Linked ((fresh config directory).run operations).engine.series ∧
      ∀ source destination, Event.destinationMissing source destination ∉
        ((fresh config directory).run operations).events := by
  obtain ⟨linked, whole⟩ := intact_run stay (intact_fresh config directory)
  exact ⟨linked, fun source destination member => whole ⟨source, destination, member⟩⟩

/-- A series that a policy feeds, deleted and created again, with another rule behind it. -/
def recreated : List Operation :=
  [.request (.addOrCreate "a" 5 .zero .none), .request (.delete "a_MAX_10"),
    .request (.create "a_MAX_10" .none), .request (.createRule "a" "a_MAX_10" .max 10),
    .request (.create "b" .none), .request (.createRule "a_MAX_10" "b" .last 20),
    .request (.createRule "a" "b" .last 20), .request (.add "a" 25 .zero none),
    .request (.deleteRule "a" "b"), .request (.delete "a")]

theorem rules_linked_recreated :
    (∀ operation ∈ recreated, operation.isLocal = true) ∧
      Engine.Linked ((fresh { EngineConfig.default with policies := [⟨.max, 10, 0⟩] } ∅).run
        recreated).engine.series ∧
      ∀ source destination, Event.destinationMissing source destination ∉
        ((fresh { EngineConfig.default with policies := [⟨.max, 10, 0⟩] } ∅).run
          recreated).events := by
  have stay : ∀ operation ∈ recreated, operation.isLocal = true := by
    unfold recreated
    simp [Operation.isLocal]
  exact ⟨stay, rules_linked _ ∅ recreated stay⟩

end Session

end Chronicle

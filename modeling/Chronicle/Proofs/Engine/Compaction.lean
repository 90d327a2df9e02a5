import Chronicle.Proofs.Compaction.Series
import Chronicle.Proofs.Engine.Lasting
import Chronicle.Proofs.Engine.Linked

/-!
Compaction over a whole run. A series that was empty when it was made the destination of a
rule, and that nothing else writes to, holds the aggregates of the closed buckets of what was
appended to the source since then, whatever else is done to the engine.
-/

namespace Chronicle

/-- The sample that a write has put behind all others of its series, if it has. -/
def Accepted.appended (accepted : Accepted) : Option Sample :=
  if accepted.written.kind = .appended then accepted.after.lastSample else none

def appendedTo (key : String) (accepted : List Accepted) : List Sample :=
  (accepted.filter (·.key = key)).filterMap Accepted.appended

theorem appended_to_append (key : String) (earlier later : List Accepted) :
    appendedTo key (earlier ++ later) = appendedTo key earlier ++ appendedTo key later := by
  rw [appendedTo, List.filter_append, List.filterMap_append]
  rfl

namespace Engine

/-- That a series feeds another by a rule that has taken in some samples and let go some
aggregates, and that the other one holds those that have been delivered. -/
structure Feeding (source destination : String) (kind : AggregationKind) (width : Duration)
    (samples closed delivered : List Sample) (series : SortedMap String Series) : Prop where
  watches : series.At source (Series.Watches destination kind width samples closed)
  keeps : series.At destination (Series.Keeps delivered)

section Feeding

variable {source destination : String} {kind : AggregationKind} {width : Duration}
  {samples closed delivered : List Sample} {series : SortedMap String Series} {engine : Engine}

theorem feeding_enroll
    (feeding : Feeding source destination kind width samples closed delivered engine.series)
    {new : Series} (free : engine.series.get? new.key = none) :
    Feeding source destination kind width samples closed delivered (engine.enroll new).series := by
  obtain ⟨⟨one, there, watches⟩, ⟨other, present, keeps⟩⟩ := feeding
  constructor
  · refine SortedMap.at_insert ⟨one, there, watches⟩ fun same => ?_
    exact nomatch (same ▸ free).symm.trans there
  · refine SortedMap.at_insert ⟨other, present, keeps⟩ fun same => ?_
    exact nomatch (same ▸ free).symm.trans present

theorem feeding_relink
    (feeding : Feeding source destination kind width samples closed delivered series)
    {key : String} {change : Series → Series} (relinks : Series.Relinks change)
    (stays : key = source → ∀ one : Series, ∀ rule ∈ one.rules,
      rule.destination = destination → rule ∈ (change one).rules) :
    Feeding source destination kind width samples closed delivered (series.adjust key change) where
  watches := by
    apply SortedMap.at_adjust feeding.watches
    intro one same watches
    obtain ⟨origin, rules, relinked⟩ := relinks one
    have kept := stays same one
    rw [relinked] at kept ⊢
    exact Series.watches_linked watches origin kept
  keeps := by
    apply SortedMap.at_adjust feeding.keeps
    intro one _ keeps
    obtain ⟨origin, rules, relinked⟩ := relinks one
    rw [relinked]
    exact Series.keeps_linked keeps origin rules

theorem feeding_set_source
    (feeding : Feeding source destination kind width samples closed delivered series)
    (key : String) (origin : Option String) :
    Feeding source destination kind width samples closed delivered
      (series.adjust key (·.setSource origin)) :=
  feeding_relink feeding (Series.relinks_set_source origin) fun _ _ _ among _ => among

theorem feeding_link
    (feeding : Feeding source destination kind width samples closed delivered engine.series)
    (origin : String) (rule : Rule) :
    Feeding source destination kind width samples closed delivered
      (engine.link origin rule).series := by
  apply feeding_set_source
  apply feeding_relink feeding (Series.relinks_add_rule rule)
  intro _ one old among _
  exact List.mem_append_left _ among

theorem feeding_remove_rule
    (feeding : Feeding source destination kind width samples closed delivered series)
    {origin target : String} (spares : ¬ (origin = source ∧ target = destination)) :
    Feeding source destination kind width samples closed delivered
      (series.adjust origin (·.removeRule target)) := by
  apply feeding_relink feeding (Series.relinks_remove_rule target)
  intro same one rule among leads
  apply (List.mem_eraseP_of_neg _).mpr among
  simpa [leads] using fun other => spares ⟨same, other.symm⟩

theorem feeding_cut
    (feeding : Feeding source destination kind width samples closed delivered engine.series)
    {origin target : String} (spares : ¬ (origin = source ∧ target = destination)) :
    Feeding source destination kind width samples closed delivered
      (engine.cut origin target).series :=
  feeding_set_source (feeding_remove_rule feeding spares) target none

theorem feeding_clear_source
    (feeding : Feeding source destination kind width samples closed delivered series)
    (key gone : String) :
    Feeding source destination kind width samples closed delivered
      (series.adjust key (clearSource gone)) := by
  apply feeding_relink feeding (Series.relinks_clear_source gone)
  intro _ one rule among _
  unfold clearSource
  split <;> exact among

theorem feeding_remove
    (feeding : Feeding source destination kind width samples closed delivered engine.series)
    {key : String} (notSource : source ≠ key) (notDestination : destination ≠ key)
    (gone : Series) :
    Feeding source destination kind width samples closed delivered
      ((engine.dismiss key gone).unlink key gone).series := by
  have dismissed : Feeding source destination kind width samples closed delivered
      (engine.dismiss key gone).series :=
    ⟨SortedMap.at_erase feeding.watches notSource, SortedMap.at_erase feeding.keeps notDestination⟩
  apply List.foldlRecOn
    (motive := Feeding source destination kind width samples closed delivered)
  · split
    · exact feeding_remove_rule dismissed fun both => notDestination both.2.symm
    · exact dismissed
  · intro series cleared fed _
    exact feeding_clear_source cleared fed key

end Feeding

end Engine

namespace Session

/-- That nothing was told between two moments of a delivery to a series that failed. -/
def Quiet (destination : String) (session after : Session) : Prop :=
  ∃ told, after.events = told ++ session.events ∧
    ∀ reason, Event.flushFailed destination reason ∉ told

section Quiet

variable {destination : String} {session middle after : Session}

theorem quiet_same (same : after.events = session.events) : Quiet destination session after :=
  ⟨[], same, fun _ => List.not_mem_nil⟩

theorem quiet_trans (first : Quiet destination session middle)
    (second : Quiet destination middle after) : Quiet destination session after := by
  obtain ⟨earlier, middleEvents, noneEarlier⟩ := first
  obtain ⟨later, events, noneLater⟩ := second
  refine ⟨later ++ earlier, by rw [events, middleEvents, List.append_assoc], ?_⟩
  intro reason member
  rcases List.mem_append.mp member with isLater | isEarlier
  · exact noneLater reason isLater
  · exact noneEarlier reason isEarlier

theorem quiet_event {event : Event} (told : after.events = event :: session.events)
    (other : ∀ reason, event ≠ .flushFailed destination reason) :
    Quiet destination session after := by
  refine ⟨[event], told, fun reason member => ?_⟩
  exact other reason (List.mem_singleton.mp member).symm

theorem quiet_trimmed {key : String} {trimmed : Trimmed}
    (told : after.events = trimEvents key trimmed ++ session.events) :
    Quiet destination session after := by
  refine ⟨_, told, fun reason member => ?_⟩
  unfold trimEvents at member
  split at member
  · exact nomatch member
  · exact nomatch List.mem_singleton.mp member

end Quiet

open Engine

section Deliver

variable {source destination : String} {kind : AggregationKind} {width : Duration}
  {samples closed delivered : List Sample} {session after : Session} {accepted : List Accepted}

theorem feeding_delivery_here
    (feeding : Feeding source destination kind width samples closed delivered
      session.engine.series) (different : source ≠ destination) (origin : String) {flush : Flush}
    (leads : flush.destination = destination)
    (newer : ∀ one ∈ delivered, one.timestamp < flush.timestamp) :
    Feeding source destination kind width samples closed (delivered ++ [flush.sample])
        (session.delivery origin flush).engine.series ∧
      Quiet destination session (session.delivery origin flush) := by
  obtain ⟨fed, present, keeps⟩ := feeding.keeps
  obtain ⟨longer, taken, kept⟩ := Series.keeps_received keeps newer flush.value
  have done : session.delivery origin flush = session.received destination longer .nothing := by
    rw [delivery, leads, present]
    dsimp only
    rw [taken]
  rw [done]
  refine ⟨⟨?_, ?_⟩, quiet_trimmed rfl⟩
  · exact SortedMap.at_insert feeding.watches fun same => absurd same.symm different
  · exact ⟨longer, by rw [received, store, SortedMap.get?_insert, if_pos rfl], kept⟩

theorem feeding_delivered_elsewhere
    (feeding : Feeding source destination kind width samples closed delivered
      session.engine.series) {origin : String} {flush : Flush}
    (arrived : session.Delivered origin flush after) (other : flush.destination ≠ destination) :
    Feeding source destination kind width samples closed delivered after.engine.series ∧
      Quiet destination session after := by
  cases arrived with
  | missing => exact ⟨feeding, quiet_event rfl nofun⟩
  | refused reason =>
      refine ⟨feeding, quiet_event rfl fun reason same => ?_⟩
      exact other (Event.flushFailed.inj same).1
  | taken present appended =>
      refine ⟨⟨?_, ?_⟩, quiet_trimmed rfl⟩
      · obtain ⟨one, there, watches⟩ := feeding.watches
        refine SortedMap.at_insert ⟨one, there, watches⟩ fun same => ?_
        obtain rfl := Option.some.inj ((same ▸ present).symm.trans there)
        exact Series.watches_received watches appended
      · exact SortedMap.at_insert feeding.keeps fun same => absurd same other

/-- What has been let go is delivered, and nothing else reaches the destination. -/
theorem feeding_deliveries (different : source ≠ destination) (origin : String)
    (flushes : List Flush)
    (feeding : Feeding source destination kind width samples closed delivered
      session.engine.series)
    (whole : closed = delivered ++
      (flushes.filter fun flush => flush.destination = destination).map Flush.sample) :
    Feeding source destination kind width samples closed closed
        (flushes.foldl (delivery origin) session).engine.series ∧
      Quiet destination session (flushes.foldl (delivery origin) session) := by
  induction flushes generalizing session delivered with
  | nil =>
      rw [List.filter_nil, List.map_nil, List.append_nil] at whole
      exact ⟨whole ▸ feeding, quiet_same rfl⟩
  | cons flush later ih =>
      by_cases here : flush.destination = destination
      · rw [List.filter_cons_of_pos (by simpa using here), List.map_cons] at whole
        obtain ⟨_, _, watches⟩ := feeding.watches
        have increasing := Series.increasing_of_watches watches
        rw [whole] at increasing
        have newer : ∀ one ∈ delivered, one.timestamp < flush.timestamp := fun one member =>
          (List.pairwise_append.mp increasing).2.2 one member _ List.mem_cons_self
        obtain ⟨fed, quiet⟩ := feeding_delivery_here feeding different origin here newer
        obtain ⟨done, quietLater⟩ := ih fed (by rw [whole, List.append_assoc]; rfl)
        exact ⟨done, quiet_trans quiet quietLater⟩
      · rw [List.filter_cons_of_neg (by simpa using here)] at whole
        obtain ⟨fed, quiet⟩ := feeding_delivered_elsewhere feeding
          (Session.delivered origin flush session) here
        obtain ⟨done, quietLater⟩ := ih fed whole
        exact ⟨done, quiet_trans quiet quietLater⟩

end Deliver

section Write

variable {source destination : String} {kind : AggregationKind} {width : Duration}
  {samples closed : List Sample} {session after : Session} {accepted : List Accepted}

theorem append_appended_to_nil (key : String) : samples ++ appendedTo key [] = samples :=
  List.append_nil samples

theorem appended_to_single (key : String) (accepted : Accepted) :
    appendedTo key [accepted] = if accepted.key = key then accepted.appended.toList else [] := by
  unfold appendedTo
  by_cases same : accepted.key = key
  · rw [List.filter_cons_of_pos (by simpa using same), if_pos same]
    cases appended : accepted.appended with
    | none => simp [appended]
    | some sample => simp [appended]
  · rw [List.filter_cons_of_neg (by simpa using same), if_neg same]
    rfl

/-- Only the source of a series lets something go to it. -/
theorem destination_not_fed (linked : Linked session.engine.series)
    (feeding : Feeding source destination kind width samples closed closed session.engine.series)
    {key : String} {old : Series} (present : session.engine.series.get? key = some old)
    (other : key ≠ source) : destination ∉ old.destinations := by
  intro leads
  obtain ⟨one, there, watches⟩ := feeding.watches
  obtain ⟨fed, found, sourceOfFed⟩ := (linked.fed key old present destination leads).2
  obtain ⟨again, foundAgain, sourceAgain⟩ :=
    (linked.fed source one there destination (Series.feeds_of_watches watches)).2
  obtain rfl := Option.some.inj (found.symm.trans foundAgain)
  exact other (Option.some.inj (sourceOfFed.symm.trans sourceAgain))

theorem feeding_wrote (linked : Linked session.engine.series)
    (feeding : Feeding source destination kind width samples closed closed session.engine.series)
    {key : String} {old new : Series} {timestamp : Timestamp} {value : Value}
    {override : Option DuplicatePolicy} {written : Written}
    (present : session.engine.series.get? key = some old)
    (taken : old.add timestamp value override = .ok (new, written)) (free : key ≠ destination) :
    ∃ more, Feeding source destination kind width
        (samples ++ appendedTo source [⟨key, new, written⟩]) more more
        (written.flushes.foldl (delivery key) (session.stored key new written)).engine.series ∧
      Quiet destination session
        (written.flushes.foldl (delivery key) (session.stored key new written)) := by
  obtain ⟨one, there, watches⟩ := feeding.watches
  have different : source ≠ destination :=
    (linked.fed source one there destination (Series.feeds_of_watches watches)).1.symm
  have quiet : Quiet destination session (session.stored key new written) := quiet_trimmed rfl
  have keeps : (session.stored key new written).engine.series.At destination
      (Series.Keeps closed) :=
    SortedMap.at_insert feeding.keeps fun same => absurd same free
  rw [appended_to_single]
  split
  · rename_i same
    obtain rfl : key = source := same
    obtain rfl := Option.some.inj (present.symm.trans there)
    have watching := Series.watches_add watches (linked.distinct key old present) taken
    have entered : (session.stored key new written).engine.series.get? key = some new := by
      rw [stored, store, SortedMap.get?_insert, if_pos rfl]
    have stored : Feeding key destination kind width _ _ closed
        (session.stored key new written).engine.series := ⟨⟨new, entered, watching⟩, keeps⟩
    obtain ⟨done, quietLater⟩ := feeding_deliveries different key written.flushes stored rfl
    exact ⟨_, done, quiet_trans quiet quietLater⟩
  · rename_i other
    have nowhere := Series.flushes_outside taken (destination_not_fed linked feeding present other)
    have stored : Feeding source destination kind width samples closed closed
        (session.stored key new written).engine.series :=
      ⟨SortedMap.at_insert feeding.watches fun same => absurd same other, keeps⟩
    obtain ⟨done, quietLater⟩ := feeding_deliveries different key written.flushes stored
      (by rw [nowhere, List.map_nil, List.append_nil])
    rw [List.append_nil]
    exact ⟨_, done, quiet_trans quiet quietLater⟩

theorem feeding_grow (linked : Linked session.engine.series)
    (feeding : Feeding source destination kind width samples closed closed session.engine.series)
    (grow : Grow session accepted after) (free : ∀ one ∈ accepted, one.key ≠ destination) :
    ∃ more, Feeding source destination kind width (samples ++ appendedTo source accepted) more more
        after.engine.series ∧ Quiet destination session after := by
  cases grow with
  | rejected | answered =>
      exact ⟨closed, by rwa [append_appended_to_nil], quiet_same rfl⟩
  | vanished key =>
      exact ⟨closed, by rwa [append_appended_to_nil], quiet_event rfl nofun⟩
  | created unused made =>
      refine ⟨closed, ?_, quiet_event rfl nofun⟩
      rw [append_appended_to_nil]
      exact feeding_enroll feeding unused
  | @fed origin _ new _ _ rule present unfed unused _ _ made ruled =>
      have enrolled : Quiet destination session (session.enrolled new) := quiet_event rfl nofun
      refine ⟨closed, ?_, quiet_trans enrolled (quiet_event rfl nofun)⟩
      rw [append_appended_to_nil]
      exact feeding_link (feeding_enroll feeding unused) origin rule
  | wrote present taken =>
      exact feeding_wrote linked feeding present taken (free _ List.mem_cons_self)

theorem feeding_growth (growth : Growth session accepted after)
    (linked : Linked session.engine.series)
    (feeding : Feeding source destination kind width samples closed closed session.engine.series)
    (free : ∀ one ∈ accepted, one.key ≠ destination) :
    ∃ more, Feeding source destination kind width (samples ++ appendedTo source accepted) more more
        after.engine.series ∧ Quiet destination session after := by
  induction growth generalizing samples closed with
  | still session =>
      exact ⟨closed, by rwa [append_appended_to_nil], quiet_same rfl⟩
  | step grow _ ih =>
      obtain ⟨more, feedingMiddle, quiet⟩ := feeding_grow linked feeding grow fun one member =>
        free one (List.mem_append_left _ member)
      obtain ⟨most, feedingAfter, quietLater⟩ := ih (linked_shifts (shifts_grow grow) linked)
        feedingMiddle fun one member => free one (List.mem_append_right _ member)
      rw [appended_to_append, ← List.append_assoc]
      exact ⟨most, feedingAfter, quiet_trans quiet quietLater⟩

end Write

end Session

/-- That an operation leaves a rule and both of its ends alone: it takes no series in from
outside, removes none of the three, writes no sample to the destination, and does not make it
drop samples. -/
structure Operation.Spares (source destination : String) (operation : Operation)
    (session : Session) : Prop where
  stays : operation.isLocal = true
  keepsSource : operation.removes ≠ some source
  keepsDestination : operation.removes ≠ some destination
  keepsRule : operation.cuts ≠ some (source, destination)
  unwritten : ∀ accepted ∈ operation.accepted session, accepted.key ≠ destination
  retention : ∀ fed ∈ (session.step operation).engine.series.get? destination, fed.retention = 0

instance (source destination : String) (operation : Operation) (session : Session) :
    Decidable (operation.Spares source destination session) :=
  decidable_of_iff
    (operation.isLocal = true ∧ operation.removes ≠ some source ∧
      operation.removes ≠ some destination ∧ operation.cuts ≠ some (source, destination) ∧
      (∀ accepted ∈ operation.accepted session, accepted.key ≠ destination) ∧
      ∀ fed ∈ (session.step operation).engine.series.get? destination, fed.retention = 0)
    ⟨fun ⟨stays, first, second, rule, unwritten, kept⟩ =>
        ⟨stays, first, second, rule, unwritten, kept⟩,
      fun ⟨stays, first, second, rule, unwritten, kept⟩ =>
        ⟨stays, first, second, rule, unwritten, kept⟩⟩

namespace Session

open Engine

def Undisturbed (source destination : String) : List Operation → Session → Prop
  | [], _ => True
  | operation :: later, session =>
      operation.Spares source destination session ∧
        Undisturbed source destination later (session.step operation)

instance decidableUndisturbed (source destination : String) : ∀ operations session,
    Decidable (Undisturbed source destination operations session)
  | [], _ => isTrue trivial
  | _ :: later, _ =>
      have := decidableUndisturbed source destination later
      inferInstanceAs (Decidable (_ ∧ _))

/-- What the writes of a run have put behind all others of one series. -/
def appendedBy (key : String) : List Operation → Session → List Sample
  | [], _ => []
  | operation :: later, session =>
      appendedTo key (operation.accepted session) ++ appendedBy key later (session.step operation)

variable {source destination : String} {kind : AggregationKind} {width : Duration}
  {samples closed : List Sample} {session : Session}

theorem feeding_altered
    (feeding : Feeding source destination kind width samples closed closed session.engine.series)
    {key : String} {alteration : Alteration} {old new : Series}
    (present : session.engine.series.get? key = some old)
    (taken : old.alter alteration = .ok new)
    (retention : ∀ fed ∈ (session.altered key alteration old new).engine.series.get? destination,
      fed.retention = 0) :
    Feeding source destination kind width samples closed closed
      (session.altered key alteration old new).engine.series := by
  have same : (session.altered key alteration old new).engine.series =
      session.engine.series.insert key new := by
    unfold Session.altered
    dsimp only
    split <;> rfl
  rw [same] at retention ⊢
  obtain ⟨⟨one, there, watches⟩, ⟨other, found, keeps⟩⟩ := feeding
  obtain rfl := Series.alter_outcome taken
  constructor
  · refine SortedMap.at_insert ⟨one, there, watches⟩ fun here => ?_
    obtain rfl := Option.some.inj (there.symm.trans (here ▸ present))
    exact Series.watches_altered watches alteration
  · refine SortedMap.at_insert ⟨other, found, keeps⟩ fun here => ?_
    obtain rfl := Option.some.inj (found.symm.trans (here ▸ present))
    refine Series.keeps_altered keeps alteration (retention _ ?_)
    rw [SortedMap.get?_insert, if_pos here.symm, Option.mem_some_iff]

theorem feeding_outcome {operation : Operation} {after : Session}
    (outcome : Outcome session operation after) (linked : Linked session.engine.series)
    (feeding : Feeding source destination kind width samples closed closed session.engine.series)
    (spares : operation.Spares source destination session)
    (retention : ∀ fed ∈ after.engine.series.get? destination, fed.retention = 0) :
    ∃ more, Feeding source destination kind width
        (samples ++ appendedTo source (operation.accepted session)) more more
        after.engine.series ∧
      Quiet destination session after := by
  -- samples come in by growth only, so for all else nothing is taken in
  cases grows : operation.grows with
  | true =>
      cases outcome with
      | grown _ growth => exact feeding_growth growth linked feeding spares.unwritten
      | same change => exact nomatch grows.symm.trans change
      | removed removes => exact nomatch grows.symm.trans (grows_of_removes removes)
      | altered | linked | cut | loaded | saved | restored => exact nomatch grows
  | false =>
      rw [accepted_of_change grows, append_appended_to_nil]
      refine ⟨closed, ?_⟩
      cases outcome with
      | same => exact ⟨feeding, quiet_same rfl⟩
      | grown change => exact nomatch grows.symm.trans change
      | altered present taken =>
          exact ⟨feeding_altered feeding present taken retention, quiet_same rfl⟩
      | @removed _ key gone removes present =>
          refine ⟨feeding_remove feeding ?_ ?_ gone, quiet_event rfl nofun⟩
          · exact fun same => spares.keepsSource (same ▸ removes)
          · exact fun same => spares.keepsDestination (same ▸ removes)
      | linked => exact ⟨feeding_link feeding _ _, quiet_event rfl nofun⟩
      | cut =>
          refine ⟨feeding_cut feeding ?_, quiet_event rfl nofun⟩
          rintro ⟨rfl, rfl⟩
          exact spares.keepsRule rfl
      | saved => exact ⟨feeding, quiet_event rfl nofun⟩
      | loaded | restored => exact nomatch spares.stays

theorem feeding_run {operations : List Operation} (intact : session.Intact)
    (feeding : Feeding source destination kind width samples closed closed session.engine.series)
    (undisturbed : Undisturbed source destination operations session) :
    ∃ more, Feeding source destination kind width (samples ++ appendedBy source operations session)
        more more (session.run operations).engine.series ∧
      Quiet destination session (session.run operations) := by
  induction operations generalizing session samples closed with
  | nil => exact ⟨closed, by rwa [appendedBy, List.append_nil], quiet_same rfl⟩
  | cons operation later ih =>
      obtain ⟨spares, rest⟩ := undisturbed
      obtain ⟨more, feedingMiddle, quiet⟩ := feeding_outcome (outcome operation session)
        intact.linked feeding spares spares.retention
      obtain ⟨most, feedingAfter, quietLater⟩ := ih (intact_step spares.stays intact) feedingMiddle
        rest
      rw [appendedBy, ← List.append_assoc]
      exact ⟨most, feedingAfter, quiet_trans quiet quietLater⟩

theorem feeding_entered {entered : Session} (filed : session.engine.All Series.Filed)
    (empty : session.engine.series.At destination fun fed =>
      fed.retention = 0 ∧ fed.store.isEmpty = true)
    (created : (Action.createRule source destination kind width).perform session =
      (.ok (), entered)) :
    Feeding source destination kind width [] [] [] entered.engine.series := by
  rcases Action.create_rule_outcome source destination kind width session with
    ⟨refused, failed⟩ | ⟨feeding, fed, rule, different, present, _, presentFed, _, ruled, done⟩
  · exact nomatch failed.symm.trans created
  obtain ⟨_, rfl⟩ := Prod.mk.inj (done.symm.trans created)
  obtain ⟨rfl, rfl, rfl, tracks⟩ := Rule.tracks_new ruled
  obtain ⟨one, found, retention, bare⟩ := empty
  obtain rfl := Option.some.inj (presentFed.symm.trans found)
  constructor
  · refine ⟨feeding.addRule rule, ?_, filed source feeding present, ?_, rule, ?_, rfl, tracks⟩
    · rw [linked, link, SortedMap.get?_adjust, if_neg different, SortedMap.get?_adjust, if_pos rfl,
        present, Option.map_some]
    · exact fun one member => absurd member List.not_mem_nil
    · exact List.mem_append_right _ List.mem_cons_self
  · obtain ⟨runs, files⟩ := filed rule.destination fed presentFed
    obtain rfl := (Store.is_empty_eq files).mp bare
    refine ⟨fed.setSource (some source), ?_, retention, [], files, rfl⟩
    rw [linked, link, SortedMap.get?_adjust, if_pos rfl, SortedMap.get?_adjust,
      if_neg (Ne.symm different), presentFed, Option.map_some]

/-- A series without retention that is empty when a rule to it is entered, and is left alone
with the rule and its source from then on, holds at every later moment the aggregates by
buckets of what writes have put behind all others of the source since then. No delivery to it
has failed. -/
theorem compaction_exact (config : EngineConfig) (directory : Directory)
    (earlier later : List Operation) (source destination : String) (kind : AggregationKind)
    (width : Duration) (entered : Session)
    (stay : ∀ operation ∈ earlier, operation.isLocal = true)
    (empty : ((fresh config directory).run earlier).engine.series.At destination fun fed =>
      fed.retention = 0 ∧ fed.store.isEmpty = true)
    (created : (Action.createRule source destination kind width).perform
      ((fresh config directory).run earlier) = (.ok (), entered))
    (undisturbed : Undisturbed source destination later entered) :
    ∃ fed aggregates told,
      (entered.run later).engine.series.get? destination = some fed ∧
      fed.store.contents = .ok aggregates ∧
      Compacts kind width (appendedBy source later entered) aggregates ∧
      (entered.run later).events = told ++ entered.events ∧
      ∀ reason, Event.flushFailed destination reason ∉ told := by
  have filed : ((fresh config directory).run earlier).engine.All Series.Filed :=
    all_run Series.lasting_filed stay SortedMap.every_empty
  have intact : entered.Intact := by
    have before := intact_run stay (intact_fresh config directory)
    have rule := @intact_step _ (.request (.createRule source destination kind width)) rfl before
    rwa [step, Operation.action, Request.action, created] at rule
  have feeding := feeding_entered filed empty created
  obtain ⟨aggregates, done, told, events, none⟩ := feeding_run intact feeding undisturbed
  obtain ⟨_, _, watches⟩ := done.watches
  obtain ⟨fed, present, keeps⟩ := done.keeps
  obtain ⟨rule, _, outline, tracks⟩ := watches.rule
  obtain ⟨runs, files, rfl⟩ := keeps.samples
  have compacts := tracks.compacts
  have sameKind : rule.kind = kind := congrArg (·.2.1) outline
  have sameWidth : rule.width = width := congrArg (·.2.2) outline
  rw [sameKind, sameWidth, List.nil_append] at compacts
  exact ⟨fed, runs.flatten, told, present, Store.contents_eq files, compacts, events, none⟩

def unruled : List Operation :=
  [.request (.create "a" { SeriesOptions.none with encoding := some .uncompressed }),
    .request (.create "b" .none)]

/-- Samples that open, fill and close buckets, one that comes late, one that is merged, and
another rule from the same series that comes and goes. -/
def buckets : List Operation :=
  [.request (.add "a" 5 ⟨0x4000000000000000⟩ none), .request (.add "a" 3 ⟨0x4010000000000000⟩ none),
    .request (.create "c" .none), .request (.createRule "a" "c" .last 20),
    .request (.add "a" 12 .zero none), .request (.add "a" 17 ⟨0x3ff0000000000000⟩ none),
    .request (.add "a" 17 ⟨0x4010000000000000⟩ (some .last)),
    .request (.alter "b" ⟨some 0, none, none, some (.ofList [("of", "a")])⟩),
    .request (.addMany [("a", ⟨31, .zero⟩), ("c", ⟨90, .zero⟩), ("a", ⟨44, .zero⟩)]),
    .request (.delete "c"), .request (.add "a" 70 .zero none)]

theorem compaction_exact_buckets :
    ∃ entered, (Action.createRule "a" "b" .max 10).perform ((fresh .default ∅).run unruled) =
        (.ok (), entered) ∧
      Undisturbed "a" "b" buckets entered ∧
      ∃ fed aggregates told, (entered.run buckets).engine.series.get? "b" = some fed ∧
        fed.store.contents = .ok aggregates ∧
        Compacts .max 10 (appendedBy "a" buckets entered) aggregates ∧
        (entered.run buckets).events = told ++ entered.events ∧
        ∀ reason, Event.flushFailed "b" reason ∉ told := by
  have stay : ∀ operation ∈ unruled, operation.isLocal = true := by
    unfold unruled
    simp [Operation.isLocal]
  have bare : ∃ fed ∈ ((fresh .default ∅).run unruled).engine.series.get? "b",
      fed.retention = 0 ∧ fed.store.isEmpty = true := by
    decide +kernel
  have undisturbed : Undisturbed "a" "b" buckets
      ((Action.createRule "a" "b" .max 10).perform ((fresh .default ∅).run unruled)).2 := by
    decide +kernel
  have succeeded : ((Action.createRule "a" "b" .max 10).perform
      ((fresh .default ∅).run unruled)).1.isOk = true := by
    decide +kernel
  have created : (Action.createRule "a" "b" .max 10).perform ((fresh .default ∅).run unruled) =
      (.ok (), ((Action.createRule "a" "b" .max 10).perform
        ((fresh .default ∅).run unruled)).2) := by
    refine Prod.ext ?_ rfl
    cases answer : ((Action.createRule "a" "b" .max 10).perform
        ((fresh .default ∅).run unruled)).1 with
    | ok => rfl
    | error refused =>
        rw [answer] at succeeded
        exact absurd succeeded Bool.false_ne_true
  obtain ⟨fed, present, kept⟩ := bare
  exact ⟨_, created, undisturbed, compaction_exact .default ∅ unruled buckets "a" "b" .max 10 _ stay
    ⟨fed, present, kept⟩ created undisturbed⟩

end Session

end Chronicle

import Chronicle.Proofs.Engine.Lasting
import Chronicle.Proofs.Series.Count

/-!
Balances. What series hold, what is counted and what is reported are written in different
places, by writes, by deliveries, by trimming and by removals. Each single change of a session
is balanced: what it adds to one of the three it adds to the others, or says where it went.
-/

namespace Chronicle

inductive Fate where
  | taken
  | missing
  | refused (reason : String)
deriving DecidableEq

/-- A closed bucket on its way, and the series that it found at its destination. -/
structure Delivery where
  source : String
  flush : Flush
  found : Option Series

namespace Delivery

def fate (delivery : Delivery) : Fate :=
  match delivery.found with
  | none => .missing
  | some fed =>
      match fed.appendCompacted delivery.flush.timestamp delivery.flush.value with
      | .error refused => .refused refused.message
      | .ok _ => .taken

section Fate

variable (source : String) {flush : Flush} {fed : Series}

theorem fate_refused {refused : Error}
    (appended : fed.appendCompacted flush.timestamp flush.value = .error refused) :
    fate ⟨source, flush, some fed⟩ = .refused refused.message := by
  simp [fate, appended]

theorem fate_taken {result : Series × Trimmed}
    (appended : fed.appendCompacted flush.timestamp flush.value = .ok result) :
    fate ⟨source, flush, some fed⟩ = .taken := by
  simp [fate, appended]

end Fate

def reports (delivery : Delivery) : List Event :=
  match delivery.fate with
  | .taken => []
  | .missing => [.destinationMissing delivery.source delivery.flush.destination]
  | .refused reason => [.flushFailed delivery.flush.destination reason]

def closed (delivery : Delivery) : String × Flush := (delivery.source, delivery.flush)

end Delivery

def Accepted.closed (one : Accepted) : List (String × Flush) :=
  one.written.flushes.map fun flush => (one.key, flush)

namespace Event

def trimmedSamples : Event → Nat
  | .chunksTrimmed _ trimmed => trimmed.samples
  | _ => 0

def isCreation : Event → Bool
  | .seriesCreated _ => true
  | _ => false

def isDeletion : Event → Bool
  | .seriesDeleted _ => true
  | _ => false

def isLoss : Event → Bool
  | .destinationMissing .. | .flushFailed .. => true
  | _ => false

/-- That a report is of nothing that is counted in accounts. -/
structure Uncounted (event : Event) : Prop where
  untrimmed : event.trimmedSamples = 0
  uncreated : event.isCreation = false
  undeleted : event.isDeletion = false
  unlost : event.isLoss = false

end Event

namespace Session

def held (session : Session) : Nat :=
  total (fun one => (one.info false).totalSamples) session.engine.series.values

def trimmed (session : Session) : Nat := total Event.trimmedSamples session.events

def losses (session : Session) : List Event := (session.events.filter Event.isLoss).reverse

/-- What some accepted writes, some deliveries and the removal of some series changed in the
accounts of a session. -/
structure Balances (before after : Session) (accepted : List Accepted)
    (deliveries : List Delivery) (gone : List Series) : Prop where
  held : after.held + after.trimmed + total (fun one => one.store.count) gone =
    before.held + before.trimmed + accepted.countP (fun one => one.written.kind ≠ .merged) +
      deliveries.countP (fun one => one.fate = .taken)
  appended : countOf .sampleAppended after.signals = countOf .sampleAppended before.signals +
    accepted.countP (fun one => one.written.kind = .appended) +
      deliveries.countP (fun one => one.fate = .taken)
  delivered : countOf .flushDelivered after.signals = countOf .flushDelivered before.signals +
    deliveries.countP (fun one => one.fate = .taken)
  losses : after.losses = before.losses ++ deliveries.flatMap Delivery.reports
  deleted : after.events.countP Event.isDeletion =
    before.events.countP Event.isDeletion + gone.length
  keys : after.engine.series.size + gone.length + before.events.countP Event.isCreation =
    before.engine.series.size + after.events.countP Event.isCreation

section Compose

variable {before middle after : Session} {accepted more : List Accepted}
  {deliveries further : List Delivery} {gone lost : List Series}

theorem balances_refl (session : Session) : Balances session session [] [] [] :=
  ⟨rfl, rfl, rfl, (List.append_nil _).symm, rfl, rfl⟩

theorem balances_trans (first : Balances before middle accepted deliveries gone)
    (second : Balances middle after more further lost) :
    Balances before after (accepted ++ more) (deliveries ++ further) (gone ++ lost) where
  held := by
    have one := first.held
    have other := second.held
    rw [List.countP_append, List.countP_append, total_append]
    omega
  appended := by
    have one := first.appended
    have other := second.appended
    rw [List.countP_append, List.countP_append]
    omega
  delivered := by
    have one := first.delivered
    have other := second.delivered
    rw [List.countP_append]
    omega
  losses := by
    rw [second.losses, first.losses, List.flatMap_append, List.append_assoc]
  deleted := by
    rw [second.deleted, first.deleted, List.length_append, Nat.add_assoc]
  keys := by
    have one := first.keys
    have other := second.keys
    rw [List.length_append]
    omega

end Compose

section Changes

variable {session : Session} {key : String} {old new : Series}

theorem held_eq (session : Session) :
    session.held = total (fun one => one.store.count) session.engine.series.values := rfl

/-- A change that leaves all series with as many samples as before, and reports nothing that
counts. -/
theorem balances_still {after : Session} (held : after.held = session.held)
    (size : after.engine.series.size = session.engine.series.size)
    (events : after.events = session.events ∨
      ∃ event, event.Uncounted ∧ after.events = event :: session.events)
    (signals : after.signals = session.signals ∨ ∃ given, after.signals = given :: session.signals ∧
      given ≠ .sampleAppended ∧ given ≠ .flushDelivered) :
    Balances session after [] [] [] := by
  have counted : ∀ given : Signal, given = .sampleAppended ∨ given = .flushDelivered →
      countOf given after.signals = countOf given session.signals := by
    intro given counts
    rcases signals with same | ⟨other, more, notAppended, notDelivered⟩
    · rw [same]
    · rw [countOf, countOf, more, List.count_cons_of_ne]
      rintro rfl
      rcases counts with rfl | rfl <;> contradiction
  have appended := counted _ (Or.inl rfl)
  have delivered := counted _ (Or.inr rfl)
  rcases events with same | ⟨event, ⟨untrimmed, uncreated, undeleted, unlost⟩, more⟩
  · exact ⟨by simp [trimmed, held, same, total], by simp [appended], by simp [delivered],
      by simp [losses, same], by simp [same], by simp [size, same]⟩
  · refine ⟨?_, by simp [appended], by simp [delivered], ?_, ?_, ?_⟩
    · simp [trimmed, held, more, total, untrimmed]
    · simp [losses, more, unlost]
    · simp [more, undeleted]
    · simp [size, more, uncreated]

/-- A series is exchanged for one with some samples more, less those that were trimmed. -/
theorem amounts_exchanged (after : Session)
    (present : session.engine.series.get? key = some old)
    {trimmed : Trimmed} {gain : Nat} (counted : new.store.count + trimmed.samples =
      old.store.count + gain) (none : trimmed.isEmpty = true → trimmed.samples = 0)
    (series : after.engine.series = session.engine.series.insert key new)
    (events : after.events = trimEvents key trimmed ++ session.events) :
    after.held + after.trimmed = session.held + session.trimmed + gain ∧
      after.losses = session.losses ∧
      after.events.countP Event.isDeletion = session.events.countP Event.isDeletion ∧
      after.events.countP Event.isCreation = session.events.countP Event.isCreation ∧
      after.engine.series.size = session.engine.series.size := by
  have exchanged := SortedMap.total_exchange (fun one => one.store.count) present new
  rw [← series, ← held_eq, ← held_eq] at exchanged
  have size := SortedMap.size_exchange present new
  rw [← series] at size
  cases empty : trimmed.isEmpty with
  | true =>
      have same : after.events = session.events := by rw [events, trimEvents, empty]; rfl
      refine ⟨?_, by rw [losses, losses, same], by rw [same], by rw [same], size⟩
      have nothing := none empty
      rw [Session.trimmed, Session.trimmed, same]
      omega
  | false =>
      have told : after.events = .chunksTrimmed key trimmed :: session.events := by
        rw [events, trimEvents, empty]
        rfl
      refine ⟨?_, by rw [losses, losses, told]; rfl, by rw [told]; rfl, by rw [told]; rfl, size⟩
      rw [Session.trimmed, Session.trimmed, told, total, Event.trimmedSamples]
      omega

theorem balances_wrote (filed : old.Filed) (present : session.engine.series.get? key = some old)
    {timestamp : Timestamp} {value : Value} {override : Option DuplicatePolicy}
    {written : Written} (taken : old.add timestamp value override = .ok (new, written)) :
    Balances session (session.stored key new written) [⟨key, new, written⟩] [] [] := by
  obtain ⟨counted, none⟩ := Series.count_add filed taken
  obtain ⟨held, losses, deleted, created, size⟩ :=
    amounts_exchanged (session.stored key new written) present counted none rfl rfl
  have signals : (session.stored key new written).signals =
      (if written.kind = .appended then .sampleAppended else .sampleUpserted) ::
        session.signals := rfl
  constructor
  · cases kind : written.kind <;> rw [kind] at held <;> simpa [kind, total] using held
  · rw [signals]
    cases kind : written.kind <;> simp [countOf, kind]
  · rw [signals]
    cases kind : written.kind <;> simp [countOf]
  · rw [losses]
    simp
  · exact deleted
  · rw [created, size]
    rfl

theorem balances_lost {delivery : Delivery} {event : Event}
    (failed : delivery.fate ≠ .taken) (reports : delivery.reports = [event])
    (loss : event.isLoss = true) : Balances session (session.tell event) [] [delivery] [] := by
  have others : event.trimmedSamples = 0 ∧ event.isCreation = false ∧
      event.isDeletion = false := by
    cases event <;> first | exact ⟨rfl, rfl, rfl⟩ | exact nomatch loss
  obtain ⟨untrimmed, uncreated, undeleted⟩ := others
  constructor
  · simp [failed, tell, held, trimmed, total, untrimmed]
  · simp [failed, tell]
  · simp [failed, tell]
  · simp [reports, tell, losses, loss]
  · simp [tell, undeleted]
  · simp [tell, uncreated]

/-- A closed bucket is taken in and counted, or its loss is reported. -/
theorem balances_delivery (filed : session.engine.All Series.Filed) (source : String)
    (flush : Flush) : Balances session (session.delivery source flush) []
      [⟨source, flush, session.engine.series.get? flush.destination⟩] [] := by
  unfold delivery
  cases present : session.engine.series.get? flush.destination with
  | none => exact balances_lost Fate.noConfusion rfl rfl
  | some fed =>
      dsimp only
      cases appended : fed.appendCompacted flush.timestamp flush.value with
      | error refused =>
          have fate := Delivery.fate_refused source appended
          refine balances_lost (fate ▸ Fate.noConfusion) ?_ rfl
          rw [Delivery.reports, fate]
      | ok result =>
          obtain ⟨longer, trimmed⟩ := result
          have fate := Delivery.fate_taken source appended
          obtain ⟨counted, none⟩ := Series.count_append_compacted (filed _ _ present) appended
          obtain ⟨held, losses, deleted, created, size⟩ := amounts_exchanged
            (session.received flush.destination longer trimmed) present counted none rfl rfl
          constructor
          · simpa [fate, total] using held
          · simp [received, fate, countOf]
          · simp [received, fate, countOf]
          · simp [losses, Delivery.reports, fate]
          · exact deleted
          · rw [created, size]
            rfl

theorem balances_enrolled {series : Series} (free : session.engine.series.get? series.key = none)
    (empty : series.store.count = 0) : Balances session (session.enrolled series) [] [] [] := by
  have entered := SortedMap.total_enter (fun one => one.store.count) free series
  have size := SortedMap.size_enter free series
  constructor
  · rw [held_eq, held_eq, trimmed, trimmed]
    simp only [enrolled, Engine.enroll, total, Event.trimmedSamples, List.countP_nil]
    omega
  · simp [enrolled, countOf]
  · simp [enrolled, countOf]
  · simp [enrolled, losses, Event.isLoss]
  · rfl
  · simp only [enrolled, Engine.enroll, List.countP_cons, Event.isCreation, size]
    simp only [if_true, List.length_nil]
    omega

/-- That as many series hold as many samples in all. -/
def SameAmounts (before after : SortedMap String Series) : Prop :=
  total (fun one => one.store.count) after.values =
      total (fun one => one.store.count) before.values ∧
    after.size = before.size

theorem same_amounts_adjust {before series : SortedMap String Series} (key : String)
    {change : Series → Series} (relinks : Series.Relinks change)
    (same : SameAmounts before series) : SameAmounts before (series.adjust key change) := by
  have ignores : ∀ one : Series, (change one).store.count = one.store.count := by
    intro one
    obtain ⟨source, rules, relinked⟩ := relinks one
    rw [relinked]
  exact ⟨(SortedMap.total_adjust (fun one : Series => one.store.count) ignores key).trans same.1,
    (SortedMap.size_adjust key change).trans same.2⟩

theorem balances_linked (source : String) (rule : Rule) :
    Balances session (session.linked source rule) [] [] [] := by
  obtain ⟨held, size⟩ := Engine.link_keeps (motive := SameAmounts session.engine.series)
    same_amounts_adjust ⟨rfl, rfl⟩ source rule
  exact balances_still held size (Or.inr ⟨_, ⟨rfl, rfl, rfl, rfl⟩, rfl⟩) (Or.inl rfl)

theorem balances_cut (source destination : String) :
    Balances session (session.cut source destination) [] [] [] := by
  obtain ⟨held, size⟩ := Engine.cut_keeps (motive := SameAmounts session.engine.series)
    same_amounts_adjust ⟨rfl, rfl⟩ source destination
  exact balances_still held size (Or.inr ⟨_, ⟨rfl, rfl, rfl, rfl⟩, rfl⟩) (Or.inl rfl)

theorem balances_saved (timestamp : Timestamp) :
    Balances session (session.saved timestamp) [] [] [] :=
  balances_still rfl rfl (Or.inr ⟨_, ⟨rfl, rfl, rfl, rfl⟩, rfl⟩)
    (Or.inr ⟨_, rfl, Signal.noConfusion, Signal.noConfusion⟩)

theorem balances_altered (present : session.engine.series.get? key = some old)
    {alteration : Alteration} (taken : old.alter alteration = .ok new) :
    Balances session (session.altered key alteration old new) [] [] [] := by
  have same : new.store.count = old.store.count := by rw [Series.alter_outcome taken]; rfl
  have series : (session.altered key alteration old new).engine.series =
      session.engine.series.insert key new := by
    unfold altered
    dsimp only
    split <;> rfl
  have exchanged := SortedMap.total_exchange (fun one => one.store.count) present new
  refine balances_still ?_ ?_ (Or.inl rfl) (Or.inl rfl)
  · rw [held_eq, held_eq, series]
    omega
  · rw [series, SortedMap.size_exchange present]

theorem balances_removed (present : session.engine.series.get? key = some old) :
    Balances session (session.removed key old) [] [] [old] := by
  obtain ⟨held, size⟩ := Engine.unlink_keeps
    (motive := SameAmounts (session.engine.dismiss key old).series)
    same_amounts_adjust ⟨rfl, rfl⟩ key old
  have taken := SortedMap.total_erase (fun one => one.store.count) present
  have fewer := SortedMap.size_erase present
  have dismissed : (session.engine.dismiss key old).series = session.engine.series.erase key := rfl
  rw [dismissed] at held size
  constructor
  · rw [held_eq, held_eq, trimmed, trimmed]
    simp only [removed, total, Event.trimmedSamples, List.countP_nil]
    omega
  · simp [removed, countOf]
  · simp [removed, countOf]
  · simp [removed, losses, Event.isLoss]
  · exact List.countP_cons_of_pos rfl
  · simp only [removed, List.countP_cons, Event.isCreation, List.length_singleton]
    simp only [Bool.false_eq_true, if_false]
    omega

end Changes

end Session

end Chronicle

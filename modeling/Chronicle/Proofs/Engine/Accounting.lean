import Chronicle.Proofs.Engine.Balance
import Chronicle.Proofs.Series.Retention

/-!
The accounts of runs. In every run that takes no series in from outside, the samples held,
the samples trimmed and those of removed series add up to the samples that were counted as
appended and the writes that inserted one; and every bucket that a write closed is counted as
delivered or reported as lost.
-/

namespace Chronicle

/-- That a write tells rightly what it did to a series, by what was to be seen of it before. -/
def Accepted.Placed (one : Accepted) : Prop :=
  ∃ before visible value override, Series.range before .everything = .ok visible ∧
    before.add one.written.timestamp value override = .ok (one.after, one.written) ∧
    one.written.kind = View.placing visible one.written.timestamp

theorem placed_add {key : String} {old new : Series} {timestamp : Timestamp} {value : Value}
    {override : Option DuplicatePolicy} {written : Written} (filed : old.Filed)
    (taken : old.add timestamp value override = .ok (new, written)) :
    Accepted.Placed ⟨key, new, written⟩ := by
  obtain ⟨view, shows⟩ := filed.shows
  have moment : written.timestamp = timestamp := by
    rcases Series.add_outcome taken with ⟨_, _, _, _, _, told⟩ | ⟨_, _, _, _, _, told⟩ <;> rw [told]
  have follows := Series.add_shown shows timestamp value override
  rw [taken] at follows
  generalize told : view.add timestamp value override = expected at follows
  cases follows with
  | taken _ _ =>
      have placed := View.places_accepted shows.windowed told
      subst moment
      refine ⟨old, view.samples, value, override, ?_, taken, placed.stored⟩
      rw [Series.range_shown shows, View.range_everything]

def Operation.removed (operation : Operation) (session : Session) : List Series :=
  (operation.removes.bind session.engine.series.get?).toList

namespace Session

variable {session after : Session} {accepted : List Accepted}

/-- That some accepted writes, what came of the buckets that they closed, and the removal of
some series are all that changed in the accounts of a session. -/
structure Accounted (before after : Session) (accepted : List Accepted) (gone : List Series) :
    Prop where
  placed : ∀ one ∈ accepted, one.Placed
  balances : ∃ deliveries, deliveries.map Delivery.closed = accepted.flatMap Accepted.closed ∧
    Balances before after accepted deliveries gone

theorem accounted_quiet {gone : List Series} (balances : Balances session after [] [] gone) :
    Accounted session after [] gone :=
  ⟨List.forall_mem_nil _, [], rfl, balances⟩

theorem accounted_trans {middle : Session} {more : List Accepted} {gone lost : List Series}
    (first : Accounted session middle accepted gone) (second : Accounted middle after more lost) :
    Accounted session after (accepted ++ more) (gone ++ lost) := by
  obtain ⟨placed, deliveries, carried, balances⟩ := first
  obtain ⟨later, further, carriedLater, balancesLater⟩ := second
  refine ⟨List.forall_mem_append.mpr ⟨placed, later⟩, deliveries ++ further, ?_,
    balances_trans balances balancesLater⟩
  rw [List.map_append, List.flatMap_append, carried, carriedLater]

theorem balances_deliveries (source : String) (flushes : List Flush) {session : Session}
    (filed : session.engine.All Series.Filed) :
    ∃ deliveries, deliveries.map Delivery.closed = flushes.map (fun flush => (source, flush)) ∧
      Balances session (flushes.foldl (delivery source) session) [] deliveries [] := by
  induction flushes generalizing session with
  | nil => exact ⟨[], rfl, balances_refl session⟩
  | cons flush later ih =>
      have kept := all_delivered Series.lasting_filed (delivered source flush session) filed
      obtain ⟨deliveries, carried, rest⟩ := ih kept
      have first := balances_delivery filed source flush
      refine ⟨_, ?_, balances_trans first rest⟩
      rw [List.singleton_append, List.map_cons, List.map_cons, carried]
      rfl

theorem accounted_grow (grow : Grow session accepted after)
    (filed : session.engine.All Series.Filed) : Accounted session after accepted [] := by
  cases grow with
  | rejected =>
      exact accounted_quiet (balances_still rfl rfl (Or.inl rfl)
        (Or.inr ⟨_, rfl, Signal.noConfusion, Signal.noConfusion⟩))
  | answered =>
      exact accounted_quiet (balances_still rfl rfl (Or.inl rfl)
        (Or.inr ⟨_, rfl, Signal.noConfusion, Signal.noConfusion⟩))
  | vanished =>
      exact accounted_quiet (balances_still rfl rfl (Or.inr ⟨_, ⟨rfl, rfl, rfl, rfl⟩, rfl⟩)
        (Or.inl rfl))
  | created free made => exact accounted_quiet (balances_enrolled free (Series.count_new made))
  | fed present unfed free made ruled =>
      have enrolled := balances_enrolled free (Series.count_new made)
      exact accounted_quiet (balances_trans enrolled (balances_linked _ _))
  | @wrote key old new _ _ _ written present taken =>
      have one := filed key old present
      have stored : (session.stored key new written).engine.All Series.Filed :=
        SortedMap.every_insert filed (Series.filed_add one taken)
      obtain ⟨deliveries, carried, rest⟩ := balances_deliveries key written.flushes stored
      refine ⟨List.forall_mem_singleton.mpr (placed_add one taken), deliveries, ?_, ?_⟩
      · rw [carried, List.flatMap_singleton]
        rfl
      · exact balances_trans (balances_wrote one present taken) rest

theorem accounted_growth (growth : Growth session accepted after)
    (filed : session.engine.All Series.Filed) : Accounted session after accepted [] := by
  induction growth with
  | still session => exact accounted_quiet (balances_refl session)
  | step grow _ ih =>
      have kept := all_grow Series.lasting_filed grow filed
      exact accounted_trans (accounted_grow grow filed) (ih kept)

/-- A removal takes out the series that it is asked for, or finds none. -/
theorem step_removes {operation : Operation} {key : String}
    (removes : operation.removes = some key) (session : Session) :
    (session.engine.series.get? key = none ∧ session.step operation = session) ∨
      ∃ gone, session.engine.series.get? key = some gone ∧
        session.step operation = session.removed key gone := by
  have asked : operation = .request (.delete key) ∨ operation = .request (.notifyDeleted key) := by
    cases operation with
    | request asked =>
        cases asked with
        | delete => exact Or.inl (Option.some.inj removes ▸ rfl)
        | notifyDeleted => exact Or.inr (Option.some.inj removes ▸ rfl)
        | _ => exact nomatch removes
    | _ => exact nomatch removes
  unfold step
  rcases asked with rfl | rfl
  · rw [Operation.action, Request.action]
    rcases Action.delete_outcome key session with ⟨absent, failed⟩ | ⟨gone, present, done⟩
    · exact Or.inl ⟨absent, by rw [failed]⟩
    · exact Or.inr ⟨gone, present, by rw [done]⟩
  · rw [Operation.action, Request.action, Action.perform_quiet]
    rcases Action.notify_deleted_outcome key session with ⟨absent, done⟩ | ⟨gone, present, done⟩
    · exact Or.inl ⟨absent, by rw [done]⟩
    · exact Or.inr ⟨gone, present, by rw [done]⟩

theorem accounted_step {operation : Operation} (stays : operation.isLocal = true)
    (filed : session.engine.All Series.Filed) : Accounted session (session.step operation)
      (operation.accepted session) (operation.removed session) := by
  -- an outcome may be that nothing changed, so what a removal did is looked up by its key
  cases removes : operation.removes with
  | some key =>
      rw [accepted_of_change (grows_of_removes removes), Operation.removed, removes,
        Option.bind_some]
      rcases step_removes removes session with ⟨absent, same⟩ | ⟨gone, present, taken⟩
      · rw [absent, same]
        exact accounted_quiet (balances_refl session)
      · rw [present, taken]
        exact accounted_quiet (balances_removed present)
  | none =>
      rw [Operation.removed, removes]
      have outcome := outcome operation session
      generalize session.step operation = after at outcome
      cases outcome with
      | same change =>
          rw [accepted_of_change change]
          exact accounted_quiet (balances_refl session)
      | grown grows growth => exact accounted_growth growth filed
      | altered present taken => exact accounted_quiet (balances_altered present taken)
      | removed asked => exact nomatch removes.symm.trans asked
      | linked => exact accounted_quiet (balances_linked _ _)
      | cut => exact accounted_quiet (balances_cut _ _)
      | saved timestamp => exact accounted_quiet (balances_saved timestamp)
      | loaded | restored => exact nomatch stays

/-- The writes that a run makes and that are accepted. What rules deliver is not among them. -/
def writesOf : List Operation → Session → List Accepted
  | [], _ => []
  | operation :: later, session =>
      operation.accepted session ++ writesOf later (session.step operation)

/-- The series that a run removes, as they are when they are removed. -/
def removedOf : List Operation → Session → List Series
  | [], _ => []
  | operation :: later, session =>
      operation.removed session ++ removedOf later (session.step operation)

theorem accounted_run {operations : List Operation}
    (stay : ∀ operation ∈ operations, operation.isLocal = true)
    (filed : session.engine.All Series.Filed) : Accounted session (session.run operations)
      (writesOf operations session) (removedOf operations session) := by
  induction operations generalizing session with
  | nil => exact accounted_quiet (balances_refl session)
  | cons operation later ih =>
      have stays := stay operation List.mem_cons_self
      have kept := all_outcome Series.lasting_filed (outcome operation session) stays filed
      exact accounted_trans (accounted_step stays filed)
        (ih (fun next member => stay next (List.mem_cons_of_mem operation member)) kept)

theorem removed_of_none {operations : List Operation}
    (keep : ∀ operation ∈ operations, operation.removes = none) (session : Session) :
    removedOf operations session = [] := by
  induction operations generalizing session with
  | nil => rfl
  | cons operation later ih =>
      rw [removedOf, Operation.removed, keep operation List.mem_cons_self,
        ih fun next member => keep next (List.mem_cons_of_mem operation member)]
      rfl

/-- What holds between the samples, the counts and the reports of a session that has come from
an empty one by some accepted writes and the removal of some series. -/
structure Accounts (session : Session) (writes : List Accepted) (gone : List Series) : Prop where
  samples : session.held + session.trimmed +
      total (fun one => (one.info false).totalSamples) gone =
    countOf .sampleAppended session.signals +
      writes.countP (fun one => one.written.kind = .inserted)
  appended : countOf .sampleAppended session.signals =
    writes.countP (fun one => one.written.kind = .appended) +
      countOf .flushDelivered session.signals
  placed : ∀ one ∈ writes, one.Placed
  buckets : ∃ deliveries : List Delivery,
    deliveries.map Delivery.closed = writes.flatMap Accepted.closed ∧
    countOf .flushDelivered session.signals = deliveries.countP (fun one => one.fate = .taken) ∧
    session.losses = deliveries.flatMap Delivery.reports
  deleted : session.events.countP Event.isDeletion = gone.length
  created : session.events.countP Event.isCreation = session.engine.series.size + gone.length

theorem count_unmerged (writes : List Accepted) :
    writes.countP (fun one => one.written.kind ≠ .merged) =
      writes.countP (fun one => one.written.kind = .appended) +
        writes.countP (fun one => one.written.kind = .inserted) := by
  induction writes with
  | nil => rfl
  | cons one later ih =>
      rw [List.countP_cons, List.countP_cons, List.countP_cons, ih]
      cases one.written.kind <;> simp <;> omega

theorem accounts_of_accounted {config : EngineConfig} {directory : Directory}
    {writes : List Accepted} {gone : List Series}
    (accounted : Accounted (fresh config directory) session writes gone) :
    Accounts session writes gone := by
  obtain ⟨placed, deliveries, carried, balances⟩ := accounted
  have held := balances.held
  have appended := balances.appended
  have delivered := balances.delivered
  have created := balances.keys
  have empty : (fresh config directory).held = 0 ∧ (fresh config directory).trimmed = 0 ∧
      countOf .sampleAppended (fresh config directory).signals = 0 ∧
      countOf .flushDelivered (fresh config directory).signals = 0 ∧
      (fresh config directory).engine.series.size = 0 ∧
      (fresh config directory).events.countP Event.isCreation = 0 := ⟨rfl, rfl, rfl, rfl, rfl, rfl⟩
  obtain ⟨noneHeld, noneTrimmed, noneAppended, noneDelivered, noKeys, noneCreated⟩ := empty
  have unmerged := count_unmerged writes
  constructor
  · change session.held + session.trimmed + total (fun one => one.store.count) gone = _
    omega
  · omega
  · exact placed
  · refine ⟨deliveries, carried, by omega, ?_⟩
    rw [balances.losses]
    rfl
  · rw [balances.deleted]
    exact Nat.zero_add _
  · omega

/-- In every run that takes no series in from outside the accounts agree: samples and series
are held, or trimmed or removed, as they were counted, and each closed bucket was counted as
delivered or reported as lost. Where nothing is removed, all of them are held or trimmed. -/
theorem accounts_agree (config : EngineConfig) (directory : Directory)
    {operations : List Operation} (stay : ∀ operation ∈ operations, operation.isLocal = true) :
    Accounts ((fresh config directory).run operations)
        (writesOf operations (fresh config directory))
        (removedOf operations (fresh config directory)) ∧
      ((∀ operation ∈ operations, operation.removes = none) →
        Accounts ((fresh config directory).run operations)
          (writesOf operations (fresh config directory)) []) := by
  have filed : (fresh config directory).engine.All Series.Filed := fun _ _ among => nomatch among
  have accounts := accounts_of_accounted (accounted_run stay filed)
  refine ⟨accounts, fun keep => ?_⟩
  rwa [removed_of_none keep] at accounts

/-- Samples that are appended, inserted, merged and trimmed, buckets that are delivered and
refused, and a series that is removed. -/
def ledger : List Operation :=
  [.request (.create "a" { SeriesOptions.none with encoding := some .uncompressed }),
    .request (.create "b" .none), .request (.createRule "a" "b" .sum 10),
    .request (.addMany [("a", ⟨1, .zero⟩), ("a", ⟨12, .zero⟩), ("a", ⟨5, .zero⟩)]),
    .request (.add "a" 12 .zero (some .last)), .request (.add "b" 95 .zero none),
    .request (.add "a" 107 .zero none),
    .request (.create "c" { SeriesOptions.none with
      retention := some 10, chunkSize := some 48, encoding := some .uncompressed }),
    .request (.addMany [("c", ⟨1, .zero⟩), ("c", ⟨2, .zero⟩), ("c", ⟨3, .zero⟩),
      ("c", ⟨4, .zero⟩), ("c", ⟨40, .zero⟩)]),
    .request (.notifyDeleted "c")]

theorem accounts_agree_ledger :
    (∀ operation ∈ ledger, operation.isLocal = true) ∧
      Accounts ((fresh .default ∅).run ledger) (writesOf ledger (fresh .default ∅))
        (removedOf ledger (fresh .default ∅)) ∧
      ((fresh .default ∅).run ledger).held = 6 ∧ ((fresh .default ∅).run ledger).trimmed = 3 ∧
      countOf .sampleAppended ((fresh .default ∅).run ledger).signals = 10 ∧
      countOf .flushDelivered ((fresh .default ∅).run ledger).signals = 1 ∧
      ((fresh .default ∅).run ledger).losses.length = 1 := by
  have stay : ∀ operation ∈ ledger, operation.isLocal = true := by
    unfold ledger
    simp [Operation.isLocal]
  exact ⟨stay, (accounts_agree .default ∅ stay).1, by decide +kernel⟩

/-- A series that its host reports as deleted. -/
def dismissal : List Operation :=
  [.request (.create "a" .none), .request (.add "a" 1 .zero none),
    .request (.notifyDeleted "a")]

/-- A series that is removed takes its samples out of what is held, and nothing else. -/
theorem dismissal_unbalances :
    (∀ operation ∈ dismissal, operation.isLocal = true ∧
      ∀ key, operation ≠ .request (.delete key)) ∧
    ((fresh .default ∅).run dismissal).held + ((fresh .default ∅).run dismissal).trimmed ≠
      countOf .sampleAppended ((fresh .default ∅).run dismissal).signals +
        (writesOf dismissal (fresh .default ∅)).countP (fun one => one.written.kind = .inserted) ∧
    ((fresh .default ∅).run dismissal).events.countP Event.isCreation ≠
      ((fresh .default ∅).run dismissal).engine.series.size := by
  refine ⟨?_, by decide +kernel, by decide +kernel⟩
  unfold dismissal
  simp [Operation.isLocal]

end Session

end Chronicle

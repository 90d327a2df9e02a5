import Chronicle.Proofs.Engine.Fanout

/-!
How far an operation reaches. A write reaches the series that it feeds directly. A series that
is removed leaves nothing but its links to be struck, rules are entered and struck at their two
ends alone, and settings are changed in one series. Whatever else there is stays as it was.
-/

namespace Chronicle

namespace Series

variable {one : Series} {key : String}

def without (key : String) (one : Series) : Series :=
  { one with
    sourceKey := if one.sourceKey = some key then none else one.sourceKey
    rules := one.rules.filter (·.destination ≠ key) }

theorem remove_rule_eq (distinct : one.destinations.Nodup) (key : String) :
    one.removeRule key = { one with rules := one.rules.filter (·.destination ≠ key) } := by
  have same : one.rules.eraseP (·.destination = key) =
      one.rules.filter (·.destination ≠ key) := by
    unfold destinations at distinct
    generalize one.rules = rules at distinct
    induction rules with
    | nil => rfl
    | cons rule later ih =>
        rw [List.map_cons, List.nodup_cons] at distinct
        by_cases leads : rule.destination = key
        · have others : ∀ other ∈ later, decide (other.destination ≠ key) = true := by
            intro other among
            apply decide_eq_true
            rintro same
            exact distinct.1 (List.mem_map.mpr ⟨other, among, same.trans leads.symm⟩)
          rw [List.eraseP_cons_of_pos (by simpa using leads),
            List.filter_cons_of_neg (by simpa using leads), List.filter_eq_self.mpr others]
        · rw [List.eraseP_cons_of_neg (by simpa using leads),
            List.filter_cons_of_pos (by simpa using leads), ih distinct.2]
  rw [removeRule, same]

theorem remove_rule_outside (outside : key ∉ one.destinations) : one.removeRule key = one := by
  have kept : one.rules.eraseP (·.destination = key) = one.rules := by
    apply List.eraseP_of_forall_not
    intro rule among leads
    exact outside (of_decide_eq_true leads ▸ List.mem_map_of_mem among)
  rw [removeRule, kept]

theorem clear_source_outside (unfed : one.sourceKey ≠ some key) :
    Engine.clearSource key one = one := if_neg unfed

theorem without_eq (distinct : one.destinations.Nodup) (key : String) :
    Engine.clearSource key (one.removeRule key) = one.without key := by
  rw [remove_rule_eq distinct, Engine.clearSource, without]
  dsimp only
  split <;> rfl

end Series

/-- How far the removal of a series reaches: to the links of others to it. -/
structure Removes (key : String) (before after : SortedMap String Series) : Prop where
  gone : after.get? key = none
  others : ∀ other, other ≠ key → after.get? other = (before.get? other).map (·.without key)

namespace Engine

variable {series : SortedMap String Series} {engine : Engine} {key other : String}
  {gone one : Series}

theorem get?_clear_sources (gone : String) (destinations : List String) (key : String) :
    (destinations.foldl (fun series fed => series.adjust fed (clearSource gone)) series).get? key =
      if key ∈ destinations then (series.get? key).map (clearSource gone)
      else series.get? key := by
  have twice : clearSource gone ∘ clearSource gone = clearSource gone := by
    funext one
    apply Series.clear_source_outside
    rw [Ne, source_clear_source]
    exact fun both => both.2 rfl
  induction destinations generalizing series with
  | nil => rfl
  | cons first later ih =>
      rw [List.foldl_cons, ih, SortedMap.get?_adjust]
      by_cases here : key = first
      · subst here
        rw [if_pos rfl, if_pos List.mem_cons_self, Option.map_map, twice]
        split <;> rfl
      · rw [if_neg here]
        simp only [List.mem_cons, here, false_or]

/-- No other series has links to one that is not there. -/
theorem removes_absent (linked : Linked series) (absent : series.get? key = none) :
    Removes key series series where
  gone := absent
  others := by
    intro other different
    cases present : series.get? other with
    | none => rfl
    | some one =>
        have outside : key ∉ one.destinations := by
          intro leads
          obtain ⟨_, there, _⟩ := (linked.fed other one present key leads).2
          exact nomatch absent.symm.trans there
        have unfed : one.sourceKey ≠ some key := by
          intro sourceOfOne
          obtain ⟨_, there, _⟩ := linked.feeding other one present key sourceOfOne
          exact nomatch absent.symm.trans there
        rw [Option.map_some, ← Series.without_eq (linked.distinct other one present),
          Series.remove_rule_outside outside, Series.clear_source_outside unfed]

def strike (series : SortedMap String Series) (key : String) (gone : Series) :
    SortedMap String Series :=
  match gone.sourceKey with
  | some source => series.adjust source (·.removeRule key)
  | none => series

theorem unlink_series (engine : Engine) (key : String) (gone : Series) :
    (engine.unlink key gone).series = gone.destinations.foldl
      (fun series fed => series.adjust fed (clearSource key)) (strike engine.series key gone) := rfl

section Unlink

variable (linked : Linked engine.series) (present : engine.series.get? key = some gone)

include linked present

theorem get?_strike (other : String) :
    (strike (engine.series.erase key) key gone).get? other =
      if other = key then none else (engine.series.get? other).map (·.removeRule key) := by
  have outside : ∀ one, engine.series.get? other = some one → gone.sourceKey ≠ some other →
      one.removeRule key = one := by
    intro one there notSource
    apply Series.remove_rule_outside
    intro leads
    obtain ⟨fed, found, sourceOfFed⟩ := (linked.fed other one there key leads).2
    obtain rfl := Option.some.inj (present.symm.trans found)
    exact notSource sourceOfFed
  have elsewhere : gone.sourceKey ≠ some other → engine.series.get? other =
      (engine.series.get? other).map (·.removeRule key) := by
    intro notSource
    cases there : engine.series.get? other with
    | none => rfl
    | some one => rw [Option.map_some, outside one there notSource]
  unfold strike
  cases sourceOfGone : gone.sourceKey with
  | none =>
      rw [SortedMap.get?_erase, ← elsewhere (by rw [sourceOfGone]; exact nofun)]
  | some source =>
      dsimp only
      rw [SortedMap.get?_adjust]
      split
      · rename_i here
        rw [here, SortedMap.get?_erase]
        split <;> rfl
      · rename_i notSource
        rw [SortedMap.get?_erase, ← elsewhere fun same =>
          notSource (Option.some.inj (same.symm.trans sourceOfGone))]

theorem removes_unlink :
    Removes key engine.series ((engine.dismiss key gone).unlink key gone).series := by
  have struck := get?_strike linked present
  constructor
  · rw [unlink_series, get?_clear_sources, dismiss, struck, if_pos rfl]
    split <;> rfl
  · intro other different
    rw [unlink_series, get?_clear_sources, dismiss, struck, if_neg different]
    cases there : engine.series.get? other with
    | none => split <;> rfl
    | some one =>
        have distinct := linked.distinct other one there
        simp only [Option.map_some, ← Series.without_eq distinct]
        split
        · rfl
        · rename_i notFed
          have unfed : (one.removeRule key).sourceKey ≠ some key := by
            intro sourceOfOne
            obtain ⟨feeding, found, once⟩ := linked.feeding other one there key sourceOfOne
            obtain rfl := Option.some.inj (present.symm.trans found)
            exact notFed (List.count_pos_iff.mp (by rw [once]; exact Nat.one_pos))
          rw [Series.clear_source_outside unfed]

end Unlink

end Engine

/-- How far a rule reaches as it is entered or struck: to the rules of its source and to the
source that its destination has. -/
def Relinked (source destination : String) (rules : List Rule → List Rule)
    (origin : Option String) (before after : SortedMap String Series) : Prop :=
  ∀ other, after.get? other = (before.get? other).map fun one =>
    { one with
      sourceKey := if other = destination then origin else one.sourceKey
      rules := if other = source then rules one.rules else one.rules }

theorem relinked_adjust {series : SortedMap String Series} {source destination : String}
    {change : Series → Series} {rules : List Rule → List Rule} {origin : Option String}
    (ruled : ∀ one, series.get? source = some one →
      change one = { one with rules := rules one.rules }) :
    Relinked source destination rules origin series
      ((series.adjust source change).adjust destination (·.setSource origin)) := by
  intro other
  have changed : (series.adjust source change).get? other = (series.get? other).map fun one =>
      { one with rules := if other = source then rules one.rules else one.rules } := by
    rw [SortedMap.get?_adjust]
    split
    · rename_i here
      subst here
      cases there : series.get? other with
      | none => rfl
      | some one => rw [Option.map_some, ruled one there]; rfl
    · exact Option.map_id'.symm
  rw [SortedMap.get?_adjust]
  by_cases here : other = destination
  · rw [if_pos here, ← here, changed, Option.map_map]
    simp only [if_true]
    rfl
  · rw [if_neg here, changed]
    simp only [if_neg here]

/-- How far a change of settings reaches: to one series, which is what the change leaves of it, and
of which neither a sample nor a link is touched. -/
structure Alters (key : String) (alteration : Alteration)
    (before after : SortedMap String Series) : Prop where
  elsewhere : ∀ other, other ≠ key → after.get? other = before.get? other
  own : after.get? key =
    (before.get? key).map fun old => (old.alter alteration).toOption.getD old
  keeps : ∀ old new, before.get? key = some old → after.get? key = some new →
    new.key = old.key ∧ new.sourceKey = old.sourceKey ∧ new.rules = old.rules ∧
      new.store = { old.store with config := new.store.config }

theorem alters_of_own {key : String} {alteration : Alteration}
    {before after : SortedMap String Series}
    (elsewhere : ∀ other, other ≠ key → after.get? other = before.get? other)
    (own : after.get? key =
      (before.get? key).map fun old => (old.alter alteration).toOption.getD old) :
    Alters key alteration before after where
  elsewhere := elsewhere
  own := own
  keeps := by
    intro old new present changed
    rw [own, present, Option.map_some] at changed
    obtain rfl := Option.some.inj changed
    cases taken : old.alter alteration with
    | error fault => exact ⟨rfl, rfl, rfl, rfl⟩
    | ok altered =>
        rw [Series.alter_outcome taken]
        exact ⟨rfl, rfl, rfl, rfl⟩

namespace Session

variable {session : Session}

theorem alters_step (key : String) (alteration : Alteration) (session : Session) :
    Alters key alteration session.engine.series
      ((Action.alter key alteration).perform session).2.engine.series := by
  rcases Action.alter_outcome key alteration session with ⟨refused, failed⟩ |
    ⟨old, new, present, taken, done⟩
  · rw [failed]
    apply alters_of_own fun _ _ => rfl
    cases present : session.engine.series.get? key with
    | none => rfl
    | some old =>
        cases taken : old.alter alteration with
        | error fault => rw [Option.map_some, taken]; rfl
        | ok new => exact nomatch failed.symm.trans (Action.perform_alter present taken)
  · have stored : (session.altered key alteration old new).engine.series =
        session.engine.series.insert key new := by
      unfold altered
      dsimp only
      split <;> rfl
    rw [done, stored]
    apply alters_of_own
    · intro other different
      rw [SortedMap.get?_insert, if_neg different]
    · rw [SortedMap.get?_insert, if_pos rfl, present, Option.map_some, taken]
      rfl

/-- How far the operations reach that a session can be asked for next. -/
structure Confined (session : Session) : Prop where
  added : ∀ key old timestamp value override, session.engine.series.get? key = some old →
    Writes key old (old.add timestamp value override) session.engine.series
      (session.step (.request (.add key timestamp value override))).engine.series
  increased : ∀ key old change timestamp options, session.engine.series.get? key = some old →
    Writes key old (Action.step timestamp change old) session.engine.series
      (session.step (.request (.increase key change timestamp options))).engine.series
  decreased : ∀ key old change timestamp options, session.engine.series.get? key = some old →
    Writes key old (Action.step timestamp change.neg old) session.engine.series
      (session.step (.request (.decrease key change timestamp options))).engine.series
  deleted : ∀ key, Removes key session.engine.series
    (session.step (.request (.delete key))).engine.series
  notified : ∀ key, Removes key session.engine.series
    (session.step (.request (.notifyDeleted key))).engine.series
  ruled : ∀ source destination kind width,
    if (Request.createRule source destination kind width).succeeds session then
      ∃ rule, Rule.new destination kind width = .ok rule ∧
        Relinked source destination (· ++ [rule]) (some source) session.engine.series
          (session.step (.request (.createRule source destination kind width))).engine.series
    else session.step (.request (.createRule source destination kind width)) = session
  unruled : ∀ source destination,
    if (Request.deleteRule source destination).succeeds session then
      Relinked source destination (·.filter (·.destination ≠ destination)) none
        session.engine.series
        (session.step (.request (.deleteRule source destination))).engine.series
    else session.step (.request (.deleteRule source destination)) = session
  altered : ∀ key alteration, Alters key alteration session.engine.series
    (session.step (.request (.alter key alteration))).engine.series

section Confined

open Chronicle.Action

variable (linked : Engine.Linked session.engine.series)

include linked

theorem confined (aligned : session.engine.All Series.Aligned) : session.Confined where
  added := by
    intro key old timestamp value override present
    rw [step, Operation.action, Request.action, perform_quiet]
    exact writes_write linked present aligned (adds_add timestamp value override)
  increased := by
    intro key old change timestamp options present
    rw [step, Operation.action, Request.action, perform_quiet]
    exact writes_ensured linked present aligned options (adds_step timestamp change)
  decreased := by
    intro key old change timestamp options present
    rw [step, Operation.action, Request.action, perform_quiet]
    exact writes_ensured linked present aligned options (adds_step timestamp change.neg)
  deleted := by
    intro key
    rw [step, Operation.action, Request.action]
    rcases delete_outcome key session with ⟨absent, failed⟩ | ⟨gone, present, done⟩
    · rw [failed]
      exact Engine.removes_absent linked absent
    · rw [done]
      exact Engine.removes_unlink linked present
  notified := by
    intro key
    rw [step, Operation.action, Request.action, perform_quiet]
    rcases notify_deleted_outcome key session with ⟨absent, done⟩ | ⟨gone, present, done⟩
    · rw [done]
      exact Engine.removes_absent linked absent
    · rw [done]
      exact Engine.removes_unlink linked present
  ruled := by
    intro source destination kind width
    rw [Request.succeeds, step, Operation.action, Request.action]
    rcases create_rule_outcome source destination kind width session with ⟨refused, failed⟩ |
      ⟨feeding, fed, rule, _, _, _, _, _, made, done⟩
    · rw [failed]
      exact rfl
    · have leads := destination_new made
      subst leads
      rw [done]
      exact ⟨rule, made, relinked_adjust fun _ _ => rfl⟩
  unruled := by
    intro source destination
    rw [Request.succeeds, step, Operation.action, Request.action]
    rcases delete_rule_outcome source destination session with ⟨refused, failed⟩ |
      ⟨feeding, fed, _, _, _, _, done⟩
    · rw [failed]
      exact rfl
    · rw [done]
      exact relinked_adjust fun one there =>
        Series.remove_rule_eq (linked.distinct source one there) destination
  altered := fun key alteration => alters_step key alteration session

end Confined

/-- In every session that takes no series in from outside, whatever happened to it and whatever
an operation is given, the operation changes what it is about and the series that are linked to
it, these no further than the link goes. -/
theorem operations_confined (config : EngineConfig) (directory : Directory)
    (operations : List Operation)
    (stay : ∀ operation ∈ operations, operation.isLocal = true) :
    ((fresh config directory).run operations).Confined := by
  have linked := (intact_run stay (intact_fresh config directory)).linked
  have aligned : ((fresh config directory).run operations).engine.All Series.Aligned :=
    all_run Series.lasting_aligned stay SortedMap.every_empty
  exact confined linked aligned

/-- Two rules with a bucket open each, which the same write will close. -/
def forked : List Operation :=
  [.request (.create "a" .none), .request (.create "b" .none), .request (.create "c" .none),
    .request (.createRule "a" "b" .last 10), .request (.createRule "a" "c" .first 5),
    .request (.add "a" 3 ⟨1⟩ none)]

theorem operations_confined_forked :
    (∀ operation ∈ forked, operation.isLocal = true) ∧
      ((fresh .default ∅).run forked).Confined ∧ ∃ old,
        ((fresh .default ∅).run forked).engine.series.get? "a" = some old ∧
        old.destinations = ["b", "c"] ∧
        Writes "a" old (old.add 25 ⟨2⟩ none) ((fresh .default ∅).run forked).engine.series
          (((fresh .default ∅).run forked).step
            (.request (.add "a" 25 ⟨2⟩ none))).engine.series ∧
        ∀ key ∈ ["b", "c"], ((((fresh .default ∅).run forked).step
          (.request (.add "a" 25 ⟨2⟩ none))).engine.series.get? key).bind (·.lastSample) =
            some ⟨0, ⟨1⟩⟩ := by
  have stay : ∀ operation ∈ forked, operation.isLocal = true := by
    unfold forked
    simp [Operation.isLocal]
  have confined := operations_confined .default ∅ forked stay
  have feeds : (((fresh .default ∅).run forked).engine.series.get? "a").map (·.destinations) =
      some ["b", "c"] := by
    decide +kernel
  obtain ⟨old, present, destinations⟩ := Option.map_eq_some_iff.mp feeds
  exact ⟨stay, confined, old, present, destinations, confined.added "a" old 25 ⟨2⟩ none present,
    by decide +kernel⟩

end Session

end Chronicle

import Chronicle.Proofs.Engine.Shift
import Chronicle.Proofs.SortedMap

/-!
Rules that follow one another. What a rule delivers is not seen by the rules of the
series that it is delivered to, so a series that is fed by a rule should have none. All
requests keep to that but one: a rule may be entered whose destination has rules.
-/

namespace Chronicle

/-- That a series is not fed by a rule and has rules too. -/
def Series.OneHop (series : Series) : Prop := series.sourceKey = none ∨ series.rules = []

namespace Engine

def OneHop (series : SortedMap String Series) : Prop :=
  ∀ key one, series.get? key = some one → one.OneHop

variable {engine after : Engine}

theorem one_hop_links {old new : Series} (links : old.SameLinks new) (oneHop : old.OneHop) :
    new.OneHop := by
  rcases oneHop with unfed | none
  · exact Or.inl (links.source.trans unfed)
  · refine Or.inr (List.map_eq_nil_iff.mp (links.destinations.trans ?_))
    rw [none, List.map_nil]

theorem one_hop_remove_rule {one : Series} (destination : String) (oneHop : one.OneHop) :
    (one.removeRule destination).OneHop := by
  rcases oneHop with unfed | none
  · exact Or.inl unfed
  · exact Or.inr (by simp [Series.removeRule, none])

theorem one_hop_clear_source {one : Series} (source : String) (oneHop : one.OneHop) :
    (clearSource source one).OneHop := by
  unfold clearSource
  split
  · exact Or.inl rfl
  · exact oneHop

theorem one_hop_link (oneHop : OneHop engine.series) {source : String} {feeding fed : Series}
    {rule : Rule} (present : engine.series.get? source = some feeding)
    (unfed : feeding.sourceKey = none) (presentFed : engine.series.get? rule.destination = some fed)
    (noRules : fed.rules = []) (different : source ≠ rule.destination) :
    OneHop (engine.link source rule).series := by
  refine SortedMap.every_adjust (SortedMap.every_adjust oneHop ?_) ?_
  · intro one found
    rw [present] at found
    obtain rfl := Option.some.inj found
    exact Or.inl unfed
  · intro one found
    rw [SortedMap.get?_adjust, if_neg (Ne.symm different), presentFed] at found
    obtain rfl := Option.some.inj found
    exact Or.inr noRules

theorem one_hop_unlink (oneHop : OneHop engine.series) (key : String) (gone : Series) :
    OneHop (engine.unlink key gone).series := by
  refine @every_clear_sources _ (fun _ one => one.OneHop) ?_ key
    (fun _ _ => one_hop_clear_source key) _
  split
  · exact SortedMap.every_adjust oneHop fun one found =>
      one_hop_remove_rule key (oneHop _ one found)
  · exact oneHop

/-- No shift makes a series that is fed own a rule. -/
theorem one_hop_shift (shift : Shift engine after) (oneHop : OneHop engine.series) :
    OneHop after.series := by
  cases shift with
  | store present links =>
      exact SortedMap.every_insert oneHop (one_hop_links links (oneHop _ _ present))
  | refile key old new => exact oneHop
  | enroll free unlinked => exact SortedMap.every_insert oneHop (Or.inl unlinked.source)
  | @feed source feeding fed rule present unfed free unlinked leads =>
      have enrolled : OneHop (engine.enroll fed).series :=
        SortedMap.every_insert oneHop (Or.inl unlinked.source)
      obtain ⟨different, stays, entered⟩ := feed_ready present free leads
      exact one_hop_link enrolled stays unfed entered unlinked.rules different
  | @remove key gone present =>
      have dismissed : OneHop (engine.dismiss key gone).series :=
        SortedMap.every_erase oneHop key
      exact one_hop_unlink dismissed key gone
  | cut present feeds presentFed sourceOfFed =>
      refine SortedMap.every_adjust (SortedMap.every_adjust oneHop ?_) ?_
      · exact fun one found => one_hop_remove_rule _ (oneHop _ one found)
      · exact fun one _ => Or.inl rfl

theorem one_hop_shifts (shifts : Shifts engine after) (oneHop : OneHop engine.series) :
    OneHop after.series := by
  induction shifts with
  | refl => exact oneHop
  | tail _ shift ih => exact one_hop_shift shift ih

end Engine

open Engine

/-- That a request does not enter a rule whose destination has rules. -/
def Request.Careful (request : Request) (session : Session) : Prop :=
  match request with
  | .createRule _ destination _ _ => request.succeeds session = true →
      ∀ fed, session.engine.series.get? destination = some fed → fed.rules = []
  | _ => True

theorem one_hop_request {session : Session} (oneHop : OneHop session.engine.series)
    {request : Request} (careful : request.Careful session) :
    OneHop (request.action.perform session).2.engine.series := by
  cases other : request.isCreateRule with
  | false => exact one_hop_shifts (shifts_request request other session) oneHop
  | true =>
      cases request with
      | createRule source destination kind width =>
          rcases Action.create_rule_outcome source destination kind width session with
            ⟨refused, failed⟩ |
            ⟨feeding, fed, rule, different, present, unfed, presentFed, _, made, performed⟩
          · simpa only [Request.action, failed] using oneHop
          · have noRules := careful
              (by simp [Request.succeeds, Request.action, performed, Except.isOk, Except.toBool])
              fed presentFed
            have leads := Action.destination_new made
            rw [Request.action, performed]
            exact one_hop_link oneHop present unfed (leads ▸ presentFed) noRules
              (leads ▸ different)
      | _ => exact absurd other Bool.false_ne_true

theorem one_hop_after {session : Session} (oneHop : OneHop session.engine.series)
    {requests : List Request}
    (careful : ∀ before request, before ++ [request] <+: requests →
      request.Careful (session.after before)) :
    OneHop (session.after requests).engine.series := by
  induction requests generalizing session with
  | nil => exact oneHop
  | cons request later ih =>
      refine ih (one_hop_request oneHop (careful [] request ?_)) ?_
      · exact ⟨later, rfl⟩
      · intro before next within
        exact careful (request :: before) next (List.cons_prefix_cons.mpr ⟨rfl, within⟩)

/-- A rule that was entered without chaining two shows that its destination had none. -/
theorem careful_of_one_hop {session : Session} {source destination : String}
    {kind : AggregationKind} {width : Duration}
    (oneHop : OneHop ((Request.createRule source destination kind width).action.perform
      session).2.engine.series) :
    (Request.createRule source destination kind width).Careful session := by
  intro succeeded fed presentFed
  rcases Action.create_rule_outcome source destination kind width session with
    ⟨refused, failed⟩ | ⟨feeding, _, rule, different, _, _, _, _, made, performed⟩
  · simp [Request.succeeds, Request.action, failed, Except.isOk, Except.toBool] at succeeded
  · have leads := Action.destination_new made
    rw [Request.action, performed] at oneHop
    have linked : (session.engine.link source rule).series.get? destination =
        some (fed.setSource (some source)) := by
      rw [Engine.link, leads, SortedMap.get?_adjust, if_pos rfl, SortedMap.get?_adjust,
        if_neg (Ne.symm different), presentFed, Option.map_some]
    exact (oneHop _ _ linked).resolve_left (Option.some_ne_none source)

/-- Rules never follow one another exactly as long as no rule is entered whose destination
has rules. -/
theorem one_hop_iff_careful (config : EngineConfig) (directory : Directory)
    (requests : List Request) :
    (∀ before, before <+: requests →
        OneHop ((Session.fresh config directory).after before).engine.series) ↔
      ∀ before request, before ++ [request] <+: requests →
        request.Careful ((Session.fresh config directory).after before) := by
  constructor
  · intro oneHop before request within
    cases request with
    | createRule source destination kind width =>
        intro succeeded fed presentFed
        have chained := oneHop _ within
        rw [Session.after, List.foldl_append, List.foldl_cons, List.foldl_nil] at chained
        exact careful_of_one_hop chained succeeded fed presentFed
    | _ => trivial
  · intro careful before within
    refine one_hop_after ?_ fun earlier request inside => careful earlier request ?_
    · intro key one present
      exact nomatch present
    · exact inside.trans within

/-- Two rules in a row, the later of the two entered first. -/
def chaining : List Request :=
  [.create "a" .none, .create "b" .none, .create "c" .none,
    .createRule "b" "c" .sum 10, .createRule "a" "b" .sum 10]

/-- Each of the two rules is accepted, after which `b` is fed by `a` and feeds `c`. -/
theorem chaining_is_accepted :
    (Request.createRule "b" "c" .sum 10).succeeds
        ((Session.fresh .default ∅).after (chaining.take 3)) = true ∧
      (Request.createRule "a" "b" .sum 10).succeeds
        ((Session.fresh .default ∅).after (chaining.take 4)) = true ∧
      ¬ OneHop ((Session.fresh .default ∅).after chaining).engine.series := by
  refine ⟨by decide +kernel, by decide +kernel, fun oneHop => ?_⟩
  have linked : (((Session.fresh .default ∅).after chaining).engine.series.get? "b").map
      (fun series => (series.sourceKey, series.rules.isEmpty)) = some (some "a", false) := by
    decide +kernel
  obtain ⟨series, present, links⟩ := Option.map_eq_some_iff.mp linked
  obtain ⟨fed, feeding⟩ := Prod.mk.inj links
  rcases oneHop "b" series present with unfed | none
  · rw [unfed] at fed
    exact nomatch fed
  · rw [none] at feeding
    exact nomatch feeding

end Chronicle

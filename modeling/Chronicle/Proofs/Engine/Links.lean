import Chronicle.Proofs.Engine.Shift
import Chronicle.Proofs.SortedMap
import Mathlib.Data.List.Nodup

/-!
The links between series. A rule is kept in its source, and its destination keeps the key of
the source; both sides are relations between keys, and every change of an engine changes the
two in the same way.
-/

namespace Chronicle

namespace Engine

variable {series : SortedMap String Series} {key source destination : String}

def Feeds (series : SortedMap String Series) (source destination : String) : Prop :=
  ∃ feeding, series.get? source = some feeding ∧ destination ∈ feeding.destinations

def FedBy (series : SortedMap String Series) (destination source : String) : Prop :=
  ∃ fed, series.get? destination = some fed ∧ fed.sourceKey = some source

/-- That the links between series are the same from both of their sides, that none of them
is there twice, and that following them leads nowhere back. -/
structure Linked (series : SortedMap String Series) : Prop where
  distinct : series.Every fun _ feeding => feeding.destinations.Nodup
  fed : series.Every fun key feeding => ∀ destination ∈ feeding.destinations,
    destination ≠ key ∧ FedBy series destination key
  feeding : series.Every fun key fed => ∀ source, fed.sourceKey = some source →
    ∃ feeding, series.get? source = some feeding ∧ feeding.destinations.count key = 1
  acyclic : ∀ key, ¬ Relation.TransGen (Feeds series) key key

theorem linked_of_mutual (distinct : series.Every fun _ feeding => feeding.destinations.Nodup)
    (sides : ∀ source destination, Feeds series source destination ↔
      FedBy series destination source)
    (acyclic : ∀ key, ¬ Relation.TransGen (Feeds series) key key) : Linked series where
  distinct := distinct
  fed := by
    intro key feeding present destination member
    have feeds : Feeds series key destination := ⟨feeding, present, member⟩
    refine ⟨?_, (sides key destination).mp feeds⟩
    rintro rfl
    exact acyclic _ (.single feeds)
  feeding := by
    intro key fed present source sourceOfFed
    obtain ⟨feeding, there, member⟩ := (sides source key).mpr ⟨fed, present, sourceOfFed⟩
    exact ⟨feeding, there, List.count_eq_one_of_mem (distinct source feeding there) member⟩
  acyclic := acyclic

theorem Linked.feeds_iff (linked : Linked series) (source destination : String) :
    Feeds series source destination ↔ FedBy series destination source := by
  constructor
  · rintro ⟨feeding, present, member⟩
    exact (linked.fed source feeding present destination member).2
  · rintro ⟨fed, present, sourceOfFed⟩
    obtain ⟨feeding, there, once⟩ := linked.feeding destination fed present source sourceOfFed
    exact ⟨feeding, there, List.count_pos_iff.mp (by rw [once]; exact Nat.one_pos)⟩

theorem linked_empty : Linked (∅ : SortedMap String Series) := by
  have unfed : ∀ source destination, ¬ Feeds (∅ : SortedMap String Series) source destination := by
    rintro source destination ⟨_, absent, _⟩
    exact nomatch absent
  apply linked_of_mutual SortedMap.every_empty
  · intro source destination
    constructor
    · exact fun feeds => absurd feeds (unfed source destination)
    · rintro ⟨_, absent, _⟩
      exact nomatch absent
  · intro key cycle
    obtain ⟨next, feeds, _⟩ := Relation.TransGen.head'_iff.mp cycle
    exact unfed key next feeds

/-- Links that lead out of a series which nothing leads into close no cycle. -/
theorem acyclic_enter {old new : String → String → Prop} (entered : String)
    (acyclic : ∀ key, ¬ Relation.TransGen old key key)
    (links : ∀ source destination, new source destination →
      old source destination ∨ source = entered)
    (unfed : ∀ source, ¬ new source entered) (key : String) :
    ¬ Relation.TransGen new key key := by
  have elsewhere : ∀ source destination, Relation.TransGen new source destination →
      source ≠ entered → Relation.TransGen old source destination := by
    intro source destination path
    induction path using Relation.TransGen.head_induction_on with
    | single last => exact fun other => .single ((links _ _ last).resolve_right other)
    | @head source next first _ ih =>
        intro other
        have later : next ≠ entered := by
          rintro rfl
          exact unfed source first
        exact .head ((links _ _ first).resolve_right other) (ih later)
  intro cycle
  -- a cycle through the series has a link that leads into it, any other cycle is an old one
  by_cases same : key = entered
  · obtain ⟨before, _, last⟩ := Relation.TransGen.tail'_iff.mp cycle
    exact unfed before (same ▸ last)
  · exact acyclic key (elsewhere key key cycle same)

theorem acyclic_fewer {old new : String → String → Prop}
    (acyclic : ∀ key, ¬ Relation.TransGen old key key)
    (links : ∀ source destination, new source destination → old source destination)
    (key : String) : ¬ Relation.TransGen new key key :=
  fun cycle => acyclic key (Relation.TransGen.mono links key key cycle)

section Changes

variable (series : SortedMap String Series) (key : String) (change : Series → Series)
  (source destination : String)

theorem feeds_insert (new : Series) : Feeds (series.insert key new) source destination ↔
    if source = key then destination ∈ new.destinations else Feeds series source destination := by
  unfold Feeds
  rw [SortedMap.get?_insert]
  split <;> simp

theorem fed_by_insert (new : Series) : FedBy (series.insert key new) destination source ↔
    if destination = key then new.sourceKey = some source
    else FedBy series destination source := by
  unfold FedBy
  rw [SortedMap.get?_insert]
  split <;> simp

theorem feeds_erase : Feeds (series.erase key) source destination ↔
    Feeds series source destination ∧ source ≠ key := by
  unfold Feeds
  rw [SortedMap.get?_erase]
  split <;> simp [*]

theorem fed_by_erase : FedBy (series.erase key) destination source ↔
    FedBy series destination source ∧ destination ≠ key := by
  unfold FedBy
  rw [SortedMap.get?_erase]
  split <;> simp [*]

theorem feeds_adjust : Feeds (series.adjust key change) source destination ↔
    if source = key then ∃ feeding, series.get? key = some feeding ∧
      destination ∈ (change feeding).destinations
    else Feeds series source destination := by
  unfold Feeds
  rw [SortedMap.get?_adjust]
  split <;> simp

theorem fed_by_adjust : FedBy (series.adjust key change) destination source ↔
    if destination = key then ∃ fed, series.get? key = some fed ∧
      (change fed).sourceKey = some source
    else FedBy series destination source := by
  unfold FedBy
  rw [SortedMap.get?_adjust]
  split <;> simp

theorem feeds_adjust_keep (keeps : ∀ one, (change one).destinations = one.destinations) :
    Feeds (series.adjust key change) source destination ↔ Feeds series source destination := by
  rw [feeds_adjust]
  split
  · rename_i same
    simp only [keeps, same, Feeds]
  · rfl

theorem fed_by_adjust_keep (keeps : ∀ one, (change one).sourceKey = one.sourceKey) :
    FedBy (series.adjust key change) destination source ↔ FedBy series destination source := by
  rw [fed_by_adjust]
  split
  · rename_i same
    simp only [keeps, same, FedBy]
  · rfl

theorem feeds_set_source (origin : Option String) :
    Feeds (series.adjust key (·.setSource origin)) source destination ↔
      Feeds series source destination :=
  feeds_adjust_keep series key _ source destination fun _ => rfl

theorem fed_by_add_rule (rule : Rule) :
    FedBy (series.adjust key (·.addRule rule)) destination source ↔
      FedBy series destination source :=
  fed_by_adjust_keep series key _ source destination fun _ => rfl

theorem fed_by_remove_rule (gone : String) :
    FedBy (series.adjust key (·.removeRule gone)) destination source ↔
      FedBy series destination source :=
  fed_by_adjust_keep series key _ source destination fun _ => rfl

end Changes

theorem destinations_add_rule (feeding : Series) (rule : Rule) :
    (feeding.addRule rule).destinations = feeding.destinations ++ [rule.destination] := by
  unfold Series.destinations Series.addRule
  rw [List.map_append, List.map_singleton]

theorem destinations_remove_rule (feeding : Series) (destination : String) :
    (feeding.removeRule destination).destinations = feeding.destinations.erase destination := by
  have leads : (fun rule : Rule => decide (rule.destination = destination)) =
      (destination == ·) ∘ (·.destination) := by
    funext rule
    rw [Function.comp_apply, Bool.beq_comm, beq_eq_decide]
  unfold Series.destinations Series.removeRule
  rw [List.erase_eq_eraseP, List.eraseP_map, leads]

theorem source_clear_source (source other : String) (fed : Series) :
    (clearSource source fed).sourceKey = some other ↔
      fed.sourceKey = some other ∧ other ≠ source := by
  unfold clearSource
  split
  · rename_i same
    simp [Series.setSource, same, eq_comm]
  · rename_i different
    constructor
    · intro sourceOfFed
      refine ⟨sourceOfFed, ?_⟩
      rintro rfl
      exact different sourceOfFed
    · exact And.left

theorem destinations_clear_source (source : String) (fed : Series) :
    (clearSource source fed).destinations = fed.destinations := by
  unfold clearSource
  split <;> rfl

theorem feeds_add_rule {feeding : Series} (present : series.get? key = some feeding) (rule : Rule) :
    Feeds (series.adjust key (·.addRule rule)) source destination ↔
      Feeds series source destination ∨ (source = key ∧ destination = rule.destination) := by
  rw [feeds_adjust]
  split
  · rename_i same
    subst same
    simp [destinations_add_rule, Feeds, present]
  · rename_i different
    simp [different]

theorem feeds_remove_rule (distinct : series.Every fun _ feeding => feeding.destinations.Nodup)
    (key gone source destination : String) :
    Feeds (series.adjust key (·.removeRule gone)) source destination ↔
      Feeds series source destination ∧ ¬ (source = key ∧ destination = gone) := by
  rw [feeds_adjust]
  split
  · rename_i same
    subst same
    constructor
    · rintro ⟨feeding, present, member⟩
      rw [destinations_remove_rule, (distinct _ _ present).mem_erase_iff] at member
      exact ⟨⟨feeding, present, member.2⟩, fun both => member.1 both.2⟩
    · rintro ⟨⟨feeding, present, member⟩, other⟩
      refine ⟨feeding, present, ?_⟩
      rw [destinations_remove_rule, (distinct _ _ present).mem_erase_iff]
      exact ⟨fun same => other ⟨rfl, same⟩, member⟩
  · rename_i different
    simp [different]

theorem distinct_remove_rule
    (distinct : series.Every fun _ feeding => feeding.destinations.Nodup)
    (key gone : String) :
    (series.adjust key (·.removeRule gone)).Every fun _ feeding => feeding.destinations.Nodup := by
  refine SortedMap.every_adjust distinct fun one found => ?_
  rw [destinations_remove_rule]
  exact (distinct key one found).erase gone

theorem fed_by_clear_sources (gone : String) (destinations : List String)
    (destination source : String) :
    FedBy (destinations.foldl
        (fun series fed => series.adjust fed (clearSource gone)) series) destination source ↔
      FedBy series destination source ∧ ¬ (destination ∈ destinations ∧ source = gone) := by
  induction destinations generalizing series with
  | nil => simp
  | cons first later ih =>
      rw [List.foldl_cons, ih, fed_by_adjust]
      split
      · rename_i same
        subst same
        simp only [source_clear_source, FedBy, List.mem_cons, true_or, true_and]
        grind
      · rename_i different
        simp [different]

theorem feeds_clear_sources (gone : String) (destinations : List String)
    (source destination : String) :
    Feeds (destinations.foldl
        (fun series fed => series.adjust fed (clearSource gone)) series) source destination ↔
      Feeds series source destination := by
  induction destinations generalizing series with
  | nil => rfl
  | cons first later ih =>
      rw [List.foldl_cons, ih]
      exact feeds_adjust_keep _ _ _ _ _ (destinations_clear_source gone)

theorem linked_fewer {new : SortedMap String Series} (linked : Linked series)
    (stays : String → String → Prop)
    (distinct : new.Every fun _ feeding => feeding.destinations.Nodup)
    (feeds : ∀ source destination, Feeds new source destination ↔
      Feeds series source destination ∧ stays source destination)
    (fedBy : ∀ source destination, FedBy new destination source ↔
      FedBy series destination source ∧ stays source destination) : Linked new := by
  apply linked_of_mutual distinct
  · intro source destination
    rw [feeds, fedBy, linked.feeds_iff]
  · apply acyclic_fewer linked.acyclic
    intro source destination links
    exact ((feeds source destination).mp links).1

/-- A series may be replaced by one with the same links. -/
theorem linked_insert (linked : Linked series) {new : Series}
    (distinct : new.destinations.Nodup)
    (feeds : ∀ target, target ∈ new.destinations ↔ Feeds series key target)
    (fedBy : ∀ origin, new.sourceKey = some origin ↔ FedBy series key origin) :
    Linked (series.insert key new) := by
  apply linked_fewer linked fun _ _ => True
  · exact SortedMap.every_insert linked.distinct distinct
  · intro source destination
    rw [feeds_insert, and_true]
    split
    · rename_i here
      rw [feeds, here]
    · rfl
  · intro source destination
    rw [fed_by_insert, and_true]
    split
    · rename_i here
      rw [fedBy, here]
    · rfl

section Engine

variable {engine : Engine} {feeding fed gone new old : Series} {rule : Rule}

theorem linked_store (linked : Linked engine.series)
    (present : engine.series.get? key = some old) (links : old.SameLinks new) :
    Linked (engine.store new key).series := by
  have same : new.destinations = old.destinations := links.destinations
  apply linked_insert linked
  · rw [same]
    exact linked.distinct key old present
  · intro target
    simp [Feeds, present, same]
  · intro origin
    simp [FedBy, present, links.source]

theorem linked_enroll (linked : Linked engine.series)
    (free : engine.series.get? new.key = none) (unlinked : new.Unlinked) :
    Linked (engine.enroll new).series := by
  have none : new.destinations = [] := by rw [Series.destinations, unlinked.rules, List.map_nil]
  apply linked_insert linked
  · rw [none]
    exact List.nodup_nil
  · intro target
    simp [Feeds, free, none]
  · intro origin
    simp [FedBy, free, unlinked.source]

/-- A rule leads out of a series that is not fed, so it is on no cycle. -/
theorem linked_link (linked : Linked engine.series) (different : source ≠ rule.destination)
    (present : engine.series.get? source = some feeding) (unfed : feeding.sourceKey = none)
    (presentFed : engine.series.get? rule.destination = some fed)
    (unfedFed : fed.sourceKey = none) : Linked (engine.link source rule).series := by
  have notFed : ∀ origin, ¬ FedBy engine.series source origin := by
    rintro origin ⟨one, found, sourceOfOne⟩
    obtain rfl := Option.some.inj (present.symm.trans found)
    exact nomatch unfed.symm.trans sourceOfOne
  have notFedYet : ∀ origin, ¬ FedBy engine.series rule.destination origin := by
    rintro origin ⟨one, found, sourceOfOne⟩
    obtain rfl := Option.some.inj (presentFed.symm.trans found)
    exact nomatch unfedFed.symm.trans sourceOfOne
  have feeds : ∀ origin target, Feeds (engine.link source rule).series origin target ↔
      Feeds engine.series origin target ∨ (origin = source ∧ target = rule.destination) := by
    intro origin target
    rw [link, feeds_set_source, feeds_add_rule present]
  have fedBy : ∀ origin target, FedBy (engine.link source rule).series target origin ↔
      FedBy engine.series target origin ∨ (origin = source ∧ target = rule.destination) := by
    intro origin target
    rw [link, fed_by_adjust, SortedMap.get?_adjust, if_neg (Ne.symm different), presentFed]
    split
    · rename_i here
      subst here
      simp [notFedYet, Series.setSource, eq_comm]
    · rename_i elsewhere
      rw [fed_by_add_rule]
      simp [elsewhere]
  apply linked_of_mutual
  · apply SortedMap.every_adjust (SortedMap.every_adjust linked.distinct ?_)
    · intro one found
      rw [SortedMap.get?_adjust, if_neg (Ne.symm different)] at found
      exact linked.distinct _ one found
    · intro one found
      rw [destinations_add_rule]
      apply (linked.distinct source one found).append (List.nodup_singleton _)
      rw [List.disjoint_singleton]
      intro already
      exact notFedYet source (linked.fed source one found _ already).2
  · intro origin target
    rw [feeds, fedBy, linked.feeds_iff]
  · apply acyclic_enter source linked.acyclic
    · intro origin target new
      exact ((feeds origin target).mp new).imp_right And.left
    · intro origin new
      rcases (feeds origin source).mp new with old | ⟨_, same⟩
      · exact notFed origin ((linked.feeds_iff origin source).mp old)
      · exact different same

theorem linked_cut (linked : Linked engine.series) (source destination : String)
    (presentFed : engine.series.get? destination = some fed)
    (sourceOfFed : fed.sourceKey = some source) :
    Linked (engine.cut source destination).series := by
  apply linked_fewer linked fun origin target => ¬ (origin = source ∧ target = destination)
  · have without := distinct_remove_rule linked.distinct source destination
    exact SortedMap.every_adjust without fun one found => without destination one found
  · intro origin target
    rw [cut, feeds_set_source, feeds_remove_rule linked.distinct]
  · intro origin target
    rw [cut, fed_by_adjust]
    split
    · rename_i here
      subst here
      simp [Series.setSource, FedBy, presentFed, sourceOfFed, eq_comm]
    · rename_i elsewhere
      rw [fed_by_remove_rule]
      simp [elsewhere]

theorem linked_remove (linked : Linked engine.series)
    (present : engine.series.get? key = some gone) :
    Linked ((engine.dismiss key gone).unlink key gone).series := by
  have feedsGone : ∀ target, target ∈ gone.rules.map (·.destination) ↔
      FedBy engine.series target key := by
    intro target
    rw [← linked.feeds_iff]
    simp only [Feeds, present, Option.some.injEq, exists_eq_left', Series.destinations]
  have goneFedBy : ∀ origin, gone.sourceKey = some origin ↔ Feeds engine.series origin key := by
    intro origin
    rw [linked.feeds_iff]
    simp [FedBy, present]
  have dismissed := SortedMap.every_erase linked.distinct key
  apply linked_fewer linked fun origin target => origin ≠ key ∧ target ≠ key
  · refine every_clear_sources ?_ key (fun _ one distinct => ?_) _
    · split
      · exact distinct_remove_rule dismissed _ key
      · exact dismissed
    · rwa [destinations_clear_source]
  · intro origin target
    rw [unlink]
    dsimp only
    rw [feeds_clear_sources]
    -- a rule to the series that is gone is struck at its source, if there is one
    cases sourceOfGone : gone.sourceKey with
    | none =>
        rw [sourceOfGone] at goneFedBy
        simp only [dismiss, feeds_erase]
        grind
    | some source =>
        rw [sourceOfGone] at goneFedBy
        simp only [dismiss, feeds_remove_rule dismissed, feeds_erase]
        grind
  · intro origin target
    rw [unlink]
    dsimp only
    rw [fed_by_clear_sources, feedsGone]
    cases gone.sourceKey with
    | none =>
        simp only [dismiss, fed_by_erase]
        grind
    | some source =>
        simp only [dismiss, fed_by_remove_rule, fed_by_erase]
        grind

/-- Rules stay linked whatever is done to the series, apart from the creation of a rule. -/
theorem linked_shift {after : Engine} (shift : Shift engine after)
    (linked : Linked engine.series) : Linked after.series := by
  cases shift with
  | store present links => exact linked_store linked present links
  | refile key old new => exact linked
  | enroll free unlinked => exact linked_enroll linked free unlinked
  | @feed source feeding fed rule present unfed free unlinked leads =>
      obtain ⟨different, stays, entered⟩ := feed_ready present free leads
      have enrolled := linked_enroll linked free unlinked
      exact linked_link enrolled different stays unfed entered unlinked.source
  | remove present => exact linked_remove linked present
  | cut _ _ presentFed sourceOfFed => exact linked_cut linked _ _ presentFed sourceOfFed

theorem linked_shifts {after : Engine} (shifts : Shifts engine after)
    (linked : Linked engine.series) : Linked after.series := by
  induction shifts with
  | refl => exact linked
  | tail _ shift ih => exact linked_shift shift ih

end Engine

end Engine

end Chronicle

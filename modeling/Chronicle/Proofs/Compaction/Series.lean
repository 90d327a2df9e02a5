import Chronicle.Proofs.Compaction.Rule
import Chronicle.Proofs.Series.Change

/-!
A series that feeds another and a series that is fed. The first has a rule that watches what
is appended to it; the second holds what the rule has let go, and takes in whatever the rule
lets go next.
-/

namespace Chronicle

namespace Store

variable {store after : Store} {runs : List (List Sample)} {timestamp : Timestamp} {value : Value}

theorem newer_append {trimmed : Trimmed}
    (appended : store.append timestamp value = .ok (after, trimmed)) :
    store.isEmpty = true ∨ store.lastTimestamp < timestamp := by
  unfold append at appended
  split at appended
  · exact nomatch appended
  · rename_i free
    by_cases empty : store.isEmpty = true
    · exact Or.inl empty
    · exact Or.inr (by simpa [empty] using free)

theorem last_sample_append (files : store.Files runs) {trimmed : Trimmed}
    (appended : store.append timestamp value = .ok (after, trimmed)) :
    after.lastSample = some ⟨timestamp, value⟩ := by
  obtain ⟨longer, count, kept, done, filesAfter, shown, _⟩ :=
    append_files files timestamp value (newer_append appended)
  rw [done] at appended
  obtain ⟨rfl, _⟩ := Prod.mk.inj (Except.ok.inj appended)
  rw [last_sample_eq filesAfter, shown, List.getLast?_concat]

theorem trim_keeps (store : Store) (keeps : store.config.retention = 0) (now : Timestamp) :
    store.trim now = (store, .nothing) := by
  unfold trim
  simp [keeps]

theorem append_keeps (files : store.Files runs) (keeps : store.config.retention = 0)
    (newer : ∀ one ∈ runs.flatten, one.timestamp < timestamp) (value : Value) :
    ∃ after kept, store.append timestamp value = .ok (after, .nothing) ∧ after.Files kept ∧
      kept.flatten = runs.flatten ++ [⟨timestamp, value⟩] ∧ after.config = store.config := by
  have free : store.isEmpty = true ∨ store.lastTimestamp < timestamp := by
    by_cases none : runs = []
    · exact Or.inl ((is_empty_eq files).mpr none)
    · have filled := flatten_ne_nil files.nonempty none
      have last := files.last _ (List.getLast?_eq_some_getLast filled)
      refine Or.inr ?_
      have behind := newer _ (List.getLast_mem filled)
      rwa [last] at behind
  obtain ⟨after, count, kept, done, filesAfter, shown, config, _⟩ :=
    append_files files timestamp value free
  have untrimmed : count = 0 := by
    unfold append at done
    split at done
    · exact nomatch done
    · dsimp only at done
      rw [trim_keeps] at done
      · exact (congrArg (·.2.chunks) (Except.ok.inj done)).symm
      · exact keeps
  subst untrimmed
  exact ⟨after, kept, done, filesAfter, by simpa using shown, config⟩

theorem last_sample_upsert (files : store.Files runs) {policy : DuplicatePolicy}
    {inserted : Bool} (within : ¬ (store.isEmpty = true ∨ store.lastTimestamp < timestamp))
    (written : store.upsert timestamp value policy = .ok (after, inserted)) :
    ∃ newest, after.lastSample = some ⟨store.lastTimestamp, newest⟩ := by
  rcases upsert_outcome files timestamp value policy with ⟨refused, failed⟩ |
    ⟨changed, isNew, kept, done, filesAfter, filled, _⟩
  · rw [failed] at written
    exact nomatch written
  · rw [done] at written
    obtain ⟨rfl, _⟩ := Prod.mk.inj (Except.ok.inj written)
    have stored : ¬ changed.isEmpty = true := mt (is_empty_eq filesAfter).mp filled
    exact ⟨changed.lastValue, by rw [lastSample, if_neg stored, (end_upsert within done).2]⟩

end Store

namespace Series

variable {series changed : Series} {timestamp moment : Timestamp} {value : Value}

def Reached (series : Series) (moment : Timestamp) : Prop :=
  ∃ last, series.lastSample = some last ∧ moment ≤ last.timestamp

theorem reached_append {store : Store} (filed : series.Filed) {trimmed : Trimmed}
    (appended : series.store.append timestamp value = .ok (store, trimmed))
    (reached : series.Reached moment) : moment < timestamp ∧
      ∃ last, store.lastSample = some last ∧ moment ≤ last.timestamp := by
  obtain ⟨runs, files⟩ := filed
  obtain ⟨last, present, behind⟩ := reached
  have shown : series.store.lastSample = some last := present
  rw [Store.lastSample] at shown
  split at shown
  · exact nomatch shown
  · rename_i filled
    obtain rfl := Option.some.inj shown
    have newer := UInt64.lt_of_le_of_lt behind ((Store.newer_append appended).resolve_left filled)
    exact ⟨newer, _, Store.last_sample_append files appended, UInt64.le_of_lt newer⟩

theorem reached_upsert {store : Store} (filed : series.Filed) {policy : DuplicatePolicy}
    {inserted : Bool}
    (within : ¬ (series.store.isEmpty = true ∨ series.store.lastTimestamp < timestamp))
    (written : series.store.upsert timestamp value policy = .ok (store, inserted))
    (reached : series.Reached moment) :
    ∃ last, store.lastSample = some last ∧ moment ≤ last.timestamp := by
  obtain ⟨runs, files⟩ := filed
  obtain ⟨last, present, behind⟩ := reached
  have shown : series.store.lastSample = some last := present
  rw [Store.lastSample, if_neg (not_or.mp within).1] at shown
  obtain rfl := Option.some.inj shown
  obtain ⟨newest, after⟩ := Store.last_sample_upsert files within written
  exact ⟨_, after, behind⟩

/-- That a series has a rule that has taken in some samples and has let go some aggregates, and
that it has reached what the rule has taken in. -/
structure Watches (destination : String) (kind : AggregationKind) (width : Duration)
    (samples closed : List Sample) (series : Series) : Prop where
  filed : series.Filed
  reached : ∀ one ∈ samples, series.Reached one.timestamp
  rule : ∃ rule ∈ series.rules, rule.outline = (destination, kind, width) ∧
    rule.Tracks samples closed

/-- That a series keeps every sample that it takes in, and which ones it has. -/
structure Keeps (samples : List Sample) (series : Series) : Prop where
  retention : series.retention = 0
  samples : ∃ runs, series.store.Files runs ∧ runs.flatten = samples

section Watches

variable {destination : String} {kind : AggregationKind} {width : Duration}
  {samples closed : List Sample} (watches : series.Watches destination kind width samples closed)

include watches

theorem feeds_of_watches : destination ∈ series.destinations := by
  obtain ⟨rule, among, outline, _⟩ := watches.rule
  have leads : rule.destination = destination := congrArg (·.1) outline
  exact leads ▸ List.mem_map_of_mem among

theorem increasing_of_watches : Timeline.Increasing closed := by
  obtain ⟨rule, _, _, tracks⟩ := watches.rule
  exact tracks.compacts.increasing

theorem watches_linked (source : Option String) {rules : List Rule}
    (kept : ∀ rule ∈ series.rules, rule.destination = destination → rule ∈ rules) :
    { series with sourceKey := source, rules := rules }.Watches destination kind width samples
      closed := by
  obtain ⟨rule, among, outline, tracks⟩ := watches.rule
  exact ⟨watches.filed, watches.reached, rule, kept rule among (congrArg (·.1) outline), outline,
    tracks⟩

theorem watches_altered (alteration : Alteration) :
    (series.altered alteration).Watches destination kind width samples closed := by
  obtain ⟨runs, files⟩ := watches.filed
  exact ⟨⟨runs, files_altered files alteration⟩, watches.reached, watches.rule⟩

theorem watches_received {trimmed : Trimmed}
    (taken : series.appendCompacted timestamp value = .ok (changed, trimmed)) :
    changed.Watches destination kind width samples closed := by
  refine ⟨filed_append_compacted watches.filed taken, ?_, ?_⟩
  · intro one member
    obtain ⟨store, appended, rfl⟩ := append_compacted_outcome taken
    exact (reached_append watches.filed appended (watches.reached one member)).2
  · obtain ⟨store, _, rfl⟩ := append_compacted_outcome taken
    exact watches.rule

end Watches

theorem flushes_elsewhere {rules : List Rule} {destination : String}
    (absent : destination ∉ rules.map (·.destination)) (sample : Sample) :
    (rules.filterMap fun rule => (rule.take sample).2).filter
        (fun flush => flush.destination = destination) = [] := by
  rw [List.filter_eq_nil_iff]
  intro flush member same
  obtain ⟨rule, among, closed⟩ := List.mem_filterMap.mp member
  refine absent (List.mem_map.mpr ⟨rule, among, ?_⟩)
  rw [← Rule.destination_flush closed]
  exact of_decide_eq_true same

/-- Of rules with different destinations only one lets something go to a given one. -/
theorem flushes_to {rules : List Rule} (distinct : (rules.map (·.destination)).Nodup)
    {rule : Rule} (among : rule ∈ rules) (sample : Sample) :
    (rules.filterMap fun rule => (rule.take sample).2).filter
        (fun flush => flush.destination = rule.destination) = (rule.take sample).2.toList := by
  obtain ⟨before, after, rfl⟩ := List.append_of_mem among
  rw [List.map_append, List.map_cons, List.nodup_append, List.nodup_cons] at distinct
  obtain ⟨_, ⟨notAfter, _⟩, apart⟩ := distinct
  have notBefore : rule.destination ∉ before.map (·.destination) :=
    fun member => apart _ member _ List.mem_cons_self rfl
  rw [List.filterMap_append, List.filter_append, flushes_elsewhere notBefore, List.nil_append,
    List.filterMap_cons]
  cases closed : (rule.take sample).2 with
  | none => exact flushes_elsewhere notAfter sample
  | some flush =>
      have leads := Rule.destination_flush closed
      rw [List.filter_cons_of_pos (by simp [leads]), flushes_elsewhere notAfter]
      rfl

theorem flushes_outside
    {override : Option DuplicatePolicy} {written : Written}
    (taken : series.add timestamp value override = .ok (changed, written)) {other : String}
    (outside : other ∉ series.destinations) :
    written.flushes.filter (fun flush => flush.destination = other) = [] := by
  rw [List.filter_eq_nil_iff]
  intro flush member leads
  apply outside
  rw [← of_decide_eq_true leads]
  exact destination_flushed taken member

/-- A write behind all others is taken in by the rule that watches; any other write is not. -/
theorem watches_add {destination : String} {kind : AggregationKind} {width : Duration}
    {samples closed : List Sample} (watches : series.Watches destination kind width samples closed)
    (distinct : series.destinations.Nodup) {override : Option DuplicatePolicy} {written : Written}
    (taken : series.add timestamp value override = .ok (changed, written)) :
    changed.Watches destination kind width
      (samples ++ (if written.kind = .appended then changed.lastSample else none).toList)
      (closed ++ (written.flushes.filter fun flush => flush.destination = destination).map
        Flush.sample) := by
  have filed := filed_add watches.filed taken
  rcases add_outcome taken with ⟨within, store, inserted, upserted, rfl, rfl⟩ |
    ⟨_, store, trimmed, appended, rfl, rfl⟩
  · -- a write within leaves the rules alone, and lets nothing go
    have kind : ¬ (if inserted then WriteKind.inserted else WriteKind.merged) = .appended := by
      cases inserted <;> exact nofun
    rw [if_neg kind, Option.toList_none, List.append_nil]
    refine ⟨filed, ?_, by simpa using watches.rule⟩
    intro one member
    exact reached_upsert watches.filed within upserted (watches.reached one member)
  · obtain ⟨rule, among, outline, tracks⟩ := watches.rule
    obtain ⟨runs, files⟩ := watches.filed
    have leads : rule.destination = destination := congrArg (·.1) outline
    have last := Store.last_sample_append files appended
    have newer : ∀ one ∈ samples, one.timestamp < timestamp := fun one member =>
      (reached_append watches.filed appended (watches.reached one member)).1
    have shown : Series.lastSample { series with
        store := store
        rules := series.rules.map fun rule => (rule.take ⟨timestamp, value⟩).1 } =
        some ⟨timestamp, value⟩ := last
    rw [if_pos rfl, shown, Option.toList_some]
    refine ⟨filed, ?_, (rule.take ⟨timestamp, value⟩).1, List.mem_map_of_mem among, ?_, ?_⟩
    · intro one member
      rcases List.mem_append.mp member with old | new
      · exact (reached_append watches.filed appended (watches.reached one old)).2
      · rw [List.mem_singleton.mp new]
        exact ⟨_, last, UInt64.le_refl _⟩
    · rw [Rule.outline_take, outline]
    · dsimp only
      rw [← leads, flushes_to distinct among]
      exact Rule.tracks_take tracks newer

section Keeps

variable {samples : List Sample} (keeps : series.Keeps samples)

include keeps

theorem keeps_linked (source : Option String) (rules : List Rule) :
    { series with sourceKey := source, rules := rules }.Keeps samples :=
  ⟨keeps.retention, keeps.samples⟩

theorem keeps_altered (alteration : Alteration)
    (retention : (series.altered alteration).retention = 0) :
    (series.altered alteration).Keeps samples := by
  obtain ⟨runs, files, same⟩ := keeps.samples
  exact ⟨retention, runs, files_altered files alteration, same⟩

theorem keeps_received (newer : ∀ one ∈ samples, one.timestamp < timestamp) (value : Value) :
    ∃ longer, series.appendCompacted timestamp value = .ok (longer, .nothing) ∧
      longer.Keeps (samples ++ [⟨timestamp, value⟩]) := by
  obtain ⟨runs, files, rfl⟩ := keeps.samples
  obtain ⟨store, kept, appended, filesAfter, shown, config⟩ :=
    Store.append_keeps files keeps.retention newer value
  refine ⟨{ series with store := store }, ?_, ?_, kept, filesAfter, shown⟩
  · rw [appendCompacted, appended]
    rfl
  · exact (congrArg StoreConfig.retention config).trans keeps.retention

end Keeps

end Series

end Chronicle

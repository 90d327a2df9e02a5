import Chronicle.Proofs.Aggregation.Runs
import Chronicle.Proofs.Engine.Attained
import Chronicle.Proofs.Query.Group
import Mathlib.Data.List.Forall2

/-!
Reads of many series against reads of one. A read by predicates is made of the reads of the
series that a query by these predicates finds, in the order of their keys. Where it is grouped,
each group reduces the full forward reads of its members, and limit and direction count for
what has been reduced.
-/

namespace Chronicle

namespace Feed

theorem collect_up_to (limit : Option Nat) (samples : List Sample) :
    ∃ first, collect (upTo limit (samples.map .ok)) = .ok first := by
  cases limit with
  | none => exact ⟨samples, collect_ok samples⟩
  | some count =>
      refine ⟨samples.take count, ?_⟩
      rw [upTo, ← List.map_take, collect_ok]

end Feed

theorem View.range_ok (view : View) {request : RangeRequest} (valid : request.check = .ok ()) :
    ∃ samples, view.range request = .ok samples := by
  rw [range, valid]
  change ∃ samples, Feed.collect (Feed.upTo request.limit _) = .ok samples
  split
  · rename_i kind width _
    obtain ⟨aggregates, fed⟩ :=
      Feed.aggregate_ok kind width request.reverse (request.span.choose view.samples)
    rw [fed]
    exact Feed.collect_up_to request.limit aggregates
  · exact Feed.collect_up_to request.limit _

namespace Series

def reading (series : Series) (request : RangeRequest) : List Sample :=
  match series.range request with
  | .ok samples => samples
  | .error _ => []

theorem range_eq_reading {series : Series} (filed : series.Filed) {request : RangeRequest}
    (valid : request.check = .ok ()) : series.range request = .ok (series.reading request) := by
  obtain ⟨view, shows⟩ := filed.shows
  obtain ⟨samples, read⟩ := view.range_ok valid
  rw [reading, range_shown shows, read]

end Series

theorem map_m_ok {ε α β : Type} {step : α → Except ε β} {answer : α → β} {elements : List α}
    (each : ∀ one ∈ elements, step one = .ok (answer one)) :
    elements.mapM step = .ok (elements.map answer) := by
  induction elements with
  | nil => rfl
  | cons first later ih =>
      rw [List.mapM_cons, each first List.mem_cons_self,
        ih fun one member => each one (List.mem_cons_of_mem _ member)]
      rfl

namespace MultiRangeRequest

variable {request : MultiRangeRequest} (valid : request.range.check = .ok ()) {series : List Series}
  (filed : ∀ one ∈ series, one.Filed)

def fully (request : RangeRequest) : RangeRequest :=
  { request with limit := none, reverse := false }

/-- What series add to the groups of a label. -/
def contributions (request : RangeRequest) (label : String) (series : List Series) :
    List Contribution :=
  series.filterMap fun one => (one.labels.get? label).map fun value =>
    ⟨one.key, value, one.reading (fully request)⟩

theorem contributions_to_eq (range : RangeRequest) (label value : String)
    (series : List Series) : contributionsTo value (contributions range label series) =
      (series.filter fun one => one.labels.get? label = some value).map
        fun one => ⟨one.key, value, one.reading (fully range)⟩ := by
  induction series with
  | nil => rfl
  | cons first later ih =>
      unfold contributionsTo contributions at ih ⊢
      cases own : first.labels.get? label with
      | none => simp [own, ih]
      | some held => by_cases same : held = value <;> simp [own, same, ih]

def whole (request : MultiRangeRequest) : MultiRangeRequest :=
  { request with range := fully request.range }

include valid filed

theorem answer_separate (ungrouped : request.grouping = none) :
    request.answer series = .ok (series.map fun one =>
      ⟨one.key, one.shownLabels request.withLabels, one.reading request.range⟩) := by
  rw [answer, ungrouped]
  apply map_m_ok
  intro one member
  rw [Series.range_eq_reading (filed one member) valid]
  rfl

theorem answer_grouped {grouping : Grouping} (grouped : request.grouping = some grouping) :
    request.answer series =
      .ok (groupResults (contributions request.range grouping.label series) grouping
        request.range.limit request.range.reverse) := by
  have read : series.mapM (request.contribution grouping) = .ok (series.map fun one =>
      (one.labels.get? grouping.label).map fun value =>
        ⟨one.key, value, one.reading (fully request.range)⟩) := by
    apply map_m_ok
    intro one member
    have full : one.range (fully request.range) = .ok (one.reading (fully request.range)) :=
      Series.range_eq_reading (filed one member) valid
    unfold contribution
    cases one.labels.get? grouping.label with
    | none => rfl
    | some value =>
        change (one.range (fully request.range) >>= _) = _
        rw [full]
        rfl
  rw [answer, grouped]
  dsimp only
  rw [MultiRangeRequest.grouped, read]
  change Except.ok (groupResults (List.filterMap id _) _ _ _) = _
  rw [List.filterMap_map]
  rfl

end MultiRangeRequest

namespace Action

variable {session : Session}

theorem perform_series_of (named : session.engine.series.Every fun key one => one.key = key)
    {keys : List String}
    (present : ∀ key ∈ keys, ∃ one, session.engine.series.get? key = some one) :
    ∃ series, (seriesOf keys).perform session = (.ok series, session) ∧
      series.map (·.key) = keys ∧
      ∀ one ∈ series, session.engine.series.get? one.key = some one := by
  induction keys with
  | nil => exact ⟨[], rfl, rfl, by simp⟩
  | cons key later ih =>
      obtain ⟨one, found⟩ := present key List.mem_cons_self
      obtain ⟨others, done, same, each⟩ :=
        ih fun other member => present other (List.mem_cons_of_mem _ member)
      have own := named key one found
      refine ⟨one :: others, ?_, ?_, ?_⟩
      · rw [seriesOf, perform_bind_ok (perform_engine session), found]
        exact perform_bind_ok done
      · rw [List.map_cons, own, same]
      · rw [List.forall_mem_cons, own]
        exact ⟨found, each⟩

theorem perform_matching (coherent : session.engine.Coherent) {filters : List Predicate}
    (positive : filters.any Predicate.isPositive = true) :
    ∃ series, (queryIndex filters).perform session = (.ok (series.map (·.key)), session) ∧
      (matching filters).perform session = (.ok series, session) ∧
      ∀ one ∈ series, session.engine.series.get? one.key = some one := by
  obtain ⟨keys, queried, _, exact⟩ := query_index_positive coherent positive
  have present : ∀ key ∈ keys, ∃ one, session.engine.series.get? key = some one := by
    intro key member
    obtain ⟨own, labelled, _⟩ := (exact key).mp member
    obtain ⟨one, found, _⟩ := Option.map_eq_some_iff.mp labelled
    exact ⟨one, found⟩
  obtain ⟨series, done, same, each⟩ := perform_series_of coherent.named present
  refine ⟨series, ?_, ?_, each⟩
  · rw [same, queried]
  · rw [matching, perform_bind_ok queried, done]

theorem perform_multi_range {request : MultiRangeRequest} (valid : request.range.check = .ok ())
    {series : List Series}
    (found : (matching request.filters).perform session = (.ok series, session)) :
    (multiRange request).perform session = (request.answer series,
      { session with signals := .multiRangeAnswered :: session.signals }) := by
  have checked := perform_of_except request.range.check session
  rw [valid] at checked
  rw [multiRange, valid, perform_bind_ok checked, perform_bind_ok found]
  cases request.answer series <;> rfl

theorem perform_range {key : String} {one : Series}
    (present : session.engine.series.get? key = some one) (request : RangeRequest) :
    (range key request).perform session = (one.range request, session) := by
  rw [range, perform_bind_ok (perform_require_some present), perform_of_except]

theorem perform_last {key : String} {one : Series}
    (present : session.engine.series.get? key = some one) :
    (last key).perform session = (.ok one.lastSample, session) := by
  rw [last, perform_bind_ok (perform_require_some present)]
  rfl

end Action

/-- The keys, among some, of the series that have a value for a label. -/
def Engine.carriersOf (engine : Engine) (label value : String) (keys : List String) :
    List String :=
  keys.filter fun key => (engine.labels key).bind (·.get? label) = some value

namespace Session

variable (session : Session)

/-- That a result is the read of one series alone. -/
structure ReadsOne (request : RangeRequest) (withLabels : Bool) (key : String)
    (result : SeriesResult) : Prop where
  named : result.key = key
  labels : ∃ one, session.engine.series.get? key = some one ∧
    result.labels = one.shownLabels withLabels
  samples : (Action.range key request).perform session = (.ok result.samples, session)

structure ReadsLast (withLabels : Bool) (key : String) (result : SeriesResult) : Prop where
  named : result.key = key
  labels : ∃ one, session.engine.series.get? key = some one ∧
    result.labels = one.shownLabels withLabels
  samples : ∃ last, (Action.last key).perform session = (.ok last, session) ∧
    result.samples = last.toList

/-- That a result is made of the reads of the series with one value for a label. -/
structure ReadsGroup (request : RangeRequest) (grouping : Grouping) (keys : List String)
    (value : String) (result : SeriesResult) : Prop where
  named : result.key = grouping.label ++ "=" ++ value
  labelled : result.labels.get? grouping.label = some value
  reducer : result.labels.get? reducerLabel = some grouping.reducer.name
  sources : result.labels.get? sourceLabel =
    some (String.intercalate "," (session.engine.carriersOf grouping.label value keys))
  samples : ∃ reads reduced,
    List.Forall₂ (fun key samples => (Action.range key (MultiRangeRequest.fully request)).perform
      session = (.ok samples, session)) (session.engine.carriersOf grouping.label value keys)
      reads ∧
    Reduces grouping.reducer reads.flatten reduced ∧
    result.samples = presented request.limit request.reverse reduced ∧
    total (fun one => (valuesAt one.timestamp reads.flatten).length) reduced =
      total List.length reads

section Present

variable {session} {series : List Series}
  (present : ∀ one ∈ series, session.engine.series.get? one.key = some one)

include present

theorem carriers_of_present (label value : String) :
    session.engine.carriersOf label value (series.map (·.key)) =
      (series.filter fun one => one.labels.get? label = some value).map (·.key) := by
  rw [Engine.carriersOf, List.filter_map]
  congr 1
  refine List.filter_congr fun one member => ?_
  rw [Function.comp_apply, Engine.labels_of_get? (present one member), Option.bind_some]

theorem reads_last (withLabels : Bool) :
    List.Forall₂ (session.ReadsLast withLabels) (series.map (·.key)) (series.map fun one =>
      ⟨one.key, one.shownLabels withLabels, one.lastSample.toList⟩) := by
  rw [List.forall₂_map_left_iff, List.forall₂_map_right_iff, List.forall₂_same]
  intro one member
  exact ⟨rfl, ⟨one, present one member, rfl⟩, _, Action.perform_last (present one member), rfl⟩

theorem mem_contributions (request : RangeRequest) (label value : String) :
    value ∈ (MultiRangeRequest.contributions request label series).map (·.labelValue) ↔
      session.engine.carriersOf label value (series.map (·.key)) ≠ [] := by
  rw [carriers_of_present present]
  simp [MultiRangeRequest.contributions]

section Valid

variable {request : RangeRequest} (valid : request.check = .ok ())
  (filed : ∀ one ∈ series, one.Filed)

include valid filed

theorem reads_one (withLabels : Bool) :
    List.Forall₂ (session.ReadsOne request withLabels) (series.map (·.key))
      (series.map fun one => ⟨one.key, one.shownLabels withLabels, one.reading request⟩) := by
  rw [List.forall₂_map_left_iff, List.forall₂_map_right_iff, List.forall₂_same]
  intro one member
  refine ⟨rfl, ⟨one, present one member, rfl⟩, ?_⟩
  rw [Action.perform_range (present one member), Series.range_eq_reading (filed one member) valid]

theorem reads_group {grouping : Grouping} (notReducer : grouping.label ≠ reducerLabel)
    (notSource : grouping.label ≠ sourceLabel) {value : String} {result : SeriesResult}
    (group : GroupOf (MultiRangeRequest.contributions request grouping.label series) grouping
      request.limit request.reverse value result) :
    session.ReadsGroup request grouping (series.map (·.key)) value result := by
  obtain ⟨labelled, reducer, sources⟩ := group.named notReducer notSource
  obtain ⟨reduced, reduces, shown⟩ := group.samples
  have members := carriers_of_present present grouping.label value
  rw [MultiRangeRequest.contributions_to_eq] at sources reduces
  rw [List.map_map] at sources
  rw [List.flatMap_map, List.flatMap_def] at reduces
  refine ⟨group.key, labelled, reducer, ?_, _, reduced, ?_, reduces, shown, ?_⟩
  · rw [sources, members]
    rfl
  · rw [members, List.forall₂_map_left_iff, List.forall₂_map_right_iff, List.forall₂_same]
    intro one member
    have among := List.mem_of_mem_filter member
    rw [Action.perform_range (present one among)]
    exact congrArg (·, session) (Series.range_eq_reading (filed one among) valid)
  · rw [reduces.multiplicities, total_length]

end Valid

end Present

/-- Reads of many series agree with reads of one. Ungrouped there is one result for each key
that a query finds, in that order, with the samples that a read of that key yields; the same
holds of last samples. Grouped there is one result for each value of the label, in the order of
values, in which the full forward reads of the series with that value are reduced moment by
moment, the value of the least key first. Limit and direction then count for the reduced
samples, so that they choose among those of a full forward answer. -/
theorem multi_range_exact (session : Session) (attained : session.Attained)
    (request : MultiRangeRequest) (valid : request.range.check = .ok ())
    (positive : request.filters.any Predicate.isPositive = true) :
    ∃ keys, (Action.queryIndex request.filters).perform session = (.ok keys, session) ∧
      (∀ withLabels, ∃ lasts,
        (Action.lastOfMany request.filters withLabels).perform session = (.ok lasts, session) ∧
        List.Forall₂ (session.ReadsLast withLabels) keys lasts) ∧
      ∃ results after, (Action.multiRange request).perform session = (.ok results, after) ∧
        after.engine = session.engine ∧
        (request.grouping = none →
          List.Forall₂ (session.ReadsOne request.range request.withLabels) keys results) ∧
        ∀ grouping, request.grouping = some grouping →
          (grouping.label ≠ reducerLabel → grouping.label ≠ sourceLabel →
            ∃ values, values.Pairwise (· < ·) ∧
              (∀ value, value ∈ values ↔
                session.engine.carriersOf grouping.label value keys ≠ []) ∧
              List.Forall₂ (session.ReadsGroup request.range grouping keys) values results) ∧
          ∃ whole, (Action.multiRange request.whole).perform session = (.ok whole, after) ∧
            results = whole.map fun result => { result with
              samples := presented request.range.limit request.range.reverse result.samples } := by
  have genuine := genuine_attained attained
  obtain ⟨series, queried, found, present⟩ :=
    Action.perform_matching genuine.coherent.engine positive
  have filed : ∀ one ∈ series, one.Filed := fun one member =>
    (genuine.attainable one.key one (present one member)).filed
  refine ⟨_, queried, fun withLabels => ⟨_, ?_, reads_last present withLabels⟩, ?_⟩
  · rw [Action.lastOfMany, Action.perform_bind_ok found]
    rfl
  have answered := Action.perform_multi_range valid found
  cases grouping : request.grouping with
  | none =>
      rw [MultiRangeRequest.answer_separate valid filed grouping] at answered
      refine ⟨_, _, answered, rfl, fun _ => reads_one present valid filed _, ?_⟩
      exact fun _ some => nomatch some
  | some grouped =>
      rw [MultiRangeRequest.answer_grouped valid filed grouping] at answered
      refine ⟨_, _, answered, rfl, ?_, ?_⟩
      · exact fun none => nomatch none
      rintro _ same
      obtain rfl := Option.some.inj same
      refine ⟨fun notReducer notSource => ?_, ?_⟩
      · obtain ⟨values, increasing, occurs, groups⟩ := group_results_exact
          (MultiRangeRequest.contributions request.range grouped.label series) grouped
          request.range.limit request.range.reverse
        refine ⟨values, increasing, fun value => ?_, groups.imp fun value result group => ?_⟩
        · rw [occurs, mem_contributions present]
        · exact reads_group present valid filed notReducer notSource group
      · -- the full forward read finds the same series and takes the same from them
        have validWhole : request.whole.range.check = .ok () := valid
        have foundWhole : (Action.matching request.whole.filters).perform session =
          (.ok series, session) := found
        have groupingWhole : request.whole.grouping = some grouped := grouping
        have whole := Action.perform_multi_range validWhole foundWhole
        rw [MultiRangeRequest.answer_grouped validWhole filed groupingWhole] at whole
        exact ⟨_, whole, group_results_presented _ _ _ _⟩

/-- A series that is read back from a blob and given labels, one with the same value for one of
them, and one without it. -/
def gauges : List Operation :=
  [.load (Series.zeros 10 [10, 25]).toBlob,
    .request (.alter "a"
      ⟨none, none, none, some (.ofList [("room", "kitchen"), ("unit", "c")])⟩),
    .request (.create "b"
      { SeriesOptions.none with labels := .ofList [("room", "kitchen"), ("unit", "c")] }),
    .request (.add "b" 25 ⟨4⟩ none), .request (.add "b" 31 ⟨2⟩ none),
    .request (.create "c" { SeriesOptions.none with labels := .ofList [("unit", "c")] })]

def newestByRoom : MultiRangeRequest where
  range := ⟨0, 100, none, some 1, true⟩
  filters := [.equal "unit" "c"]
  withLabels := false
  grouping := some ⟨"room", .max⟩

theorem multi_range_exact_gauges :
    ((fresh .default ∅).run gauges).Attained ∧ newestByRoom.range.check = .ok () ∧
      newestByRoom.filters.any Predicate.isPositive = true ∧
      ∃ keys results after values,
        (Action.queryIndex newestByRoom.filters).perform ((fresh .default ∅).run gauges) =
          (.ok keys, (fresh .default ∅).run gauges) ∧
        (Action.multiRange newestByRoom).perform ((fresh .default ∅).run gauges) =
          (.ok results, after) ∧
        List.Forall₂ (((fresh .default ∅).run gauges).ReadsGroup newestByRoom.range
          ⟨"room", .max⟩ keys) values results := by
  have storable : (Series.zeros 10 [10, 25]).Storable := by
    refine ⟨by decide +kernel, by decide +kernel, fun counter member => ?_⟩
    have counted : (Series.zeros 10 [10, 25]).counters = [2] := by decide +kernel
    rw [counted, List.mem_singleton] at member
    exact ⟨2, member⟩
  have genuine : Series.Genuine (Series.zeros 10 [10, 25]).toBlob :=
    Series.genuine_to_blob Series.zeros_attainable storable
  have attained : ((fresh .default ∅).run gauges).Attained :=
    ⟨.default, ∅, gauges, SortedMap.every_empty,
      ⟨genuine, trivial, trivial, trivial, trivial, trivial, trivial⟩, rfl⟩
  obtain ⟨keys, queried, _, results, after, answered, _, _, grouped⟩ :=
    multi_range_exact _ attained newestByRoom rfl rfl
  obtain ⟨values, _, _, groups⟩ := (grouped _ rfl).1 (by decide) (by decide)
  exact ⟨attained, rfl, rfl, keys, results, after, values, queried, answered, groups⟩

end Session

end Chronicle

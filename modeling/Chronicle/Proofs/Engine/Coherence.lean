import Chronicle.Proofs.Engine.Shift
import Chronicle.Proofs.Query.Index
import Chronicle.Proofs.Snapshot

/-!
The label index over a whole run. Whatever is done to an engine, its index files exactly the
keys of its series, each under the labels that the series has at that moment; the snapshots
that are written on the way keep what is needed for that after they are restored.
-/

namespace Chronicle

namespace Engine

def labels (engine : Engine) (key : String) : Option Labels :=
  (engine.series.get? key).map (·.labels)

/-- That every series stands under its own key, and that the index files the keys of the
series under their labels. -/
structure Coherent (engine : Engine) : Prop where
  named : engine.series.Every fun key one => one.key = key
  filed : engine.index.Files engine.labels

variable {engine : Engine} {key : String} {old new gone : Series}

theorem labels_of_get? (present : engine.series.get? key = some old) :
    engine.labels key = some old.labels := by
  rw [labels, present, Option.map_some]

theorem coherent_store (coherent : engine.Coherent)
    (present : engine.series.get? key = some old) (sameKey : new.key = old.key)
    (sameLabels : new.labels = old.labels) : (engine.store new key).Coherent where
  named := SortedMap.every_insert coherent.named
    (sameKey.trans (coherent.named key old present))
  filed := by
    have same : (engine.store new key).labels = engine.labels := by
      funext other
      rw [labels, store, SortedMap.get?_insert]
      split
      · rename_i here
        rw [here, labels_of_get? present, Option.map_some, sameLabels]
      · rfl
    rw [same]
    exact coherent.filed

theorem coherent_adjust {series : SortedMap String Series} (key : String)
    {change : Series → Series} (relinks : Series.Relinks change)
    (coherent : Coherent { engine with series := series }) :
    Coherent { engine with series := series.adjust key change } where
  named := by
    apply SortedMap.every_adjust coherent.named
    intro one present
    obtain ⟨_, _, relinked⟩ := relinks one
    rw [relinked]
    exact coherent.named key one present
  filed := by
    have sameLabels : (fun one => (change one).labels) = fun one : Series => one.labels := by
      funext one
      obtain ⟨_, _, relinked⟩ := relinks one
      rw [relinked]
    have kept : labels { engine with series := series.adjust key change } =
        labels { engine with series := series } := by
      funext other
      rw [labels, SortedMap.get?_adjust]
      split
      · rename_i here
        rw [here, labels, Option.map_map]
        exact congrArg (fun shown => (series.get? key).map shown) sameLabels
      · rfl
    rw [kept]
    exact coherent.filed

theorem coherent_link (coherent : engine.Coherent) (source : String) (rule : Rule) :
    (engine.link source rule).Coherent :=
  link_keeps (motive := fun series => Coherent { engine with series := series })
    coherent_adjust coherent source rule

theorem coherent_cut (coherent : engine.Coherent) (source destination : String) :
    (engine.cut source destination).Coherent :=
  cut_keeps (motive := fun series => Coherent { engine with series := series })
    coherent_adjust coherent source destination

theorem coherent_unlink (coherent : engine.Coherent) (key : String) (gone : Series) :
    (engine.unlink key gone).Coherent :=
  unlink_keeps (motive := fun series => Coherent { engine with series := series })
    coherent_adjust coherent key gone

theorem coherent_enroll (coherent : engine.Coherent)
    (free : engine.series.get? new.key = none) : (engine.enroll new).Coherent where
  named := SortedMap.every_insert coherent.named rfl
  filed := by
    have unfiled : engine.labels new.key = none := by rw [labels, free, Option.map_none]
    have entered : (engine.enroll new).labels =
        fun other => if other = new.key then some new.labels else engine.labels other := by
      funext other
      rw [labels, enroll, SortedMap.get?_insert]
      split <;> rfl
    rw [entered]
    exact LabelIndex.files_add coherent.filed unfiled new.labels

theorem coherent_dismiss (coherent : engine.Coherent)
    (present : engine.series.get? key = some gone) : (engine.dismiss key gone).Coherent where
  named := SortedMap.every_erase coherent.named key
  filed := by
    have left : (engine.dismiss key gone).labels =
        fun other => if other = key then none else engine.labels other := by
      funext other
      rw [labels, dismiss, SortedMap.get?_erase]
      split <;> rfl
    rw [left]
    exact LabelIndex.files_remove coherent.filed (labels_of_get? present)

theorem coherent_refiled (coherent : engine.Coherent)
    (present : engine.series.get? key = some old) (sameKey : new.key = old.key) :
    ((engine.store new key).refile key old.labels new.labels).Coherent where
  named := SortedMap.every_insert coherent.named
    (sameKey.trans (coherent.named key old present))
  filed := by
    have removed := LabelIndex.files_remove coherent.filed (labels_of_get? present)
    have added := LabelIndex.files_add removed (if_pos rfl) new.labels
    have refiled : ((engine.store new key).refile key old.labels new.labels).labels =
        fun other => if other = key then some new.labels
          else if other = key then none else engine.labels other := by
      funext other
      rw [labels, refile, store, SortedMap.get?_insert]
      split <;> simp [labels, *]
    rw [refiled]
    exact added

theorem coherent_empty (config : EngineConfig) : Coherent ⟨config, ∅, .empty⟩ where
  named := SortedMap.every_empty
  filed := LabelIndex.files_empty

theorem coherent_replace_all (engine : Engine) {series : List Series}
    (distinct : (series.map (·.key)).Nodup) : (engine.replaceAll series).Coherent := by
  have enrolled : ∀ (later : List Series) (start : Engine), start.Coherent →
      (∀ one ∈ later, start.series.get? one.key = none) → (later.map (·.key)).Nodup →
      (later.foldl enroll start).Coherent := by
    intro later
    induction later with
    | nil => exact fun _ coherent _ _ => coherent
    | cons first later ih =>
        intro start coherent free distinct
        obtain ⟨new, others⟩ := List.nodup_cons.mp distinct
        refine ih _ (coherent_enroll coherent (free first List.mem_cons_self)) ?_ others
        intro one member
        have apart : one.key ≠ first.key := by
          intro same
          exact new (List.mem_map.mpr ⟨one, member, same⟩)
        rw [enroll, SortedMap.get?_insert, if_neg apart]
        exact free one (List.mem_cons_of_mem first member)
  exact enrolled series _ (coherent_empty engine.config) (fun _ _ => rfl) distinct

theorem keys_of_values (named : engine.series.Every fun key one => one.key = key) :
    engine.series.values.map (·.key) = engine.series.keys := by
  unfold SortedMap.values SortedMap.keys
  rw [List.map_map]
  refine List.map_congr_left fun entry member => ?_
  exact named entry.1 entry.2 ((engine.series.mem_entries_iff _ _).mp member)

theorem distinct_values (named : engine.series.Every fun key one => one.key = key) :
    (engine.series.values.map (·.key)).Nodup := by
  rw [keys_of_values named]
  exact engine.series.keys_distinct

end Engine

end Chronicle

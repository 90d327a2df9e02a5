import Chronicle.Compaction
import Mathlib.Data.List.Induction

/-!
The keys of destinations. A key is read from its end: the numeral and the name of the kind hold
no underscore, so the last two underscores of a key are those that the policy put there, whatever
the key of the source looks like. So the keys that sources and policies lead to never collide,
and only policies of one kind and width compete for a destination; the first of them gets it.
-/

namespace Chronicle

/-- Texts in two parts that a mark divides are the same only in both parts, if the mark is in
neither of the later ones. -/
theorem parts_of_last_mark {α : Type} {mark : α} {front other back behind : List α}
    (outside : mark ∉ back) (outsideOther : mark ∉ behind)
    (same : front ++ mark :: back = other ++ mark :: behind) : front = other ∧ back = behind := by
  rcases List.append_eq_append_iff.mp same with ⟨between, rfl, parts⟩ | ⟨between, rfl, parts⟩
  · cases between with
    | nil => exact ⟨(List.append_nil _).symm, (List.cons.inj parts).2⟩
    | cons _ between => exact absurd (by simp [(List.cons.inj parts).2]) outside
  · cases between with
    | nil => exact ⟨List.append_nil _, (List.cons.inj parts).2.symm⟩
    | cons _ between => exact absurd (by simp [(List.cons.inj parts).2]) outsideOther

namespace AggregationKind

def keyName (kind : AggregationKind) : String := kind.name.map Char.toUpper

theorem key_name_whole (kind : AggregationKind) : '_' ∉ kind.keyName.toList := by
  cases kind <;> decide +kernel

/-- A kind is found by its name in keys, as names are read in any case. -/
theorem find_key_name (kind : AggregationKind) :
    all.find? (fun other => other.name = kind.keyName.map Char.toLower) = some kind := by
  cases kind <;> decide +kernel

theorem key_name_injective {kind other : AggregationKind} (same : kind.keyName = other.keyName) :
    kind = other := by
  have found := find_key_name kind
  rw [same, find_key_name other] at found
  exact (Option.some.inj found).symm

end AggregationKind

namespace Policy

open Text

theorem length_destination (policy : Policy) (source : String) :
    source.length < (policy.destinationFor source).length := by
  have mark : "_".length = 1 := rfl
  simp only [destinationFor, String.length_append]
  omega

theorem destination_ne_source (policy : Policy) (source : String) :
    source ≠ policy.destinationFor source := by
  intro same
  have longer := policy.length_destination source
  rw [← same] at longer
  exact Nat.lt_irrefl _ longer

theorem destination_named (policy : Policy) (source : String) :
    (policy.destinationFor source).isEmpty = false := by
  rw [Bool.eq_false_iff, ne_eq, String.isEmpty_iff]
  intro none
  have longer := policy.length_destination source
  rw [none] at longer
  exact Nat.not_lt_zero _ longer

theorem destination_letters (policy : Policy) (source : String) :
    (policy.destinationFor source).toList =
      (source.toList ++ '_' :: policy.kind.keyName.toList) ++
        '_' :: Decimal.write policy.width.toNat := by
  simp [destinationFor, AggregationKind.keyName, Decimal.text]

theorem destination_injective {policy other : Policy} {source origin : String} :
    policy.destinationFor source = other.destinationFor origin ↔
      source = origin ∧ policy.kind = other.kind ∧ policy.width = other.width := by
  constructor
  · intro same
    have numeral : ∀ number, '_' ∉ Decimal.write number :=
      fun number member => absurd (Decimal.write_digits member) (by decide)
    rw [← String.toList_inj, destination_letters, destination_letters] at same
    obtain ⟨fronts, widths⟩ := parts_of_last_mark (numeral _) (numeral _) same
    obtain ⟨sources, kinds⟩ := parts_of_last_mark policy.kind.key_name_whole
      other.kind.key_name_whole fronts
    have width := Decimal.read_word_write policy.width
    rw [widths, Decimal.read_word_write] at width
    exact ⟨String.toList_inj.mp sources,
      AggregationKind.key_name_injective (String.toList_inj.mp kinds),
      (Option.some.inj width).symm⟩
  · rintro ⟨rfl, kinds, widths⟩
    rw [destinationFor, destinationFor, kinds, widths]

/-- Whether the destination of a policy is neither taken nor that of an earlier policy. -/
def isFirst (taken : String → Bool) (key : String) (earlier : List Policy) (policy : Policy) :
    Bool :=
  !taken (policy.destinationFor key) &&
    !earlier.any fun other => other.destinationFor key = policy.destinationFor key

/-- The policies, in their order, that get their destination. -/
def granted (taken : String → Bool) (key : String) (policies : List Policy) : List Policy :=
  (policies.zipIdx.filter fun (policy, place) =>
    policy.isFirst taken key (policies.take place)).map (·.1)

section Granted

variable {taken : String → Bool} {key name : String} {policies : List Policy} {policy : Policy}

theorem is_first_iff {earlier : List Policy} : policy.isFirst taken key earlier = true ↔
    taken (policy.destinationFor key) = false ∧
      ∀ other ∈ earlier, other.destinationFor key ≠ policy.destinationFor key := by
  simp [isFirst]

theorem granted_append (taken : String → Bool) (key : String) (earlier : List Policy)
    (policy : Policy) :
    granted taken key (earlier ++ [policy]) = granted taken key earlier ++
      if policy.isFirst taken key earlier then [policy] else [] := by
  unfold granted
  rw [List.zipIdx_append, List.filter_append, List.map_append]
  congr 1
  · congr 1
    apply List.filter_congr
    intro entry member
    have inside : entry.2 ≤ earlier.length := by
      have bound := List.snd_lt_of_mem_zipIdx member
      omega
    dsimp only
    rw [List.take_append_of_le_length inside]
  · simp only [List.zipIdx_cons, List.zipIdx_nil, List.filter_cons, List.filter_nil,
      Nat.zero_add, List.take_left]
    cases policy.isFirst taken key earlier <;> rfl

/-- Of the policies with a destination that is free, the first is the one that gets it. -/
theorem find_granted (free : taken name = false) (policies : List Policy) :
    (granted taken key policies).find? (fun policy => policy.destinationFor key = name) =
      policies.find? fun policy => policy.destinationFor key = name := by
  induction policies using List.reverseRecOn with
  | nil => rfl
  | append_singleton earlier policy ih =>
      rw [granted_append, List.find?_append, List.find?_append, ih]
      cases found : earlier.find? (fun other => other.destinationFor key = name) with
      | some other => rfl
      | none =>
          have none : ∀ other ∈ earlier, other.destinationFor key ≠ name := by
            simpa using found
          by_cases leads : policy.destinationFor key = name
          · rw [if_pos (is_first_iff.mpr (by rw [leads]; exact ⟨free, none⟩))]
          · split
            · rfl
            · simp [leads]

/-- No two policies get one destination, and none gets one that is taken. -/
theorem find_of_granted (member : policy ∈ granted taken key policies) :
    taken (policy.destinationFor key) = false ∧
      policies.find? (fun other => other.destinationFor key = policy.destinationFor key) =
        some policy := by
  induction policies using List.reverseRecOn with
  | nil => exact nomatch member
  | append_singleton earlier last ih =>
      rw [granted_append] at member
      rw [List.find?_append]
      rcases List.mem_append.mp member with old | new
      · obtain ⟨free, found⟩ := ih old
        exact ⟨free, by rw [found]; rfl⟩
      · split at new
        · rename_i first
          obtain rfl := List.mem_singleton.mp new
          obtain ⟨free, alone⟩ := is_first_iff.mp first
          have none : earlier.find? (fun other =>
              other.destinationFor key = policy.destinationFor key) = none := by
            simpa using alone
          exact ⟨free, by simp [none]⟩
        · exact nomatch new

end Granted

end Policy

end Chronicle

import Chronicle.Compaction

/-!
Lengths of time and policies as text. A text is a length of time if, without the blanks around
it, it is a numeral and a unit, and both what the numeral says and what it says in milliseconds
fit a word; what is read is that product itself and never a remainder of it. The three parts of
a policy hold neither the mark between them, nor the mark between policies, nor blanks, so a
list of policies is read back from its text, whatever its kinds and durations are, if none has
buckets of no width.
-/

namespace Chronicle.Text

theorem trim_solid {text : List Char} (solid : ∀ letter ∈ text, isBlank letter = false) :
    trim text = text := by
  have bare : ∀ letters : List Char, (∀ letter ∈ letters, isBlank letter = false) →
      letters.dropWhile isBlank = letters := by
    intro letters solid
    cases letters with
    | nil => rfl
    | cons first later =>
        exact List.dropWhile_cons_of_neg (Bool.eq_false_iff.mp (solid first List.mem_cons_self))
  have backwards : ∀ letter ∈ text.reverse, isBlank letter = false :=
    fun letter member => solid letter (List.mem_reverse.mp member)
  rw [trim, bare text solid, bare text.reverse backwards, List.reverse_reverse]

theorem digit_solid {letter : Char} (digit : letter.isDigit = true) : isBlank letter = false := by
  have low : 48 ≤ letter.toNat ∧ letter.toNat ≤ 57 := by
    simpa [Char.isDigit, UInt32.le_iff_toNat_le] using digit
  simp only [isBlank, blankRanges, List.any_cons, List.any_nil, Bool.or_false,
    Bool.or_eq_false_iff, Bool.and_eq_false_iff, decide_eq_false_iff_not]
  omega

def numberOf (digits : List Char) : Nat := Nat.ofDigitChars 10 digits 0

theorem read_iff {numeral : List Char} {number : Nat} :
    Decimal.read? numeral = some number ↔
      numeral ≠ [] ∧ (∀ letter ∈ numeral, letter.isDigit = true) ∧ numberOf numeral = number := by
  simp [Decimal.read?, numberOf, and_assoc]

theorem read_word_iff {numeral : List Char} {word : UInt64} :
    Decimal.readWord? numeral = some word ↔
      numeral ≠ [] ∧ (∀ letter ∈ numeral, letter.isDigit = true) ∧
        numberOf numeral = word.toNat := by
  rw [← read_iff]
  unfold Decimal.readWord?
  cases Decimal.read? numeral with
  | none => simp
  | some number =>
      dsimp only
      constructor
      · intro fits
        split at fits
        · rename_i small
          obtain rfl := Option.some.inj fits
          rw [UInt64.toNat_ofNat_of_lt' small]
        · exact nomatch fits
      · intro same
        obtain rfl := Option.some.inj same
        rw [if_pos (UInt64.toNat_lt_size word), UInt64.ofNat_toNat]

def units : List (String × Nat) :=
  [("", 1), ("ms", 1), ("s", 1000), ("m", 60000), ("h", 3600000), ("d", 86400000)]

theorem unit_scale_iff {unit : List Char} {scale : Nat} :
    unitScale? unit = some scale ↔ (String.ofList unit, scale) ∈ units := by
  unfold unitScale?
  generalize String.ofList unit = name
  constructor
  · intro found
    split at found
    case h_7 => exact nomatch found
    all_goals
      obtain rfl := Option.some.inj found
      decide
  · intro listed
    simp only [units, List.mem_cons, Prod.mk.injEq, List.not_mem_nil, or_false] at listed
    rcases listed with h | h | h | h | h | h <;> obtain ⟨rfl, rfl⟩ := h <;> rfl

theorem units_not_digital {unit : String} {scale : Nat} (known : (unit, scale) ∈ units) :
    unit.toList.head?.any Char.isDigit = false := by
  have all : ∀ entry ∈ units, entry.1.toList.head?.any Char.isDigit = false := by decide +kernel
  exact all _ known

/-- That a text is spelled as a numeral and a unit, which may be left out. -/
structure Spelled (text digits unit : List Char) (scale : Nat) : Prop where
  parts : trim text = digits ++ unit
  filled : digits ≠ []
  digital : ∀ letter ∈ digits, letter.isDigit = true
  known : (String.ofList unit, scale) ∈ units

section Duration

variable {text digits unit : List Char} {scale : Nat} {duration : Duration}

/-- A numeral ends where its unit begins. -/
theorem Spelled.span (spelled : Spelled text digits unit scale) :
    (trim text).takeWhile Char.isDigit = digits ∧ (trim text).dropWhile Char.isDigit = unit := by
  have ends : unit.head?.any Char.isDigit = false := by
    simpa using units_not_digital spelled.known
  have stops : unit.takeWhile Char.isDigit = [] ∧ unit.dropWhile Char.isDigit = unit := by
    cases unit with
    | nil => exact ⟨rfl, rfl⟩
    | cons first later =>
        have other : ¬ first.isDigit = true := Bool.eq_false_iff.mp ends
        exact ⟨List.takeWhile_cons_of_neg other, List.dropWhile_cons_of_neg other⟩
  rw [spelled.parts, List.takeWhile_append_of_pos spelled.digital,
    List.dropWhile_append_of_pos spelled.digital, stops.1, stops.2, List.append_nil]
  exact ⟨rfl, rfl⟩

theorem parse_duration_iff : parseDuration text = .ok duration ↔
    ∃ digits unit scale, Spelled text digits unit scale ∧ numberOf digits < UInt64.size ∧
      numberOf digits * scale < UInt64.size ∧ duration.toNat = numberOf digits * scale := by
  constructor
  · intro parsed
    unfold parseDuration at parsed
    dsimp only at parsed
    split at parsed
    · exact nomatch parsed
    rename_i number numeral
    split at parsed
    · exact nomatch parsed
    rename_i scale known
    split at parsed
    · rename_i fits
      obtain ⟨filled, digital, same⟩ := read_word_iff.mp numeral
      obtain rfl := Except.ok.inj parsed
      refine ⟨_, _, scale, ⟨List.takeWhile_append_dropWhile.symm, filled, digital,
        unit_scale_iff.mp known⟩, ?_, ?_, ?_⟩
      · exact same ▸ number.toNat_lt_size
      · exact same ▸ fits
      · rw [UInt64.toNat_ofNat_of_lt' fits, same]
    · exact nomatch parsed
  · rintro ⟨digits, unit, scale, spelled, small, fits, same⟩
    have numeral : Decimal.readWord? digits = some (UInt64.ofNat (numberOf digits)) :=
      read_word_iff.mpr ⟨spelled.filled, spelled.digital, (UInt64.toNat_ofNat_of_lt' small).symm⟩
    unfold parseDuration
    dsimp only
    rw [spelled.span.1, spelled.span.2, numeral]
    dsimp only
    rw [unit_scale_iff.mpr spelled.known]
    dsimp only
    rw [UInt64.toNat_ofNat_of_lt' small, if_pos fits, ← same, UInt64.ofNat_toNat]

/-- A text that is no length of time is refused with a reason that quotes it. -/
theorem parse_duration_refused {fault : ArgumentFault}
    (refused : parseDuration text = .error fault) :
    let quoted := String.ofList (trim text)
    fault ∈ [.duration quoted, .durationUnit quoted, .durationOverflow quoted] := by
  unfold parseDuration at refused
  dsimp only at refused
  split at refused
  · obtain rfl := Except.error.inj refused
    simp
  split at refused
  · obtain rfl := Except.error.inj refused
    simp
  split at refused
  · exact nomatch refused
  · obtain rfl := Except.error.inj refused
    simp

theorem duration_text_letters (duration : Duration) :
    (durationText duration).toList = Decimal.write duration.toNat ++ ['m', 's'] := by
  simp [durationText, Decimal.text]

theorem duration_text_solid {letter : Char} (member : letter ∈ (durationText duration).toList) :
    isBlank letter = false := by
  rw [duration_text_letters, List.mem_append] at member
  rcases member with digit | unit
  · exact digit_solid (Decimal.write_digits digit)
  · simp only [List.mem_cons, List.not_mem_nil, or_false] at unit
    rcases unit with rfl | rfl <;> rfl

/-- A length of time is read back from its spelling in milliseconds. -/
theorem parse_duration_text (duration : Duration) :
    parseDuration (durationText duration).toList = .ok duration := by
  obtain ⟨filled, digital, same⟩ := read_iff.mp (Decimal.read_write duration.toNat)
  have trimmed : trim (durationText duration).toList = (durationText duration).toList :=
    trim_solid fun letter => duration_text_solid
  rw [parse_duration_iff]
  refine ⟨Decimal.write duration.toNat, ['m', 's'], 1, ⟨?_, filled, digital, by decide +kernel⟩,
    ?_, ?_, ?_⟩
  · rw [trimmed, duration_text_letters]
  · rw [same]
    exact duration.toNat_lt_size
  · rw [same, Nat.mul_one]
    exact duration.toNat_lt_size
  · rw [same, Nat.mul_one]

end Duration

end Chronicle.Text

namespace Chronicle

namespace AggregationKind

theorem parse_name (kind : AggregationKind) : parse kind.name = .ok kind := by
  have found : all.find? (fun other => other.name = kind.name.map Char.toLower) = some kind := by
    cases kind <;> decide +kernel
  rw [parse, found]

end AggregationKind

namespace Policy

open Text

/-- A letter that stands in no place where it could be taken for more than a letter. -/
structure Plain (letter : Char) : Prop where
  solid : isBlank letter = false
  undivided : letter ≠ ':'
  unlisted : letter ≠ ';'

theorem plain_name (kind : AggregationKind) : ∀ letter ∈ kind.name.toList, Plain letter := by
  have checked : kind.name.toList.all (fun letter =>
      !isBlank letter && letter != ':' && letter != ';') = true := by
    cases kind <;> decide +kernel
  intro letter member
  have plain := List.all_eq_true.mp checked letter member
  simp only [Bool.and_eq_true, Bool.not_eq_true', bne_iff_ne] at plain
  exact ⟨plain.1.1, plain.1.2, plain.2⟩

theorem plain_duration (duration : Duration) :
    ∀ letter ∈ (durationText duration).toList, Plain letter := by
  intro letter member
  have solid := duration_text_solid member
  rw [duration_text_letters, List.mem_append] at member
  rcases member with digit | unit
  · have digital := Decimal.write_digits digit
    constructor
    · exact solid
    · rintro rfl
      exact absurd digital (by decide)
    · rintro rfl
      exact absurd digital (by decide)
  · simp only [List.mem_cons, List.not_mem_nil, or_false] at unit
    rcases unit with rfl | rfl <;> exact ⟨solid, by decide, by decide⟩

def parts (policy : Policy) : List (List Char) :=
  [policy.kind.name.toList, (durationText policy.width).toList,
    (durationText policy.retention).toList]

theorem plain_parts (policy : Policy) : ∀ part ∈ policy.parts, ∀ letter ∈ part, Plain letter := by
  intro part member
  simp only [parts, List.mem_cons, List.not_mem_nil, or_false] at member
  rcases member with rfl | rfl | rfl
  · exact plain_name policy.kind
  · exact plain_duration policy.width
  · exact plain_duration policy.retention

theorem text_letters (policy : Policy) : policy.text.toList = [':'].intercalate policy.parts := by
  simp [text, parts, List.intercalate_cons_cons]

theorem plain_text (policy : Policy) : ∀ letter ∈ policy.text.toList,
    isBlank letter = false ∧ letter ≠ ';' := by
  have mark : isBlank ':' = false ∧ ':' ≠ ';' := by decide
  have plain : ∀ part ∈ policy.parts, ∀ letter ∈ part, isBlank letter = false ∧ letter ≠ ';' :=
    fun part among letter member =>
      have plain := plain_parts policy part among letter member
      ⟨plain.solid, plain.unlisted⟩
  intro letter member
  simp only [text_letters, parts, List.intercalate_cons_cons, List.intercalate_singleton,
    List.append_assoc, List.mem_append, List.mem_singleton] at member
  rcases member with name | rfl | width | rfl | retention
  · exact plain _ (by simp [parts]) letter name
  · exact mark
  · exact plain _ (by simp [parts]) letter width
  · exact mark
  · exact plain _ (by simp [parts]) letter retention

theorem parse_text {policy : Policy} (wide : policy.width ≠ 0) :
    parse policy.text.toList = .ok policy := by
  have trimmed : trim policy.text.toList = policy.text.toList :=
    trim_solid fun letter member => (plain_text policy letter member).1
  have split : policy.text.toList.splitOn ':' = policy.parts := by
    rw [text_letters]
    apply List.splitOn_intercalate ':' _ (List.cons_ne_nil _ _)
    intro part member colon
    exact (plain_parts policy part member ':' colon).undivided rfl
  unfold parse
  rw [trimmed, split, parts]
  simp only [String.ofList_toList, AggregationKind.parse_name, parse_duration_text]
  exact if_neg wide

theorem parse_pieces {policies : List Policy} (wide : ∀ policy ∈ policies, policy.width ≠ 0) :
    (policies.map fun policy => policy.text.toList).mapM parse = .ok policies := by
  induction policies with
  | nil => rfl
  | cons policy later ih =>
      have others := ih fun next member => wide next (List.mem_cons_of_mem policy member)
      rw [List.map_cons, List.mapM_cons, parse_text (wide policy List.mem_cons_self), others]
      rfl

theorem parse_list_text {policies : List Policy}
    (wide : ∀ policy ∈ policies, policy.width ≠ 0) :
    parseList (listText policies).toList = .ok policies := by
  by_cases none : policies = []
  · subst none
    rfl
  have letters : (listText policies).toList =
      [';'].intercalate (policies.map fun policy => policy.text.toList) := by
    simp [listText, String.toList_intercalate, Function.comp_def]
  have split : (listText policies).toList.splitOn ';' =
      policies.map fun policy => policy.text.toList := by
    rw [letters]
    apply List.splitOn_intercalate ';' _ (by simpa using none)
    intro piece member mark
    obtain ⟨policy, _, rfl⟩ := List.mem_map.mp member
    exact (plain_text policy ';' mark).2 rfl
  have trimmed : (policies.map fun policy => policy.text.toList).map trim =
      policies.map fun policy => policy.text.toList := by
    rw [List.map_map]
    apply List.map_congr_left
    intro policy _
    exact trim_solid fun letter member => (plain_text policy letter member).1
  have filled : (policies.map fun policy => policy.text.toList).filter
      (fun piece => !piece.isEmpty) = policies.map fun policy => policy.text.toList := by
    rw [List.filter_eq_self]
    intro piece member
    obtain ⟨policy, _, rfl⟩ := List.mem_map.mp member
    simp [text_letters, parts, List.intercalate_cons_cons]
  rw [parseList, split, trimmed, filled, parse_pieces wide]

/-- A list of policies is read back from its text, as it stands in settings and as the daemon
shows them. A length of time in it is a numeral and a unit of which neither the number nor the
product is beyond a word, and it is worth that product; any other text is a bad argument. -/
theorem texts_read_back (policies : List Policy) (text : List Char) :
    ((∀ policy ∈ policies, policy.width ≠ 0) →
      parseList (listText policies).toList = .ok policies) ∧
    (∀ duration, parseDuration text = .ok duration ↔
      ∃ digits unit scale, Spelled text digits unit scale ∧ numberOf digits < UInt64.size ∧
        numberOf digits * scale < UInt64.size ∧ duration.toNat = numberOf digits * scale) ∧
    ((∀ duration, parseDuration text ≠ .ok duration) →
      let quoted := String.ofList (trim text)
      ∃ fault ∈ [ArgumentFault.duration quoted, .durationUnit quoted, .durationOverflow quoted],
        Error.ofArgument (parseDuration text) = .error (.invalidArgument fault)) := by
  refine ⟨parse_list_text, fun duration => parse_duration_iff, fun unread => ?_⟩
  cases parsed : parseDuration text with
  | ok duration => exact absurd parsed (unread duration)
  | error fault => exact ⟨fault, parse_duration_refused parsed, rfl⟩

/-- Policies with the shortest bucket and the longest retention, and the greatest number of days
that fits a word beside the next. -/
theorem texts_read_back_extreme :
    listText [⟨.stdP, 1, 0xffffffffffffffff⟩, ⟨.max, 60000, 0⟩] =
        "std.p:1ms:18446744073709551615ms;max:60000ms:0ms" ∧
      parseList "std.p:1ms:18446744073709551615ms;max:60000ms:0ms".toList =
        .ok [⟨.stdP, 1, 0xffffffffffffffff⟩, ⟨.max, 60000, 0⟩] ∧
      parseDuration " 213503982334d\n".toList = .ok 18446744073657600000 ∧
      Error.ofArgument (parseDuration "213503982335d".toList) =
        .error (.invalidArgument (.durationOverflow "213503982335d")) := by
  have written : listText [⟨.stdP, 1, 0xffffffffffffffff⟩, ⟨.max, 60000, 0⟩] =
      "std.p:1ms:18446744073709551615ms;max:60000ms:0ms" := by decide +kernel
  have wide : ∀ policy ∈ [(⟨.stdP, 1, 0xffffffffffffffff⟩ : Policy), ⟨.max, 60000, 0⟩],
      policy.width ≠ 0 := by decide
  have read := (texts_read_back _ []).1 wide
  rw [written] at read
  refine ⟨written, read, ?_, rfl⟩
  refine ((texts_read_back [] _).2.1 _).mpr ⟨"213503982334".toList, "d".toList, 86400000, ?_⟩
  have digital : ∀ letter ∈ "213503982334".toList, letter.isDigit = true :=
    List.all_eq_true.mp (by decide +kernel)
  exact ⟨⟨by decide +kernel, by decide +kernel, digital, by decide +kernel⟩,
    by decide +kernel, by decide +kernel, by decide +kernel⟩

end Policy

end Chronicle

import Chronicle.Proofs.Query.Text

/-!
Which texts are predicates, and of which form the text of a predicate that was read is. A text
is divided at its first sign, the sign of a negation before any other. Writing what was read
leaves everything up to and with the sign as it was, and what it changes behind the sign, by
trimming the values of a list and passing over empty ones, brings no sign into the text.
-/

namespace Chronicle

namespace Predicate

open Text

/-- That a text is divided at the first place where a mark stands. -/
structure Divides (mark text before after : List Char) : Prop where
  parts : text = before ++ (mark ++ after)
  earliest : ∀ front back, text = front ++ (mark ++ back) → before.length ≤ front.length

section Divides

variable {mark text before after : List Char}

theorem Divides.within (divides : Divides mark text before after) : mark <:+: text :=
  ⟨before, after, by rw [divides.parts, List.append_assoc]⟩

theorem Divides.unique {front back : List Char} (divides : Divides mark text before after)
    (other : Divides mark text front back) : before = front ∧ after = back := by
  have length : before.length = front.length :=
    Nat.le_antisymm (divides.earliest _ _ other.parts) (other.earliest _ _ divides.parts)
  obtain ⟨same, behind⟩ := List.append_inj (divides.parts.symm.trans other.parts) length
  exact ⟨same, List.append_cancel_left behind⟩

theorem Divides.behind (divides : Divides mark text before after) (other : List Char) :
    Divides mark (before ++ (mark ++ other)) before other where
  parts := rfl
  earliest := by
    intro front back same
    refine Nat.le_of_not_lt fun shorter => ?_
    have early : front ++ mark <+: before ++ (mark ++ other) :=
      ⟨back, by rw [same, List.append_assoc]⟩
    have late : before ++ mark <+: before ++ (mark ++ other) := ⟨other, List.append_assoc ..⟩
    have length : (front ++ mark).length ≤ (before ++ mark).length := by
      simp only [List.length_append]
      exact Nat.add_le_add_right (Nat.le_of_lt shorter) _
    obtain ⟨between, joined⟩ := List.prefix_of_prefix_length_le early late length
    have again : text = front ++ (mark ++ (between ++ after)) := by
      rw [divides.parts, ← List.append_assoc, ← joined, List.append_assoc, List.append_assoc]
    exact Nat.not_le_of_lt shorter (divides.earliest _ _ again)

theorem divides_of_cut (cut : cutAt mark text = some (before, after)) :
    Divides mark text before after := by
  induction text generalizing before with
  | nil => exact nomatch cut
  | cons letter text ih =>
      rw [cutAt] at cut
      split at cut
      · rename_i here
        obtain ⟨rfl, rfl⟩ := Prod.mk.inj (Option.some.inj cut)
        refine ⟨?_, fun _ _ _ => Nat.zero_le _⟩
        exact (List.prefix_iff_eq_append.mp (List.isPrefixOf_iff_prefix.mp here)).symm
      · rename_i elsewhere
        obtain ⟨⟨shorter, rest⟩, cutLater, same⟩ := Option.map_eq_some_iff.mp cut
        obtain ⟨rfl, rfl⟩ := Prod.mk.inj same
        have later := ih cutLater
        refine ⟨congrArg (letter :: ·) later.parts, ?_⟩
        intro front back parts
        cases front with
        | nil =>
            have begins : mark <+: letter :: text := ⟨back, parts.symm⟩
            exact absurd (List.isPrefixOf_iff_prefix.mpr begins) elsewhere
        | cons first front =>
            exact Nat.succ_le_succ (later.earliest _ _ (List.cons.inj parts).2)

theorem cut_at_eq_some_iff (filled : mark ≠ []) :
    cutAt mark text = some (before, after) ↔ Divides mark text before after := by
  refine ⟨divides_of_cut, fun divides => ?_⟩
  cases cut : cutAt mark text with
  | none => exact absurd divides.within ((cut_at_eq_none_iff filled text).mp cut)
  | some parts =>
      obtain ⟨rfl, rfl⟩ := (divides_of_cut cut).unique divides
      rfl

end Divides

/-- That a text is a name, a sign and what stands behind it: the first sign of a negation, if
there is one, or else the first sign there is. The flag says which. -/
inductive Signed (text name : List Char) : Bool → List Char → Prop where
  | negated {operand : List Char} : Divides negation text name operand →
      Signed text name true operand
  | affirmed {operand : List Char} : ¬ negation <:+: text → Divides ['='] text name operand →
      Signed text name false operand

section Signed

variable {text name operand : List Char} {negated : Bool}

theorem read_signed (signed : Signed text name negated operand) :
    read? text =
      if name.isEmpty then none else readOperand (String.ofList name) negated operand := by
  cases signed with
  | negated divides => exact read_negated ((cut_at_eq_some_iff (by decide)).mpr divides)
  | affirmed whole divides =>
      exact read_affirmed ((cut_at_eq_none_iff (by decide) text).mpr whole)
        ((cut_at_eq_some_iff (by decide)).mpr divides)

theorem read_unsigned (unsigned : '=' ∉ text) : read? text = none := by
  have whole : cutAt negation text = none :=
    (cut_at_eq_none_iff (by decide) text).mpr fun holds => unsigned (holds.subset (by decide))
  have uncut : cutAt ['='] text = none :=
    (cut_at_eq_none_iff (by decide) text).mpr fun holds => unsigned (holds.subset (by decide))
  rw [read?, ← negation, whole, uncut]
  rfl

/-- Both signs hold the same letter, so a text with it has one of them. -/
theorem exists_signed_iff :
    (∃ name negated operand, Signed text name negated operand) ↔ '=' ∈ text := by
  constructor
  · rintro ⟨name, _, operand, divides | ⟨_, divides⟩⟩
    · exact divides.within.subset (by decide)
    · exact divides.within.subset (by decide)
  · intro member
    cases cut : cutAt negation text with
    | some parts => exact ⟨_, _, _, .negated (divides_of_cut cut)⟩
    | none =>
        have whole := (cut_at_eq_none_iff (by decide) text).mp cut
        cases affirmed : cutAt ['='] text with
        | some parts => exact ⟨_, _, _, .affirmed whole (divides_of_cut affirmed)⟩
        | none =>
            have absent := (cut_at_eq_none_iff (by decide) text).mp affirmed
            obtain ⟨front, back, rfl⟩ := List.append_of_mem member
            exact absurd ⟨front, back, by simp⟩ absent

end Signed

def Closed (operand : List Char) : Prop :=
  operand.head? = some '(' → ∃ inner, operand = '(' :: (inner ++ [')'])

def single (name : String) (negated : Bool) (value : String) : Predicate :=
  if negated then notEqual name value else equal name value

def several (name : String) (negated : Bool) (values : List String) : Predicate :=
  if negated then noneOf name values else oneOf name values

/-- What is read behind a sign: the values of a list that is opened and closed, and else all
of it as one value. -/
inductive Reads (name : String) (negated : Bool) : List Char → Predicate → Prop where
  | single {operand : List Char} : operand.head? ≠ some '(' →
      Reads name negated operand (single name negated (String.ofList operand))
  /-- The values are the pieces between the commas, trimmed, without those that are empty. -/
  | several {inner : List Char} {values : List String} :
      values.map String.toList = ((inner.splitOn ',').map trim).filter (· ≠ []) →
        Reads name negated ('(' :: (inner ++ [')'])) (several name negated values)

section Operand

variable {name : String} {negated : Bool} {operand : List Char} {predicate : Predicate}

theorem read_values_eq_iff {inner : List Char} {values : List String} :
    readValues inner = values ↔
      values.map String.toList = ((inner.splitOn ',').map trim).filter (· ≠ []) := by
  have pieces : ((inner.splitOn ',').map trim).filter (fun piece => !piece.isEmpty) =
      ((inner.splitOn ',').map trim).filter (· ≠ []) := by
    apply List.filter_congr
    intro piece _
    cases piece <;> rfl
  rw [readValues, pieces]
  constructor
  · rintro rfl
    simp [Function.comp_def]
  · intro same
    rw [← same]
    simp [Function.comp_def]

theorem read_operand_iff :
    readOperand name negated operand = some predicate ↔ Reads name negated operand predicate := by
  constructor
  · intro read
    unfold readOperand at read
    split at read
    · rename_i inner
      split at read
      · rename_i closed
        obtain ⟨front, rfl⟩ := List.getLast?_eq_some_iff.mp closed
        obtain rfl := Option.some.inj read
        rw [List.dropLast_concat]
        exact .several (read_values_eq_iff.mp rfl)
      · exact nomatch read
    · rename_i unopened
      obtain rfl := Option.some.inj read
      apply Reads.single
      intro opened
      obtain ⟨inner, rfl⟩ := List.head?_eq_some_iff.mp opened
      exact unopened inner rfl
  · rintro (unopened | pieces)
    · unfold readOperand
      split
      · exact absurd rfl unopened
      · rfl
    · rw [readOperand, if_pos (by simp), List.dropLast_concat, read_values_eq_iff.mpr pieces]
      rfl

theorem exists_reads_iff :
    (∃ predicate, Reads name negated operand predicate) ↔ Closed operand := by
  constructor
  · rintro ⟨_, unopened | @⟨inner, _, _⟩⟩ opened
    · exact absurd opened unopened
    · exact ⟨inner, rfl⟩
  · intro closed
    by_cases opened : operand.head? = some '('
    · obtain ⟨inner, rfl⟩ := closed opened
      exact ⟨_, .several (read_values_eq_iff.mp rfl)⟩
    · exact ⟨_, .single opened⟩

end Operand

theorem parse_eq_ok_iff {given : String} {predicate : Predicate} :
    parse given = .ok predicate ↔ ∃ name negated operand,
      Signed given.toList name negated operand ∧ name ≠ [] ∧
        Reads (String.ofList name) negated operand predicate := by
  have parsed : parse given = .ok predicate ↔ read? given.toList = some predicate := by
    unfold parse
    cases read? given.toList <;> simp
  rw [parsed]
  constructor
  · intro read
    by_cases member : '=' ∈ given.toList
    · obtain ⟨name, negated, operand, signed⟩ := exists_signed_iff.mpr member
      rw [read_signed signed] at read
      split at read
      · exact nomatch read
      · rename_i filled
        exact ⟨name, negated, operand, signed, by simpa using filled, read_operand_iff.mp read⟩
    · rw [read_unsigned member] at read
      exact nomatch read
  · rintro ⟨name, negated, operand, signed, filled, reads⟩
    rw [read_signed signed, if_neg (by simpa using filled), read_operand_iff.mpr reads]

theorem trim_within (text : List Char) : trim text <:+: text := by
  have front := List.dropWhile_suffix isBlank (l := text)
  have back := List.dropWhile_suffix isBlank (l := (text.dropWhile isBlank).reverse)
  rw [← List.reverse_prefix, List.reverse_reverse] at back
  exact back.isInfix.trans front.isInfix

theorem bare_drop_blanks (text : List Char) :
    (text.dropWhile isBlank).head?.any isBlank = false := by
  have first := List.head?_dropWhile_not isBlank text
  cases begins : (text.dropWhile isBlank).head? with
  | none => rfl
  | some letter =>
      rw [begins] at first
      exact first

theorem tight_trim (text : List Char) : Tight (trim text) := by
  constructor
  · cases begins : (trim text).head? with
    | none => rfl
    | some letter =>
        have back := List.dropWhile_suffix isBlank (l := (text.dropWhile isBlank).reverse)
        rw [← List.reverse_prefix, List.reverse_reverse] at back
        have first := bare_drop_blanks text
        obtain ⟨rest, parts⟩ := List.head?_eq_some_iff.mp begins
        obtain ⟨dropped, whole⟩ := back
        rw [trim] at parts
        rw [parts] at whole
        rw [← whole] at first
        exact first
  · rw [trim, List.getLast?_reverse]
    exact bare_drop_blanks _

theorem not_mem_piece {inner piece : List Char} (member : piece ∈ inner.splitOn ',') :
    ',' ∉ piece := by
  induction inner generalizing piece with
  | nil =>
      rw [List.splitOn_nil, List.mem_singleton] at member
      exact member ▸ List.not_mem_nil
  | cons letter inner ih =>
      rw [List.splitOn_cons_eq_if_modifyHead] at member
      split at member
      · rcases List.mem_cons.mp member with rfl | later
        · exact List.not_mem_nil
        · exact ih later
      · rename_i differs
        cases pieces : inner.splitOn ',' with
        | nil => exact absurd pieces (List.splitOn_ne_nil ',' inner)
        | cons first later =>
            rw [pieces] at member ih
            rcases List.mem_cons.mp member with rfl | among
            · have apart := ih List.mem_cons_self
              simp only [List.mem_cons, not_or]
              exact ⟨fun same => differs (beq_iff_eq.mpr same.symm), apart⟩
            · exact ih (List.mem_cons_of_mem first among)

section Values

variable {inner : List Char} {values : List String}
  (pieces : values.map String.toList = ((inner.splitOn ',').map trim).filter (· ≠ []))

include pieces

theorem exists_piece {value : String} (member : value ∈ values) :
    value ≠ "" ∧ ∃ piece ∈ inner.splitOn ',', value.toList = trim piece := by
  have among : value.toList ∈ ((inner.splitOn ',').map trim).filter (· ≠ []) :=
    pieces ▸ List.mem_map_of_mem member
  obtain ⟨mapped, filled⟩ := List.mem_filter.mp among
  obtain ⟨piece, present, same⟩ := List.mem_map.mp mapped
  exact ⟨by simpa using filled, piece, present, same.symm⟩

theorem item_of_read {value : String} (member : value ∈ values) : Item value := by
  obtain ⟨filled, piece, present, same⟩ := exists_piece pieces member
  refine ⟨filled, ?_, same ▸ tight_trim piece⟩
  rw [same]
  exact fun inside => not_mem_piece present ((trim_within piece).subset inside)

/-- What was read from a list stands in it, since no value reaches across a comma. -/
theorem infix_of_read {value : String} (member : value ∈ values) : value.toList <:+: inner := by
  have item := item_of_read pieces member
  obtain ⟨_, piece, present, same⟩ := exists_piece pieces member
  have filled : value.toList ≠ [] := by simpa using item.filled
  have within := (infix_joined item.whole filled (inner.splitOn ',')).mpr
    ⟨piece, present, same ▸ trim_within piece⟩
  rwa [List.intercalate_splitOn] at within

/-- The values of a list are read back from the list that they are written as. -/
theorem reads_joined (name : String) (negated : Bool) :
    Reads name negated ('(' :: ([','].intercalate (values.map String.toList) ++ [')']))
      (several name negated values) :=
  .several (read_values_eq_iff.mp (read_values_joined fun _ member => item_of_read pieces member))

end Values

def signOf (negated : Bool) : List Char := if negated then negation else ['=']

section Rewriting

variable {text name operand : List Char} {negated : Bool}

theorem Signed.parts (signed : Signed text name negated operand) :
    text = name ++ (signOf negated ++ operand) := by
  cases signed with
  | negated divides | affirmed _ divides => exact divides.parts

/-- Behind its sign a text may be changed in any way that brings no sign of a negation into
one that is without. -/
theorem Signed.behind (signed : Signed text name negated operand) (other : List Char)
    (affirms : negated = false → ¬ negation <:+: name ++ ('=' :: other)) :
    Signed (name ++ (signOf negated ++ other)) name negated other := by
  cases signed with
  | negated divides => exact .negated (divides.behind other)
  | affirmed _ divides => exact .affirmed (affirms rfl) (divides.behind other)

theorem letters_single (name : List Char) (negated : Bool) (operand : List Char) :
    (single (String.ofList name) negated (String.ofList operand)).text.toList =
      name ++ (signOf negated ++ operand) := by
  cases negated <;> simp [single, signOf, negation, Predicate.text]

theorem letters_several (name : List Char) (negated : Bool) (values : List String) :
    (several (String.ofList name) negated values).text.toList = name ++ (signOf negated ++
      ('(' :: ([','].intercalate (values.map String.toList) ++ [')']))) := by
  cases negated <;>
    simp [several, signOf, negation, Predicate.text, String.toList_intercalate]

/-- A list that is written anew has no sign that was not in the text that it was read from. -/
theorem affirms_joined {inner : List Char} {values : List String}
    (pieces : values.map String.toList = ((inner.splitOn ',').map trim).filter (· ≠ []))
    (signed : Signed text name false ('(' :: (inner ++ [')']))) :
    ¬ negation <:+: name ++
      ('=' :: '(' :: ([','].intercalate (values.map String.toList) ++ [')'])) := by
  obtain ⟨whole, divides⟩ : ¬ negation <:+: text ∧
      Divides ['='] text name ('(' :: (inner ++ [')'])) := by
    cases signed with
    | affirmed whole divides => exact ⟨whole, divides⟩
  have parts : text = (name ++ ['=']) ++ '(' :: (inner ++ [')']) := by
    rw [divides.parts, List.append_assoc]
  have opening : '(' ∉ negation := by decide
  rw [List.append_cons, infix_across opening]
  rintro (inside | behind)
  · rw [parts, infix_across opening] at whole
    exact whole (Or.inl inside)
  · obtain ⟨value, member, holds⟩ :=
      (negation_in_list values).mp (List.infix_cons behind)
    have within : negation <:+: inner := holds.trans (infix_of_read pieces member)
    rw [parts, infix_across opening] at whole
    exact whole (Or.inr (List.infix_append_of_infix_left within))

end Rewriting

/-- The text of what was read is read as the same. -/
theorem parse_text_of_parse {given : String} {predicate : Predicate}
    (read : parse given = .ok predicate) : parse predicate.text = .ok predicate := by
  obtain ⟨name, negated, operand, signed, filled, reads⟩ := parse_eq_ok_iff.mp read
  cases reads with
  | single unopened =>
      have same : (single (String.ofList name) negated (String.ofList operand)).text = given := by
        rw [← String.toList_inj, letters_single, signed.parts]
      rw [same, read]
  | @several inner values pieces =>
      have again := signed.behind ('(' :: ([','].intercalate (values.map String.toList)
        ++ [')'])) fun affirms => affirms_joined pieces (affirms ▸ signed)
      rw [parse_eq_ok_iff, letters_several]
      exact ⟨name, negated, _, again, filled, reads_joined pieces _ _⟩

/-- A text is read as a predicate exactly if it has a sign, a name before the first, and behind
it no list that is left open. It is read by that sign, and the text of what was read is read as
the same. -/
theorem parse_exact (given : String) :
    ((∃ predicate, parse given = .ok predicate) ↔
      '=' ∈ given.toList ∧ ∃ name negated operand,
        Signed given.toList name negated operand ∧ name ≠ [] ∧ Closed operand) ∧
    (∀ predicate, parse given = .ok predicate ↔ ∃ name negated operand,
      Signed given.toList name negated operand ∧ name ≠ [] ∧
        Reads (String.ofList name) negated operand predicate) ∧
    ∀ predicate, parse given = .ok predicate → parse predicate.text = .ok predicate := by
  refine ⟨⟨?_, ?_⟩, fun predicate => parse_eq_ok_iff, fun predicate => parse_text_of_parse⟩
  · rintro ⟨predicate, read⟩
    obtain ⟨name, negated, operand, signed, filled, reads⟩ := parse_eq_ok_iff.mp read
    exact ⟨exists_signed_iff.mp ⟨name, negated, operand, signed⟩, name, negated, operand, signed,
      filled, exists_reads_iff.mp ⟨predicate, reads⟩⟩
  · rintro ⟨_, name, negated, operand, signed, filled, closed⟩
    obtain ⟨predicate, reads⟩ := exists_reads_iff.mpr closed
    exact ⟨predicate, parse_eq_ok_iff.mpr ⟨name, negated, operand, signed, filled, reads⟩⟩

/-- A list whose values are trimmed and passed over, with halves of the sign of a negation that
its commas keep apart. -/
theorem parse_exact_trimmed :
    parse "!zone=( a ,, b! ,=c )" = .ok (oneOf "!zone" ["a", "b!", "=c"]) ∧
      (oneOf "!zone" ["a", "b!", "=c"]).text = "!zone=(a,b!,=c)" ∧
      parse "!zone=(a,b!,=c)" = .ok (oneOf "!zone" ["a", "b!", "=c"]) := by
  have read : parse "!zone=( a ,, b! ,=c )" = .ok (oneOf "!zone" ["a", "b!", "=c"]) := rfl
  exact ⟨read, rfl, (parse_exact "!zone=( a ,, b! ,=c )").2.2 _ read⟩

end Predicate

end Chronicle

import Chronicle.Query.Predicate
import Chronicle.Series
import Mathlib.Logic.Basic

/-!
Predicates and their own texts. The reader looks for the sign of a negation before it looks for
any other sign, and it looks everywhere, in the values too. So the text of a predicate that
negates is always read as that predicate, and the text of one that does not is read as another
predicate, or not at all, where a value of it holds the sign of a negation.
-/

namespace Chronicle

namespace Predicate

open Text

section Marks

variable {mark before : List Char} {first separator : Char}

theorem cut_at_eq_none_iff (filled : mark ≠ []) (text : List Char) :
    cutAt mark text = none ↔ ¬ mark <:+: text := by
  induction text with
  | nil => simp [cutAt, filled]
  | cons letter text ih =>
      rw [cutAt, List.infix_cons_iff, ← List.isPrefixOf_iff_prefix]
      split
      · rename_i here
        simp [here]
      · rename_i elsewhere
        simp [elsewhere, ih]

/-- A text is cut at a mark that cannot begin any earlier. -/
theorem cut_at_append (outside : first ∉ before) (rest after : List Char) :
    cutAt (first :: rest) (before ++ (first :: rest ++ after)) = some (before, after) := by
  induction before with
  | nil => simp [cutAt, List.isPrefixOf_iff_prefix]
  | cons letter before ih =>
      obtain ⟨differ, later⟩ := List.ne_and_not_mem_of_not_mem_cons outside
      have elsewhere : ¬ (first :: rest).isPrefixOf
          (letter :: (before ++ (first :: rest ++ after))) = true := by
        intro here
        exact differ (List.cons_prefix_cons.mp (List.isPrefixOf_iff_prefix.mp here)).1
      rw [List.cons_append, cutAt, if_neg elsewhere, ih later]
      rfl

theorem infix_append_outside (outside : first ∉ before) (rest after : List Char) :
    first :: rest <:+: before ++ after ↔ first :: rest <:+: after := by
  induction before with
  | nil => rfl
  | cons letter before ih =>
      obtain ⟨differ, later⟩ := List.ne_and_not_mem_of_not_mem_cons outside
      rw [List.cons_append, List.infix_cons_iff, List.cons_prefix_cons, ih later]
      simp [differ]

/-- A mark does not reach across a letter that is not in it. -/
theorem infix_across (apart : separator ∉ mark) (before after : List Char) :
    mark <:+: before ++ separator :: after ↔ mark <:+: before ∨ mark <:+: after := by
  constructor
  · rw [List.infix_append_iff, List.infix_cons_iff]
    rintro (inside | (begins | behind) | ⟨front, back, parts, ends, begins⟩)
    · exact Or.inl inside
    · rcases List.prefix_cons_iff.mp begins with none | ⟨_, rfl, _⟩
      · exact Or.inl (none ▸ List.nil_infix)
      · exact absurd List.mem_cons_self apart
    · exact Or.inr behind
    · rcases List.prefix_cons_iff.mp begins with none | ⟨_, rfl, _⟩
      · rw [none, List.append_nil] at parts
        exact Or.inl (parts ▸ ends.isInfix)
      · exact absurd (by simp [parts]) apart
  · rintro (inside | behind)
    · exact List.infix_append_of_infix_left inside
    · exact List.infix_append_of_infix_right (List.infix_cons behind)

theorem infix_joined (apart : separator ∉ mark) (filled : mark ≠ [])
    (pieces : List (List Char)) :
    mark <:+: [separator].intercalate pieces ↔ ∃ piece ∈ pieces, mark <:+: piece := by
  induction pieces with
  | nil => simp [filled]
  | cons piece later ih =>
      cases later with
      | nil => simp
      | cons next later =>
          rw [List.intercalate_cons_cons, List.append_assoc, List.singleton_append,
            infix_across apart, ih]
          simp

end Marks

/-- That a text does not begin and does not end with a blank. -/
def Tight (text : List Char) : Prop :=
  text.head?.any isBlank = false ∧ text.getLast?.any isBlank = false

instance (text : List Char) : Decidable (Tight text) := inferInstanceAs (Decidable (_ ∧ _))

theorem drop_blanks {text : List Char} (bare : text.head?.any isBlank = false) :
    text.dropWhile isBlank = text := by
  cases text with
  | nil => rfl
  | cons letter text => exact List.dropWhile_cons_of_neg (Bool.eq_false_iff.mp bare)

theorem trim_tight {text : List Char} (tight : Tight text) : trim text = text := by
  obtain ⟨begins, ends⟩ := tight
  have backwards : text.reverse.dropWhile isBlank = text.reverse :=
    drop_blanks (by rwa [List.head?_reverse])
  rw [trim, drop_blanks begins, backwards, List.reverse_reverse]

/-- That a value can stand in a list of values. -/
structure Item (value : String) : Prop where
  filled : value ≠ ""
  whole : ',' ∉ value.toList
  tight : Tight value.toList

instance (value : String) : Decidable (Item value) :=
  decidable_of_iff (value ≠ "" ∧ ',' ∉ value.toList ∧ Tight value.toList)
    ⟨fun ⟨filled, whole, tight⟩ => ⟨filled, whole, tight⟩,
      fun item => ⟨item.filled, item.whole, item.tight⟩⟩

theorem read_values_joined {values : List String} (items : ∀ value ∈ values, Item value) :
    readValues ([','].intercalate (values.map String.toList)) = values := by
  by_cases none : values = []
  · subst none
    rfl
  have whole : ∀ letters ∈ values.map String.toList, ',' ∉ letters := by
    intro letters member
    obtain ⟨value, among, rfl⟩ := List.mem_map.mp member
    exact (items value among).whole
  have split := List.splitOn_intercalate ',' whole (by simpa using none)
  have trimmed : (values.map String.toList).map trim = values.map String.toList := by
    rw [List.map_map]
    apply List.map_congr_left
    intro value member
    exact trim_tight (items value member).tight
  have kept : (values.map String.toList).filter (fun piece => !piece.isEmpty) =
      values.map String.toList := by
    rw [List.filter_eq_self]
    intro letters member
    obtain ⟨value, among, rfl⟩ := List.mem_map.mp member
    simpa using (items value among).filled
  rw [readValues, split, trimmed, kept, List.map_map]
  simp [Function.comp_def]

def negation : List Char := ['!', '=']

def negates : Predicate → Bool
  | equal _ _ | oneOf _ _ => false
  | notEqual _ _ | noneOf _ _ => true

section Read

variable {given name operand : List Char}

theorem read_negated (cut : cutAt negation given = some (name, operand)) :
    read? given =
      if name.isEmpty then none else readOperand (String.ofList name) true operand := by
  rw [read?, ← negation, cut]
  rfl

theorem read_affirmed (whole : cutAt negation given = none)
    (cut : cutAt ['='] given = some (name, operand)) :
    read? given =
      if name.isEmpty then none else readOperand (String.ofList name) false operand := by
  rw [read?, ← negation, whole, cut]
  rfl

theorem negates_operand {name : String} {negated : Bool} {predicate : Predicate}
    (read : readOperand name negated operand = some predicate) : predicate.negates = negated := by
  unfold readOperand at read
  split at read
  · split at read
    · obtain rfl := Option.some.inj read
      cases negated <;> rfl
    · exact nomatch read
  · obtain rfl := Option.some.inj read
    cases negated <;> rfl

theorem negates_of_holding (holds : negation <:+: given) {predicate : Predicate}
    (read : read? given = some predicate) : predicate.negates = true := by
  cases cut : cutAt negation given with
  | none => exact absurd holds ((cut_at_eq_none_iff (by decide) given).mp cut)
  | some parts =>
      rw [read_negated cut] at read
      split at read
      · exact nomatch read
      · exact negates_operand read

end Read

structure Name (name : String) : Prop where
  filled : name ≠ ""
  unsigned : '=' ∉ name.toList
  affirmed : '!' ∉ name.toList

instance (name : String) : Decidable (Name name) :=
  decidable_of_iff (name ≠ "" ∧ '=' ∉ name.toList ∧ '!' ∉ name.toList)
    ⟨fun ⟨filled, unsigned, affirmed⟩ => ⟨filled, unsigned, affirmed⟩,
      fun named => ⟨named.filled, named.unsigned, named.affirmed⟩⟩

/-- That the parts of a predicate can stand in its text: a name without signs, a single value
that does not open a list, and values of a list that are not cut or trimmed. -/
def Plain : Predicate → Prop
  | equal name value | notEqual name value => Name name ∧ value.toList.head? ≠ some '('
  | oneOf name values | noneOf name values => Name name ∧ ∀ value ∈ values, Item value

instance : DecidablePred Plain
  | equal _ _ | notEqual _ _ | oneOf _ _ | noneOf _ _ => inferInstanceAs (Decidable (_ ∧ _))

/-- That a value of a predicate which does not negate holds the sign of a negation. -/
def Misleads : Predicate → Prop
  | equal _ value => negation <:+: value.toList
  | oneOf _ values => ∃ value ∈ values, negation <:+: value.toList
  | notEqual _ _ | noneOf _ _ => False

instance : DecidablePred Misleads
  | equal _ value => inferInstanceAs (Decidable (_ <:+: value.toList))
  | oneOf _ values => inferInstanceAs (Decidable (∃ value ∈ values, _))
  | notEqual _ _ | noneOf _ _ => inferInstanceAs (Decidable False)

def operand : Predicate → List Char
  | equal _ value | notEqual _ value => value.toList
  | oneOf _ values | noneOf _ values =>
      '(' :: ([','].intercalate (values.map String.toList) ++ [')'])

def name : Predicate → String
  | equal name _ | notEqual name _ | oneOf name _ | noneOf name _ => name

def sign (predicate : Predicate) : List Char := if predicate.negates then negation else ['=']

theorem text_letters (predicate : Predicate) :
    predicate.text.toList = predicate.name.toList ++ (predicate.sign ++ predicate.operand) := by
  cases predicate <;>
    simp [text, name, sign, negates, negation, operand, String.toList_intercalate]

theorem read_operand_own {predicate : Predicate} (plain : predicate.Plain) :
    readOperand predicate.name predicate.negates predicate.operand = some predicate := by
  have single : ∀ {value : String} (name : String) (negated : Bool),
      value.toList.head? ≠ some '(' → readOperand name negated value.toList =
        some (if negated then notEqual name value else equal name value) := by
    intro value name negated closed
    unfold readOperand
    split
    · rename_i opened
      rw [opened] at closed
      exact absurd rfl closed
    · rw [String.ofList_toList]
  have several : ∀ {values : List String} (name : String) (negated : Bool),
      (∀ value ∈ values, Item value) →
        readOperand name negated ('(' :: ([','].intercalate (values.map String.toList) ++ [')'])) =
          some (if negated then noneOf name values else oneOf name values) := by
    intro values name negated items
    simp only [readOperand, List.getLast?_append, List.getLast?_singleton, Option.some_or,
      List.dropLast_concat, read_values_joined items, if_true]
  cases predicate with
  | equal name value | notEqual name value => exact single name _ plain.2
  | oneOf name values | noneOf name values => exact several name _ plain.2

/-- Between brackets and commas a sign stands only inside a value. -/
theorem negation_in_list (values : List String) :
    negation <:+: '(' :: ([','].intercalate (values.map String.toList) ++ [')']) ↔
      ∃ value ∈ values, negation <:+: value.toList := by
  have comma : ',' ∉ negation := by decide
  have opening : '(' ∉ negation := by decide
  have closing : ')' ∉ negation := by decide
  have opened := infix_across opening [] ([','].intercalate (values.map String.toList) ++ [')'])
  have closed := infix_across closing ([','].intercalate (values.map String.toList)) []
  have joined := infix_joined comma (by decide) (values.map String.toList)
  have bare : ¬ negation <:+: [] := by decide
  rw [List.nil_append] at opened
  rw [opened, closed, joined]
  simp [bare]

theorem holds_negation_iff {predicate : Predicate} (plain : predicate.Plain)
    (affirms : predicate.negates = false) :
    negation <:+: predicate.text.toList ↔ predicate.Misleads := by
  have outside : ∀ {name : String}, Name name → ∀ rest : List Char,
      negation <:+: name.toList ++ '=' :: rest ↔ negation <:+: rest := by
    intro name named rest
    have apart : '!' ∉ name.toList ++ ['='] := by simp [named.affirmed]
    have front := infix_append_outside apart ['='] rest
    rwa [List.append_assoc] at front
  rw [text_letters]
  cases predicate with
  | equal name value => exact outside plain.1 _
  | oneOf name values => exact (outside plain.1 _).trans (negation_in_list values)
  | notEqual | noneOf => exact nomatch affirms

/-- A predicate whose text could be its own is read back from it exactly if it negates or none
of its values holds the sign of a negation. -/
theorem parse_text_iff {predicate : Predicate} (plain : predicate.Plain) :
    parse predicate.text = .ok predicate ↔ ¬ predicate.Misleads := by
  have named : Name predicate.name := by
    cases predicate <;> exact plain.1
  have filled : predicate.name.toList.isEmpty = false := by
    simpa using named.filled
  have own : readOperand (String.ofList predicate.name.toList) predicate.negates
      predicate.operand = some predicate := by
    rw [String.ofList_toList]
    exact read_operand_own plain
  have parsed : parse predicate.text = .ok predicate ↔
      read? predicate.text.toList = some predicate := by
    unfold parse
    cases read? predicate.text.toList <;> simp
  rw [parsed]
  cases negated : predicate.negates with
  | true =>
      have affirmed : ¬ predicate.Misleads := by
        cases predicate with
        | equal | oneOf => exact nomatch negated
        | notEqual | noneOf => exact id
      have cut : cutAt negation predicate.text.toList =
          some (predicate.name.toList, predicate.operand) := by
        rw [text_letters, sign, negated]
        exact cut_at_append named.affirmed _ _
      rw [negated] at own
      simp only [read_negated cut, filled, own, affirmed, Bool.false_eq_true, if_false,
        not_false_eq_true]
  | false =>
      rw [← holds_negation_iff plain negated]
      constructor
      · intro read holds
        rw [negates_of_holding holds read] at negated
        exact nomatch negated
      · intro affirmed
        have whole := (cut_at_eq_none_iff (by decide) _).mpr affirmed
        have cut : cutAt ['='] predicate.text.toList =
            some (predicate.name.toList, predicate.operand) := by
          rw [text_letters, sign, negated]
          exact cut_at_append named.unsigned _ _
        rw [negated] at own
        simp only [read_affirmed whole cut, filled, own, Bool.false_eq_true, if_false]

/-- Values full of signs, which stand in no way for the sign of a negation. -/
def busy : Predicate := oneOf "zone" ["wow!", "=x", "(a)=b", "c ) d"]

theorem parse_busy :
    busy.Plain ∧ ¬ busy.Misleads ∧ parse busy.text = .ok busy := by
  have plain : busy.Plain := by decide +kernel
  have affirmed : ¬ busy.Misleads := by decide +kernel
  exact ⟨plain, affirmed, (parse_text_iff plain).mpr affirmed⟩

/-- A label can have a value by which no text asks for it: the text that should is read as a
question about the absence of another label. -/
theorem equality_read_as_negation :
    (equal "region" "a!=b").Plain ∧ (equal "region" "a!=b").text = "region=a!=b" ∧
      checkLabels (SortedMap.ofList [("region", "a!=b")]) = .ok () ∧
      parse "region=a!=b" = .ok (notEqual "region=a" "b") :=
  ⟨by decide +kernel, by decide +kernel, rfl, rfl⟩

end Predicate

end Chronicle

import Chronicle.Format

/-!
Formats under a bound on size. A length is a number of eight bytes, so a value can be read
back only if none of its parts is longer than such a number tells. The bytes of a part are
among the bytes of the whole: a bound on the whole is all that has to be asked for.
-/

namespace Chronicle

namespace Format

variable {α β : Type}

/-- That a value is read back if its bytes are not more than a length can tell. -/
def KeepsShort (format : Format α) (value : α) : Prop :=
  (format.write value).length < UInt64.size → format.Keeps value

def Filled (format : Format α) : Prop := ∀ value, format.write value ≠ []

theorem short_of_keeps {format : Format α} {value : α} (kept : format.Keeps value) :
    format.KeepsShort value := by
  intro _
  exact kept

theorem filled_number (width : Nat) : (number (width + 1)).Filled := by
  intro value
  simp [number, Bytes.ofNumber]

theorem filled_via {format : Format α} (filled : format.Filled) (pack : α → β)
    (unpack : β → α) : (format.via pack unpack).Filled := by
  intro value
  exact filled (unpack value)

theorem filled_both {left : Format α} (filled : left.Filled) (right : Format β) :
    (both left right).Filled := by
  intro pair
  simp [both, filled pair.1]

theorem filled_word : word.Filled := filled_via (filled_number 7) _ _

theorem filled_byte : byte.Filled := filled_via (filled_number 0) _ _

theorem filled_text : text.Filled := by
  intro value
  have length : count.write (Text.Utf8.encode value).length ≠ [] := filled_number 7 _
  simp [text, length]

/-- There are no more values than bytes. -/
theorem length_le_bytes {format : Format α} (filled : format.Filled) (values : List α) :
    values.length ≤ (values.flatMap format.write).length := by
  induction values with
  | nil => simp
  | cons value values ih =>
      have some := List.length_pos_iff.mpr (filled value)
      simp only [List.length_cons, List.flatMap_cons, List.length_append]
      omega

theorem via_short {format : Format α} {pack : α → β} {unpack : β → α} {value : β}
    (inner : format.KeepsShort (unpack value)) (inverse : pack (unpack value) = value) :
    (format.via pack unpack).KeepsShort value := by
  intro fits
  exact via_keeps (inner fits) inverse

theorem both_short {left : Format α} {right : Format β} {first : α} {second : β}
    (firstShort : left.KeepsShort first) (secondShort : right.KeepsShort second) :
    (both left right).KeepsShort (first, second) := by
  intro fits
  simp only [both, List.length_append] at fits
  apply both_keeps
  · exact firstShort (by omega)
  · exact secondShort (by omega)

theorem option_short {format : Format α} {value : Option α}
    (inner : ∀ held, value = some held → format.KeepsShort held) :
    (option format).KeepsShort value := by
  intro fits
  apply option_keeps
  intro held present
  subst present
  simp only [option, List.length_cons] at fits
  exact inner held rfl (by omega)

theorem length_le_of_mem (format : Format α) {values : List α} {value : α}
    (member : value ∈ values) :
    (format.write value).length ≤ (values.flatMap format.write).length := by
  induction values with
  | nil => simp at member
  | cons head values ih =>
      rw [List.flatMap_cons, List.length_append]
      rcases List.mem_cons.mp member with rfl | later
      · omega
      · have bound := ih later
        omega

theorem list_short {format : Format α} (filled : format.Filled) {values : List α}
    (inner : ∀ value ∈ values, format.KeepsShort value) : (list format).KeepsShort values := by
  intro fits
  simp only [list, List.length_append] at fits
  apply list_keeps
  · -- there is a byte at least for each value
    have count := length_le_bytes filled values
    omega
  · intro value member
    have part := length_le_of_mem format member
    exact inner value member (by omega)

theorem map_short [Ord α] [Std.TransOrd α] [Std.LawfulEqOrd α] {key : Format α}
    {value : Format β} (filled : key.Filled) {bindings : SortedMap α β}
    (inner : ∀ entry ∈ bindings.entries,
      key.KeepsShort entry.1 ∧ value.KeepsShort entry.2) :
    (map key value).KeepsShort bindings := by
  apply via_short
  · apply list_short (filled_both filled value)
    intro entry member
    exact both_short (inner entry member).1 (inner entry member).2
  · exact SortedMap.ofList_entries bindings

theorem text_short (value : String) : text.KeepsShort value := by
  intro fits
  simp only [text, List.length_append] at fits
  exact text_keeps (by omega)

end Format

end Chronicle

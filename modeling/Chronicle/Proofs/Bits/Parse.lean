import Chronicle.Proofs.Bits.Field

/-!
Reading that knows its own end. Most of what reads a stream of bits asks for one field after
the other, and how far it goes is decided by the bits that it has read. So whatever is read is
read alike in front of anything else, and a stream that breaks off before its end is never
taken for a whole one. Both are kept when one reading follows another.
-/

namespace Chronicle

namespace BitStream

variable {α β : Type}

abbrev Parse (α : Type) := BitStream → Except Error (α × BitStream)

def Parse.andThen (first : Parse α) (second : α → Parse β) : Parse β := fun stream =>
  first stream >>= fun (result, rest) => second result rest

/-- That bits are all that is read for a result, whatever stands behind them, and that they
are missed if the stream breaks off among them. -/
structure Delimits (parse : Parse α) (used : BitStream) (result : α) : Prop where
  onto : ∀ rest, parse (used ++ rest) = .ok (result, rest)
  short : ∀ front, front <+: used → front ≠ used →
    parse front = .error (.damaged .bitStreamTruncated)

/-- That a parse always knows where it ends, and refuses nothing but damage. -/
structure Delimited (parse : Parse α) : Prop where
  reads : ∀ {stream result rest}, parse stream = .ok (result, rest) →
    ∃ used, stream = used ++ rest ∧ Delimits parse used result
  damaged : ∀ {stream reason}, parse stream = .error reason → ∃ damage, reason = .damaged damage

section Bind

variable {first : Parse α} {second : α → Parse β} {stream rest : BitStream}

theorem and_then_ok {result : α} (read : first stream = .ok (result, rest)) :
    first.andThen second stream = second result rest := by
  rw [Parse.andThen, read]
  rfl

theorem and_then_error {reason : Error} (refused : first stream = .error reason) :
    first.andThen second stream = .error reason := by
  rw [Parse.andThen, refused]
  rfl

theorem exists_of_and_then {final : β} (read : first.andThen second stream = .ok (final, rest)) :
    ∃ result middle, first stream = .ok (result, middle) ∧
      second result middle = .ok (final, rest) := by
  cases parsed : first stream with
  | error reason => exact nomatch (and_then_error parsed).symm.trans read
  | ok found => exact ⟨found.1, found.2, rfl, (and_then_ok parsed).symm.trans read⟩

theorem Delimits.andThen {used more : BitStream} {result : α} {final : β}
    (front : Delimits first used result) (back : Delimits (second result) more final) :
    Delimits (first.andThen second) (used ++ more) final where
  onto rest := by
    rw [List.append_assoc, and_then_ok (front.onto (more ++ rest)), back.onto]
  short part within incomplete := by
    by_cases early : part.length < used.length
    · have inside : part <+: used :=
        List.prefix_of_prefix_length_le within (List.prefix_append used more) (Nat.le_of_lt early)
      have other : part ≠ used := fun same => absurd (congrArg List.length same) (by omega)
      exact and_then_error (front.short part inside other)
    · have behind : used <+: part :=
        List.prefix_of_prefix_length_le (List.prefix_append used more) within (by omega)
      obtain ⟨tail, rfl⟩ := behind
      rw [and_then_ok (front.onto tail)]
      apply back.short tail ((List.prefix_append_right_inj used).mp within)
      exact fun same => incomplete (congrArg (used ++ ·) same)

theorem Delimited.andThen (front : Delimited first) (back : ∀ result, Delimited (second result)) :
    Delimited (first.andThen second) where
  reads {stream final rest} read := by
    obtain ⟨result, middle, parsed, behind⟩ := exists_of_and_then read
    obtain ⟨used, rfl, fore⟩ := front.reads parsed
    obtain ⟨more, rfl, hind⟩ := (back result).reads behind
    exact ⟨used ++ more, (List.append_assoc _ _ _).symm, fore.andThen hind⟩
  damaged {stream reason} refused := by
    cases parsed : first stream with
    | error cause =>
        rw [and_then_error parsed] at refused
        exact Except.error.inj refused ▸ front.damaged parsed
    | ok found => exact (back found.1).damaged ((and_then_ok parsed).symm.trans refused)

theorem Delimited.ite {condition : Prop} [Decidable condition] {yes no : Parse α}
    (held : Delimited yes) (failed : Delimited no) : Delimited (if condition then yes else no) := by
  split
  · exact held
  · exact failed

end Bind

theorem delimited_ok (result : α) : Delimited fun stream => .ok (result, stream) where
  reads {stream found rest} read := by
    obtain ⟨rfl, rfl⟩ := Prod.mk.inj (Except.ok.inj read)
    exact ⟨[], rfl, fun _ => rfl, fun _ within other => absurd (List.prefix_nil.mp within) other⟩
  damaged := nofun

theorem delimited_damaged (damage : Damage) :
    Delimited fun _ => (.error (.damaged damage) : Except Error (α × BitStream)) where
  reads := nofun
  damaged refused := ⟨damage, (Except.error.inj refused).symm⟩

theorem delimited_bit : Delimited readBit where
  reads {stream bit rest} read := by
    cases stream with
    | nil => exact nomatch read
    | cons head tail =>
        obtain ⟨rfl, rfl⟩ := Prod.mk.inj (Except.ok.inj read)
        refine ⟨[head], rfl, fun _ => rfl, ?_⟩
        intro front within other
        cases front with
        | nil => rfl
        | cons first later =>
            obtain ⟨rfl, none⟩ := List.cons_prefix_cons.mp within
            exact absurd (congrArg (List.cons first) (List.prefix_nil.mp none)) other
  damaged {stream reason} refused := by
    cases stream with
    | nil => exact ⟨_, (Except.error.inj refused).symm⟩
    | cons head tail => exact nomatch refused

theorem delimited_onto (taken : UInt64) (width : Nat) : Delimited (readOnto taken width) := by
  induction width generalizing taken with
  | zero => exact delimited_ok taken
  | succ width ih =>
      have parts : readOnto taken (width + 1) = Parse.andThen readBit fun bit =>
          readOnto (taken <<< 1 ||| (if bit then 1 else 0)) width := by
        funext stream
        cases stream <;> rfl
      rw [parts]
      exact delimited_bit.andThen fun bit => ih _

theorem delimited_field (width : Nat) : Delimited (readField width) := delimited_onto 0 width

end BitStream

end Chronicle

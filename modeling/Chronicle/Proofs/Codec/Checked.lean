import Chronicle.Proofs.Bits.Reader
import Chronicle.Proofs.Codec.Parts
import Chronicle.Proofs.Codec.RoundTrip

/-!
Decoding in steps that are looked at, in step with the stream. From bytes of any origin such a
decoder does what the decoder of streams does: it never comes to a step without a result, it
reads no further than the bytes go, and it uses no window but one that lies in a word.
-/

namespace Chronicle

/-- That a window lies in a word and has room for a bit. -/
def WindowState.Usable (window : WindowState) : Prop :=
  1 ≤ window.width.toNat ∧ window.width.toNat ≤ 64 ∧
    window.leading.toNat + window.width.toNat + window.trailing.toNat = 64

structure Progress.Safe (bytes : List UInt8) (progress : Progress) : Prop where
  whole : progress.reader.bytes = bytes
  within : progress.reader.position ≤ 8 * bytes.length
  usable : ∀ window ∈ progress.windows, window.Usable

namespace Decoding

open BitStream

variable {α β : Type}

/-- That a decoding came out as a parse did, left the same bits unread and was safe. -/
structure InStep (bytes : List UInt8) (parsed : Except Error (α × BitStream))
    (outcome : Except Halt α × Progress) : Prop where
  same : outcome.1 = (parsed.map Prod.fst).mapError .refused
  rest : ∀ found, parsed = .ok found → outcome.2.reader.left = found.2
  safe : outcome.2.Safe bytes

/-- That a decoding does, wherever it starts, what a parse does with the bits left there. -/
def Follows (decoding : Decoding α) (parse : Parse α) : Prop :=
  ∀ (bytes : List UInt8) (progress : Progress), progress.Safe bytes →
    InStep bytes (parse progress.reader.left) (decoding.perform progress)

theorem perform_bind (first : Decoding α) (next : α → Decoding β) (progress : Progress) :
    (first >>= next).perform progress = match first.perform progress with
      | (.ok answer, after) => (next answer).perform after
      | (.error halt, after) => (.error halt, after) := by
  simp only [perform, ExceptT.run_bind, StateT.run_bind]
  cases (ExceptT.run first).run progress with
  | mk result after => cases result <;> rfl

theorem perform_bind_ok {first : Decoding α} {next : α → Decoding β} {progress after : Progress}
    {answer : α} (done : first.perform progress = (.ok answer, after)) :
    (first >>= next).perform progress = (next answer).perform after := by
  rw [perform_bind, done]

theorem follows_pure (result : α) :
    Follows (pure result) fun rest => .ok (result, rest) := by
  intro bytes progress safe
  exact ⟨rfl, fun found same => congrArg Prod.snd (Except.ok.inj same), safe⟩

theorem follows_refuse (damage : Damage) :
    Follows (refuse damage : Decoding α) fun _ => .error (.damaged damage) := by
  intro bytes progress safe
  exact ⟨rfl, nofun, safe⟩

theorem follows_defined {inRange : Prop} [Decidable inRange] (held : inRange)
    {later : Decoding α} {parse : Parse α} (follows : Follows later parse) :
    Follows (do defined inRange; later) parse := by
  intro bytes progress safe
  have passed : (defined inRange).perform progress = (.ok (), progress) := by
    rw [defined, if_pos held]
    rfl
  rw [perform_bind_ok passed]
  exact follows bytes progress safe

theorem follows_use {window : WindowState} (usable : window.Usable) {later : Decoding α}
    {parse : Parse α} (follows : Follows later parse) :
    Follows (do use window; later) parse := by
  intro bytes progress safe
  have noted : (use window).perform progress =
      (.ok (), { progress with windows := window :: progress.windows }) := rfl
  rw [perform_bind_ok noted]
  have kept : Progress.Safe bytes { progress with windows := window :: progress.windows } :=
    ⟨safe.whole, safe.within, List.forall_mem_cons.mpr ⟨usable, safe.usable⟩⟩
  exact follows bytes _ kept

theorem follows_ite {condition : Prop} [Decidable condition] {yes no : Decoding α}
    {accept refuse : Parse α} (held : condition → Follows yes accept)
    (failed : ¬condition → Follows no refuse) :
    Follows (if condition then yes else no) (if condition then accept else refuse) := by
  split
  · exact held ‹_›
  · exact failed ‹_›

/-- A decoding in two steps follows a parse in two steps. The second one may rely on what the
first has read. -/
theorem follows_bind {first : Decoding α} {next : α → Decoding β} {parse : Parse α}
    {later : α → Parse β} (front : Follows first parse)
    (back : ∀ result, (∃ stream rest, parse stream = .ok (result, rest)) →
      Follows (next result) (later result)) :
    Follows (first >>= next) (parse.andThen later) := by
  intro bytes progress safe
  obtain ⟨same, rest, kept⟩ := front bytes progress safe
  rw [perform_bind]
  generalize first.perform progress = outcome at same rest kept
  obtain ⟨answer, after⟩ := outcome
  cases parsed : parse progress.reader.left with
  | error reason =>
      rw [parsed] at same
      obtain rfl : answer = .error (.refused reason) := same
      rw [and_then_error parsed]
      exact ⟨rfl, nofun, kept⟩
  | ok found =>
      obtain ⟨result, unread⟩ := found
      rw [parsed] at same
      obtain rfl : answer = .ok result := same
      rw [and_then_ok parsed, ← show after.reader.left = unread from rest _ parsed]
      exact back result ⟨_, _, parsed⟩ bytes after kept

theorem follows_read {step : BitReader → Except Error α × BitReader} {parse : Parse α}
    (width : Nat) (same : ∀ reader, (step reader).1 = (parse reader.left).map Prod.fst)
    (moved : ∀ reader, (step reader).2 = reader.advance (min width reader.left.length))
    (taken : ∀ stream found, parse stream = .ok found →
      width ≤ stream.length ∧ found.2 = stream.drop width) :
    Follows (read step) parse := by
  intro bytes progress safe
  have done : (read step).perform progress = ((step progress.reader).1.mapError .refused,
      { progress with reader := (step progress.reader).2 }) := rfl
  have room := progress.reader.length_left
  have within := safe.within
  rw [safe.whole] at room
  rw [done, same, moved]
  refine ⟨rfl, ?_, safe.whole, ?_, safe.usable⟩
  · intro found parsed
    obtain ⟨enough, rest⟩ := taken _ found parsed
    rw [rest, Nat.min_eq_left enough, BitReader.left_advance]
  · simp only [BitReader.advance]
    omega

theorem follows_bit : Follows bit readBit := by
  apply follows_read 1 (fun reader => (reader.read_bit_eq).1) fun reader => (reader.read_bit_eq).2
  intro stream found read
  cases stream with
  | nil => exact nomatch read
  | cons one rest =>
      obtain rfl := Except.ok.inj read
      exact ⟨Nat.succ_le_succ (Nat.zero_le _), rfl⟩

theorem follows_field (width : Nat) : Follows (field width) (readField width) := by
  apply follows_read width (fun reader => (reader.read_field_eq width).1)
    fun reader => (reader.read_field_eq width).2
  intro stream found read
  by_cases enough : width ≤ stream.length
  · obtain ⟨value, whole⟩ := read_onto_rest 0 width stream enough
    rw [readField, whole] at read
    exact ⟨enough, congrArg Prod.snd (Except.ok.inj read).symm⟩
  · have short := read_onto_short 0 width stream (Nat.lt_of_not_le enough)
    cases short.symm.trans read

theorem follows_ones (limit : Nat) : Follows (ones limit) (DeltaState.readOnes limit) := by
  induction limit with
  | zero => exact follows_pure 0
  | succ limit ih =>
      rw [DeltaState.ones_parts, ones]
      apply follows_bind follows_bit
      intro one _
      apply follows_ite
      · intro _
        exact follows_bind ih fun ones _ => follows_pure (ones + 1)
      · intro _
        exact follows_pure 0

theorem follows_timestamp (state : DeltaState) : Follows (timestamp state) state.decode := by
  rw [DeltaState.decode_parts, timestamp]
  apply follows_bind (follows_ones 4)
  intro ones _
  apply follows_bind (follows_field _)
  intro change _
  exact follows_pure _

/-- Two fields of six bits that are allowed make a window of which no part has been cut off by
the narrower words. -/
theorem announced_parts {leading wide : UInt64}
    (room : leading.toNat + (wide.toNat + 1) ≤ 64) :
    leading.toUInt8.toNat = leading.toNat ∧ (wide + 1).toUInt8.toNat = wide.toNat + 1 ∧
      (64 - leading - (wide + 1)).toUInt8.toNat = 64 - leading.toNat - (wide.toNat + 1) := by
  have above : (64 - leading).toNat = 64 - leading.toNat := by
    apply UInt64.toNat_sub_of_le
    rw [UInt64.le_iff_toNat_le]
    exact Nat.le_trans (Nat.le_add_right _ _) room
  have width : (wide + 1).toNat = wide.toNat + 1 := by
    rw [UInt64.toNat_add, UInt64.toNat_one]
    omega
  have below : (64 - leading - (wide + 1)).toNat = 64 - leading.toNat - (wide.toNat + 1) := by
    rw [UInt64.toNat_sub_of_le _ _ (by rw [UInt64.le_iff_toNat_le]; omega), above, width]
  simp only [UInt64.toNat_toUInt8, width, below]
  omega

theorem announced_wide {leading wide : UInt64} (above : leading.toNat < 2 ^ 6)
    (below : wide.toNat < 2 ^ 6) :
    leading + (wide + 1) > 64 ↔ 64 < leading.toNat + (wide.toNat + 1) := by
  have sum : (leading + (wide + 1)).toNat = leading.toNat + (wide.toNat + 1) := by
    rw [UInt64.toNat_add, UInt64.toNat_add, UInt64.toNat_one]
    omega
  rw [gt_iff_lt, UInt64.lt_iff_toNat_lt, sum]
  rfl

/-- Fields of six bits are added, compared and subtracted in words of eight and sixteen bits as
they are in the words that they were read into. -/
theorem follows_announce (state : WindowState) {leading wide : UInt64}
    (above : leading.toNat < 2 ^ 6) (below : wide.toNat < 2 ^ 6) :
    Follows (announce state leading.toUInt8 wide.toUInt8) (state.announced leading wide) := by
  have front : leading.toUInt8.toNat = leading.toNat := by
    rw [UInt64.toNat_toUInt8]
    omega
  have back : wide.toUInt8.toNat = wide.toNat := by
    rw [UInt64.toNat_toUInt8]
    omega
  have width : (wide.toUInt8 + 1).toNat = wide.toNat + 1 := by
    rw [UInt8.toNat_add, back, UInt8.toNat_one]
    omega
  have narrow : leading.toUInt8.toUInt16 + (wide.toUInt8 + 1).toUInt16 > 64 ↔
      64 < leading.toNat + (wide.toNat + 1) := by
    rw [gt_iff_lt, UInt16.lt_iff_toNat_lt, UInt16.toNat_add, UInt8.toNat_toUInt16,
      UInt8.toNat_toUInt16, front, width, Nat.mod_eq_of_lt (by omega)]
    rfl
  have next : wide.toUInt8.toNat + 1 < UInt8.size := by
    rw [back, UInt8.size]
    omega
  unfold announce WindowState.announced
  apply follows_defined next
  by_cases outside : 64 < leading.toNat + (wide.toNat + 1)
  · simp only [if_pos (narrow.mpr outside), if_pos ((announced_wide above below).mpr outside)]
    exact follows_refuse _
  · obtain ⟨_, wider, trailing⟩ := announced_parts (Nat.not_lt.mp outside)
    have inside : leading.toUInt8 ≤ 64 := by
      rw [UInt8.le_iff_toNat_le, front]
      exact Nat.le_trans (Nat.le_add_right _ _) (Nat.not_lt.mp outside)
    have within : (64 - leading.toUInt8).toNat = 64 - leading.toNat := by
      rw [UInt8.toNat_sub_of_le _ _ inside, front]
      rfl
    have rest : 64 - leading.toUInt8 - (wide.toUInt8 + 1) =
        (64 - leading - (wide + 1)).toUInt8 := by
      apply UInt8.toNat_inj.mp
      rw [UInt8.toNat_sub_of_le _ _ (by rw [UInt8.le_iff_toNat_le]; omega), within, width, trailing]
    have same : wide.toUInt8 + 1 = (wide + 1).toUInt8 :=
      UInt8.toNat_inj.mp (width.trans wider.symm)
    have fits : ¬leading + (wide + 1) > 64 :=
      fun wider => outside ((announced_wide above below).mp wider)
    simp only [if_neg fun wider => outside (narrow.mp wider), if_neg fits]
    apply follows_defined (by omega)
    apply follows_defined (by omega)
    rw [rest, same]
    exact follows_pure _

theorem follows_window (state : WindowState) : Follows (window state) state.readWindow := by
  rw [WindowState.window_parts, window]
  apply follows_bind (follows_field 6)
  rintro leading ⟨_, _, first⟩
  apply follows_bind (follows_field 6)
  rintro wide ⟨_, _, second⟩
  exact follows_announce state (read_field_lt (by decide) first) (read_field_lt (by decide) second)

theorem follows_difference {state : WindowState} (usable : state.Usable) :
    Follows (difference state) state.readDifference := by
  rw [WindowState.difference_parts, difference]
  obtain ⟨positive, narrow, full⟩ := usable
  apply follows_use ⟨positive, narrow, full⟩
  apply follows_bind (follows_field _)
  intro inside _
  apply follows_defined (by omega)
  exact follows_pure _

theorem usable_window {state found : WindowState} {stream rest : BitStream}
    (read : state.readWindow stream = .ok (found, rest)) : found.Usable := by
  rw [WindowState.window_parts] at read
  obtain ⟨leading, middle, first, read⟩ := exists_of_and_then read
  obtain ⟨wide, behind, second, read⟩ := exists_of_and_then read
  have above := read_field_lt (by decide) first
  have below := read_field_lt (by decide) second
  unfold WindowState.announced at read
  split at read
  · exact nomatch read
  · rename_i allowed
    rw [announced_wide above below, Nat.not_lt] at allowed
    obtain ⟨front, width, trailing⟩ := announced_parts allowed
    obtain ⟨rfl, _⟩ := Prod.mk.inj (Except.ok.inj read)
    dsimp only [WindowState.Usable]
    omega

theorem usable_of_inside {state : WindowState} (inside : state.Inside) (set : state.width ≠ 0) :
    state.Usable := by
  have full := inside.resolve_left set
  have positive : state.width.toNat ≠ 0 := fun zero => set (UInt8.toNat_inj.mp zero)
  rw [WindowState.Usable]
  omega

theorem follows_value {state : WindowState} (inside : state.Inside) :
    Follows (value state) state.decode := by
  rw [WindowState.decode_parts, value]
  apply follows_bind follows_bit
  intro changed _
  apply follows_ite
  · intro _
    apply follows_bind follows_bit
    intro fresh _
    apply follows_ite
    · intro _
      apply follows_bind (follows_window state)
      rintro found ⟨_, _, announced⟩
      exact follows_difference (usable_window announced)
    · intro _
      apply follows_ite
      · intro _
        exact follows_refuse _
      · intro set
        exact follows_difference (usable_of_inside inside set)
  · intro _
    exact follows_pure state

/-- A difference is read inside a window and leaves it in force. -/
theorem usable_difference {state found : WindowState} (usable : state.Usable)
    {stream rest : BitStream} (read : state.readDifference stream = .ok (found, rest)) :
    found.Usable := by
  rw [WindowState.difference_parts] at read
  obtain ⟨inside, middle, _, read⟩ := exists_of_and_then read
  obtain ⟨rfl, _⟩ := Prod.mk.inj (Except.ok.inj read)
  exact usable

theorem inside_decode {state found : WindowState} {stream rest : BitStream}
    (inside : state.Inside) (read : state.decode stream = .ok (found, rest)) : found.Inside := by
  rw [WindowState.decode_parts] at read
  obtain ⟨changed, _, _, read⟩ := exists_of_and_then read
  split at read
  · obtain ⟨fresh, _, _, read⟩ := exists_of_and_then read
    split at read
    · obtain ⟨window, _, announced, read⟩ := exists_of_and_then read
      exact Or.inr (usable_difference (usable_window announced) read).2.2
    · split at read
      · exact nomatch read
      · rename_i set
        exact Or.inr (usable_difference (usable_of_inside inside set) read).2.2
  · obtain ⟨rfl, _⟩ := Prod.mk.inj (Except.ok.inj read)
    exact inside

end Decoding

end Chronicle

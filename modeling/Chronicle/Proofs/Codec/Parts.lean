import Chronicle.Chunk.Compressed
import Chronicle.Proofs.Bits.Parse

/-!
Decoders in parts. Each of them reads fields one after the other, and goes by what it has read
so far. Taken apart in this way they know where they end, and what they refuse is damage.
-/

namespace Chronicle

open BitStream

namespace DeltaState

theorem ones_parts (limit : Nat) : readOnes (limit + 1) = Parse.andThen readBit fun one =>
    if one then Parse.andThen (readOnes limit) fun ones rest => .ok (ones + 1, rest)
    else fun rest => .ok (0, rest) := by
  funext stream
  cases stream with
  | nil => rfl
  | cons one rest =>
      cases one with
      | false => rfl
      | true =>
          rw [readOnes, and_then_ok rfl, if_pos rfl, Parse.andThen]
          cases readOnes limit rest <;> rfl

theorem decode_parts (state : DeltaState) : state.decode = Parse.andThen (readOnes 4) fun ones =>
    Parse.andThen (readField (changeWidth ones)) fun change rest =>
      .ok (state.previous + (state.step + unzigzag change), rest) := rfl

theorem delimited_ones (limit : Nat) : Delimited (readOnes limit) := by
  induction limit with
  | zero => exact delimited_ok 0
  | succ limit ih =>
      rw [ones_parts]
      apply delimited_bit.andThen
      intro one
      apply Delimited.ite
      · exact ih.andThen fun ones => delimited_ok (ones + 1)
      · exact delimited_ok 0

theorem delimited_decode (state : DeltaState) : Delimited state.decode := by
  rw [decode_parts]
  apply (delimited_ones 4).andThen
  intro ones
  apply (delimited_field _).andThen
  intro change
  exact delimited_ok _

end DeltaState

namespace WindowState

def announced (state : WindowState) (leading wide : UInt64) : Parse WindowState :=
  if leading + (wide + 1) > 64 then fun _ => .error (.damaged .bitWidths)
  else fun rest =>
    .ok ({ state with
      leading := leading.toUInt8
      trailing := (64 - leading - (wide + 1)).toUInt8
      width := (wide + 1).toUInt8 }, rest)

theorem window_parts (state : WindowState) :
    state.readWindow = Parse.andThen (readField 6) fun leading =>
      Parse.andThen (readField 6) fun wide => state.announced leading wide := by
  funext stream
  cases first : readField 6 stream with
  | error reason => rw [and_then_error first, readWindow, first]; rfl
  | ok found =>
      obtain ⟨leading, middle⟩ := found
      rw [and_then_ok first, readWindow, first]
      cases second : readField 6 middle with
      | error reason => rw [and_then_error second]; simp only [bind, Except.bind, second]
      | ok found =>
          obtain ⟨wide, rest⟩ := found
          rw [and_then_ok second, announced]
          simp only [bind, Except.bind, second]
          split <;> rfl

theorem difference_parts (state : WindowState) :
    state.readDifference = Parse.andThen (readField state.width.toNat) fun inside rest =>
      .ok ({ state with
        previous := state.previous ^^^ (inside <<< state.trailing.toUInt64) }, rest) := rfl

theorem decode_parts (state : WindowState) :
    state.decode = Parse.andThen readBit fun changed =>
      if changed then Parse.andThen readBit fun fresh =>
        if fresh then Parse.andThen state.readWindow readDifference
        else if state.width = 0 then fun _ => .error (.damaged .windowReusedTooEarly)
        else state.readDifference
      else fun rest => .ok (state, rest) := by
  funext stream
  match stream with
  | [] => rfl
  | false :: _ => rfl
  | [true] => rfl
  | true :: true :: _ => rfl
  | true :: false :: rest =>
      by_cases unset : state.width = 0
      · simp [decode, Parse.andThen, readBit, bind, Except.bind, unset]
      · simp [decode, Parse.andThen, readBit, bind, Except.bind, unset]

theorem delimited_window (state : WindowState) : Delimited state.readWindow := by
  rw [window_parts]
  apply (delimited_field 6).andThen
  intro leading
  apply (delimited_field 6).andThen
  intro wide
  exact (delimited_damaged _).ite (delimited_ok _)

theorem delimited_difference (state : WindowState) : Delimited state.readDifference := by
  rw [difference_parts]
  apply (delimited_field _).andThen
  intro inside
  exact delimited_ok _

theorem delimited_decode (state : WindowState) : Delimited state.decode := by
  rw [decode_parts]
  apply delimited_bit.andThen
  intro changed
  apply Delimited.ite
  · apply delimited_bit.andThen
    intro fresh
    apply Delimited.ite
    · exact (delimited_window state).andThen delimited_difference
    · exact (delimited_damaged _).ite (delimited_difference state)
  · exact delimited_ok state

end WindowState

namespace CompressedChunk

theorem decode_from_parts (timestamps : DeltaState) (values : WindowState) (count : Nat) :
    decodeFrom timestamps values (count + 1) =
      Parse.andThen timestamps.decode fun timestamp =>
        Parse.andThen values.decode fun found =>
          Parse.andThen (decodeFrom (timestamps.advance timestamp) found count) fun later rest =>
            .ok (⟨timestamp, found.value⟩ :: later, rest) := rfl

theorem delimited_from (timestamps : DeltaState) (values : WindowState) (count : Nat) :
    Delimited (decodeFrom timestamps values count) := by
  induction count generalizing timestamps values with
  | zero => exact delimited_ok []
  | succ count ih =>
      rw [decode_from_parts]
      apply timestamps.delimited_decode.andThen
      intro timestamp
      apply values.delimited_decode.andThen
      intro found
      apply (ih _ found).andThen
      intro later
      exact delimited_ok _

end CompressedChunk

end Chronicle

import Chronicle.Proofs.Bits.Inverse
import Chronicle.Proofs.Chunk.RoundTrip
import Chronicle.Proofs.Codec.Checked

/-!
Runs of samples decoded from bytes of any origin. From the bytes of a run the decoder takes all
that it needs and nothing else, so that more bytes behind them do no harm and one byte less is
noticed. From any other bytes it gets as many samples as it was asked for, or finds damage.
-/

namespace Chronicle

namespace Decoding

open BitStream

theorem follows_samples (timestamps : DeltaState) {values : WindowState} (inside : values.Inside)
    (count : Nat) :
    Follows (samples timestamps values count)
      (CompressedChunk.decodeFrom timestamps values count) := by
  induction count generalizing timestamps values with
  | zero => exact follows_pure []
  | succ count ih =>
      rw [CompressedChunk.decode_from_parts, samples]
      apply follows_bind (follows_timestamp timestamps)
      intro timestamp _
      apply follows_bind (follows_value inside)
      rintro found ⟨_, _, read⟩
      apply follows_bind (ih _ (inside_decode inside read))
      intro later _
      exact follows_pure _

end Decoding

namespace CompressedChunk

open BitStream

def whole (first : Sample) (count : Nat) : Parse (List Sample) :=
  Parse.andThen (decodeFrom (.start first.timestamp) (.start first.value) (count - 1))
    fun later rest => .ok (first :: later, rest)

theorem decode_eq (first : Sample) (count : Nat) (stream : BitStream) :
    decode first count stream = (whole first count stream).map Prod.fst := by
  rw [decode, whole]
  cases read : decodeFrom (.start first.timestamp) (.start first.value) (count - 1) stream with
  | error reason => rw [and_then_error read]; rfl
  | ok found => rw [and_then_ok read]; rfl

theorem delimited_whole (first : Sample) (count : Nat) : Delimited (whole first count) :=
  (delimited_from _ _ _).andThen fun later => delimited_ok (first :: later)

theorem length_decode_from {timestamps : DeltaState} {values : WindowState} {count : Nat}
    {stream rest : BitStream} {samples : List Sample}
    (read : decodeFrom timestamps values count stream = .ok (samples, rest)) :
    samples.length = count := by
  induction count generalizing timestamps values stream samples rest with
  | zero => exact congrArg List.length (Prod.mk.inj (Except.ok.inj read)).1.symm
  | succ count ih =>
      rw [decode_from_parts] at read
      obtain ⟨timestamp, _, _, read⟩ := exists_of_and_then read
      obtain ⟨found, _, _, read⟩ := exists_of_and_then read
      obtain ⟨later, _, behind, read⟩ := exists_of_and_then read
      obtain ⟨rfl, _⟩ := Prod.mk.inj (Except.ok.inj read)
      rw [List.length_cons, ih behind]

theorem decode_outcome (first : Sample) (count : Nat) (stream : BitStream) :
    (∃ later, decode first count stream = .ok (first :: later) ∧
      (first :: later).length = max count 1) ∨
    ∃ damage, decode first count stream = .error (.damaged damage) := by
  rw [decode_eq]
  cases read : whole first count stream with
  | error reason =>
      obtain ⟨damage, rfl⟩ := (delimited_whole first count).damaged read
      exact Or.inr ⟨damage, rfl⟩
  | ok found =>
      obtain ⟨samples, rest⟩ := found
      obtain ⟨later, middle, behind, same⟩ := exists_of_and_then read
      obtain ⟨rfl, rfl⟩ := Prod.mk.inj (Except.ok.inj same)
      refine Or.inl ⟨later, rfl, ?_⟩
      rw [List.length_cons, length_decode_from behind]
      omega

theorem decode_checked (first : Sample) (count : Nat) (bytes : List UInt8) :
    (decodeChecked first count bytes).1 = (decodeBytes first count bytes).mapError .refused ∧
      (decodeChecked first count bytes).2.Safe bytes := by
  have follows := Decoding.follows_bind
    (Decoding.follows_samples (.start first.timestamp) (WindowState.inside_start first.value)
      (count - 1)) fun later _ => Decoding.follows_pure (first :: later)
  have begun : Progress.Safe bytes ⟨.ofBytes bytes, []⟩ := ⟨rfl, Nat.zero_le _, nofun⟩
  obtain ⟨same, _, safe⟩ := follows bytes _ begun
  rw [decodeBytes, decode_eq]
  exact ⟨same, safe⟩

theorem stream_of_bytes_append (bytes more : List UInt8) :
    (BitBuffer.ofBytes (bytes ++ more)).stream =
      (BitBuffer.ofBytes bytes).stream ++ (BitBuffer.ofBytes more).stream := by
  simp only [BitReader.stream_of_bytes, List.flatMap_append]

/-- What a run has written is all that is read for its samples. -/
theorem delimits_encode_from (first : Sample) (later : List Sample) :
    Delimits (whole first (later.length + 1))
      (encodeFrom (.start first.timestamp) (.start first.value) later) (first :: later) := by
  have decoded := decode_from_encode_from (.start first.timestamp) (.start first.value)
    (WindowState.inside_start first.value) later []
  have read : whole first (later.length + 1)
      (encodeFrom (.start first.timestamp) (.start first.value) later ++ []) =
        .ok (first :: later, []) := and_then_ok decoded
  obtain ⟨used, same, delimits⟩ := (delimited_whole first _).reads read
  rw [List.append_nil, List.append_nil] at same
  rwa [same]

/-- Fewer bytes than a row of bits was packed into end before it does. -/
theorem short_of_bytes {bits : BitStream} {bytes front : List UInt8} {padding : Nat}
    (few : padding < 8)
    (packed : (BitBuffer.ofBytes bytes).stream = bits ++ List.replicate padding false)
    (within : front <+: bytes) (other : front ≠ bytes) :
    (BitBuffer.ofBytes front).stream <+: bits ∧ (BitBuffer.ofBytes front).stream ≠ bits := by
  obtain ⟨tail, rfl⟩ := within
  have missing : 0 < tail.length := by
    apply List.length_pos_iff.mpr
    rintro rfl
    exact other (List.append_nil front).symm
  have length := congrArg List.length packed
  rw [stream_of_bytes_append, List.length_append, List.length_append, List.length_replicate,
    BitBuffer.stream_length (BitBuffer.ofBytes tail)] at length
  have bytes : (BitBuffer.ofBytes tail).byteLength = tail.length := rfl
  have shorter : (BitBuffer.ofBytes front).stream.length < bits.length := by omega
  constructor
  · have whole : (BitBuffer.ofBytes front).stream <+: bits ++ List.replicate padding false :=
      ⟨_, (stream_of_bytes_append front tail).symm.trans packed⟩
    exact List.prefix_of_prefix_length_le whole (List.prefix_append _ _) (Nat.le_of_lt shorter)
  · exact fun same => absurd (congrArg List.length same) (Nat.ne_of_lt shorter)

/-- A run is decoded from its bytes whatever stands behind them, and from no part of them. Of
any bytes the decoder makes as many samples as it is asked for, or finds damage; and so does the
one that looks at every step, without a step that has no result, a bit from behind the bytes or
a window that lies in no word. -/
theorem decoding_delimited_and_safe (first : Sample) :
    (∀ later : List Sample,
      let chunk := later.foldl push (ofSample first)
      let bytes := chunk.bits.bytes.toList
      chunk.samples = decodeBytes chunk.first chunk.count.shown bytes ∧
      (∀ more, decodeBytes chunk.first chunk.count.shown (bytes ++ more) = .ok (first :: later)) ∧
      ∀ front, front <+: bytes → front ≠ bytes →
        decodeBytes chunk.first chunk.count.shown front =
          .error (.damaged .bitStreamTruncated)) ∧
    ∀ count bytes,
      ((∃ later, decodeBytes first count bytes = .ok (first :: later) ∧
          (first :: later).length = max count 1) ∨
        ∃ damage, decodeBytes first count bytes = .error (.damaged damage)) ∧
      (decodeChecked first count bytes).1 = (decodeBytes first count bytes).mapError .refused ∧
      (decodeChecked first count bytes).2.reader.position ≤ 8 * bytes.length ∧
      ∀ window ∈ (decodeChecked first count bytes).2.windows,
        1 ≤ window.width.toNat ∧ window.width.toNat ≤ 64 ∧
          window.leading.toNat + window.width.toNat + window.trailing.toNat = 64 := by
  constructor
  · intro later chunk bytes
    obtain ⟨_, padding, few, stream⟩ :=
      holds_push_samples (ofSample first) later BitBuffer.holds_empty
    have packed := (BitBuffer.stream_bytes chunk.bits).trans stream
    have same : chunk.first = first := first_push_samples _ later
    have count : chunk.count.shown = later.length + 1 := count_of_samples first later
    have delimits := delimits_encode_from first later
    refine ⟨?_, ?_, ?_⟩
    · rw [decodeBytes, BitBuffer.stream_bytes, samples]
    · intro more
      rw [same, count, decodeBytes, decode_eq, stream_of_bytes_append, packed, List.nil_append,
        List.append_assoc]
      exact congrArg _ (delimits.onto _)
    · intro front within other
      obtain ⟨inside, part⟩ := short_of_bytes few packed within other
      rw [same, count, decodeBytes, decode_eq]
      exact congrArg _ (delimits.short _ inside part)
  · intro count bytes
    obtain ⟨checked, safe⟩ := decode_checked first count bytes
    exact ⟨decode_outcome first count _, checked, safe.within, safe.usable⟩

theorem decoding_delimited_and_safe_three :
    let first : Sample := ⟨10, ⟨0x3FF0000000000000⟩⟩
    let later : List Sample := [⟨20, ⟨0x3FF8000000000000⟩⟩, ⟨31, ⟨0x4000000000000000⟩⟩]
    let chunk := later.foldl push (ofSample first)
    let bytes := chunk.bits.bytes.toList
    bytes = [138, 102, 1, 129, 96, 151, 255, 224] ∧
      decodeBytes chunk.first chunk.count.shown bytes.dropLast =
        .error (.damaged .bitStreamTruncated) ∧
      ∃ window ∈ (decodeChecked first 3 bytes).2.windows, window.width = 12 ∧
        window.leading.toNat + window.width.toNat + window.trailing.toNat = 64 := by
  intro first later chunk bytes
  have written : bytes = [138, 102, 1, 129, 96, 151, 255, 224] := by decide +kernel
  refine ⟨written, ?_, ⟨0x3FF8000000000000, 1, 51, 12⟩, ?_, rfl, ?_⟩
  · exact ((decoding_delimited_and_safe first).1 _).2.2 _ (List.dropLast_prefix bytes)
      (by rw [written]; decide +kernel)
  · decide +kernel
  · exact ((decoding_delimited_and_safe first).2 3 bytes).2.2.2 _ (by decide +kernel) |>.2.2

end CompressedChunk

end Chronicle

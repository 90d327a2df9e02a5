import Chronicle.Proofs.Chunk.Run

/-!
How large chunks are. A sample adds at least two bits to a compressed run and, while the
window in force lies inside a word, at most 146: that bounds what one sample adds in bytes,
and the size of a run by its length and the length by its size.
-/

namespace Chronicle

namespace DeltaState

theorem encode_length (state : DeltaState) (timestamp : Timestamp) :
    1 ≤ (state.encode timestamp).length ∧ (state.encode timestamp).length ≤ 68 := by
  have sizes : ∀ ones ≤ 4, 1 ≤ (announce ones).length + changeWidth ones ∧
      (announce ones).length + changeWidth ones ≤ 68 := by decide
  have class_le := change_class_le (zigzag (timestamp - state.previous - state.step))
  simpa only [encode, List.length_append, BitStream.field_length] using sizes _ class_le

end DeltaState

namespace WindowState

/-- A value takes a flag of one bit, or of two followed by a field of the window in force,
or by the announcement of a new window and its field. -/
theorem encode_length (state : WindowState) (value : Value) :
    1 ≤ (state.encode value).length ∧
      (state.encode value).length ≤ 2 + max 76 state.width.toNat := by
  unfold encode
  dsimp only
  split
  · rw [List.length_singleton]
    omega
  split
  · simp only [List.length_cons, BitStream.word_field_length]
    omega
  · simp only [List.length_cons, List.length_append, BitStream.field_length]
    omega

theorem width_le_of_inside {state : WindowState} (inside : state.Inside) :
    state.width.toNat ≤ 64 := by
  rcases inside with none | full
  · simp [none]
  · omega

end WindowState

namespace BitBuffer

theorem byte_length_push_bit (buffer : BitBuffer) (bit : Bool) :
    (buffer.pushBit bit).byteLength = buffer.byteLength + if buffer.used = 0 then 1 else 0 := by
  unfold pushBit byteLength
  by_cases closed : buffer.used = 0
  · simp [closed, Trail.modifyLast, Trail.push]
  · simp [closed, Trail.modifyLast]

theorem used_push_bit (buffer : BitBuffer) (bit : Bool) :
    (buffer.pushBit bit).used.toNat = (buffer.used.toNat + 1) % 8 := by
  simp only [pushBit, UInt8.toNat_mod, UInt8.toNat_add, UInt8.reduceToNat]
  omega

/-- The bits that the last byte has free need no further byte. -/
theorem byte_length_push_all (buffer : BitBuffer) (stream : BitStream) :
    (buffer.pushAll stream).byteLength ≤
      buffer.byteLength + (stream.length + (buffer.used.toNat + 7) % 8) / 8 := by
  induction stream generalizing buffer with
  | nil => exact Nat.le_add_right _ _
  | cons bit rest ih =>
      have following : (buffer.pushAll (bit :: rest)).byteLength ≤ _ := ih (buffer.pushBit bit)
      rw [byte_length_push_bit, used_push_bit] at following
      rw [List.length_cons]
      by_cases closed : buffer.used = 0
      · have none : buffer.used.toNat = 0 := by simp [closed]
        rw [if_pos closed] at following
        omega
      · have some : buffer.used.toNat ≠ 0 := fun zero => closed (UInt8.toNat_inj.mp zero)
        rw [if_neg closed] at following
        omega

end BitBuffer

namespace CompressedChunk

theorem byte_length_push (run : CompressedChunk) (sample : Sample) :
    (run.push sample).bits.byteLength ≤
      run.bits.byteLength + (77 + max 76 run.values.width.toNat) / 8 := by
  have written := BitBuffer.byte_length_push_all run.bits
    (run.timestamps.encode sample.timestamp ++ run.values.encode sample.value)
  have timestamp := (run.timestamps.encode_length sample.timestamp).2
  have value := (run.values.encode_length sample.value).2
  rw [List.length_append] at written
  exact Nat.le_trans written (by omega)

theorem inside_push_samples (chunk : CompressedChunk) (samples : List Sample)
    (inside : chunk.values.Inside) : (samples.foldl push chunk).values.Inside := by
  induction samples generalizing chunk with
  | nil => exact inside
  | cons sample later ih =>
      exact ih (chunk.push sample) (WindowState.inside_advance _ sample.value inside)

theorem inside_of_samples (first : Sample) (later : List Sample) :
    (ofSamples first later).values.Inside :=
  inside_push_samples _ later (WindowState.inside_start first.value)

theorem encode_from_length (timestamps : DeltaState) (values : WindowState)
    (inside : values.Inside) (samples : List Sample) :
    2 * samples.length ≤ (encodeFrom timestamps values samples).length ∧
      (encodeFrom timestamps values samples).length ≤ 146 * samples.length := by
  -- in any state of the codecs; a window inside a word stays so
  induction samples generalizing timestamps values with
  | nil => simp [encodeFrom]
  | cons sample later ih =>
      have timestamp := timestamps.encode_length sample.timestamp
      have value := values.encode_length sample.value
      have narrow := WindowState.width_le_of_inside inside
      have following := ih (timestamps.advance sample.timestamp) (values.advance sample.value)
        (WindowState.inside_advance _ _ inside)
      simp only [encodeFrom, List.length_append, List.length_cons]
      omega

theorem byte_length_of_samples (first : Sample) (later : List Sample) :
    later.length ≤ 4 * (ofSamples first later).bits.byteLength ∧
      8 * (ofSamples first later).bits.byteLength ≤ 146 * later.length + 7 := by
  have holds := holds_push_samples (ofSample first) later BitBuffer.holds_empty
  have bytes : (ofSamples first later).bits.byteLength = _ := BitBuffer.byte_length_of_holds holds
  have bits := encode_from_length (.start first.timestamp) (.start first.value)
    (WindowState.inside_start first.value) later
  rw [bytes, List.nil_append]
  simp only [ofSample]
  omega

end CompressedChunk

namespace Chunk

theorem size_uncompressed (run : List Sample) :
    (ofRun .uncompressed run).size = 16 * run.length := by
  rw [run_uncompressed]
  exact Nat.mul_comm _ _

theorem size_compressed {run : List Sample} (nonempty : run ≠ []) :
    run.length + 63 ≤ 4 * (ofRun .compressed run).size ∧
      8 * (ofRun .compressed run).size + 11 ≤ 146 * run.length := by
  obtain ⟨first, later, rfl⟩ := List.exists_cons_of_ne_nil nonempty
  have bytes := CompressedChunk.byte_length_of_samples first later
  have size : (ofRun .compressed (first :: later)).size =
      16 + (CompressedChunk.ofSamples first later).bits.byteLength := rfl
  rw [size, List.length_cons]
  omega

theorem size_of_sample (encoding : ChunkEncoding) (sample : Sample) :
    (ofSample encoding sample).size = 16 := by
  cases encoding <;> rfl

/-- While the window is at most 82 bits wide, one sample adds no more than it is allowed. -/
theorem size_push_narrow (run : CompressedChunk) (sample : Sample)
    (narrow : run.values.width.toNat ≤ 82) :
    ((compressed run).push sample).size ≤ (compressed run).size + maxCompressedSampleBytes := by
  have grown := run.byte_length_push sample
  have size : ((compressed run).push sample).size =
      16 + (run.push sample).bits.byteLength := rfl
  have before : (compressed run).size = 16 + run.bits.byteLength := rfl
  rw [size, before, maxCompressedSampleBytes]
  omega

/-- A chunk that has room for a sample stays within the budget with it. -/
theorem size_push_le (encoding : ChunkEncoding) {run : List Sample} (nonempty : run ≠ [])
    {budget : Nat} (room : (ofRun encoding run).isFull budget = false) (sample : Sample) :
    ((ofRun encoding run).push sample).size ≤ budget := by
  obtain ⟨first, later, rfl⟩ := List.exists_cons_of_ne_nil nonempty
  cases encoding with
  | uncompressed =>
      have free : ¬ (later.length + 1 + 1) * 16 > budget := of_decide_eq_false room
      exact Nat.not_lt.mp free
  | compressed =>
      have free : ¬ (ofRun .compressed (first :: later)).size + maxCompressedSampleBytes > budget :=
        of_decide_eq_false room
      have narrow := WindowState.width_le_of_inside (CompressedChunk.inside_of_samples first later)
      have grown := size_push_narrow (.ofSamples first later) sample (by omega)
      exact Nat.le_trans grown (Nat.not_lt.mp free)

/-- A run that is kept whole after a write is a single sample or within a fifth of the budget. -/
theorem size_of_whole (encoding : ChunkEncoding) {run : List Sample} (nonempty : run ≠ [])
    {budget : Nat} (whole : (ofRun encoding run).needsSplit budget = false) :
    run.length = 1 ∨ 5 * (ofRun encoding run).size ≤ 6 * budget := by
  have filled := List.length_pos_iff.mpr nonempty
  simp only [needsSplit, count_run encoding nonempty, Bool.and_eq_false_iff,
    decide_eq_false_iff_not] at whole
  omega

end Chunk

end Chronicle

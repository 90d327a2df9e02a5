import Chronicle.Chunk
import Chronicle.Proofs.Codec.RoundTrip

/-!
Compressed runs read back. Both codecs write into one stream, each field right behind
the one before, so the reader has to stay in step with the writer through every sample.
The main statement is that a run decodes to exactly the samples that were written, in
any order of timestamps and with any bits of values, and that writing the decoded
samples again gives the same run, down to the states with which it goes on.
-/

namespace Chronicle

namespace CompressedChunk

/-- The bits that samples add to a stream, from given states of the two codecs. -/
def encodeFrom (timestamps : DeltaState) (values : WindowState) : List Sample → BitStream
  | [] => []
  | sample :: later =>
      timestamps.encode sample.timestamp ++ values.encode sample.value ++
        encodeFrom (timestamps.advance sample.timestamp) (values.advance sample.value) later

theorem decode_from_encode_from (timestamps : DeltaState) (values : WindowState)
    (inside : values.Inside) (samples : List Sample) (rest : BitStream) :
    decodeFrom timestamps values samples.length (encodeFrom timestamps values samples ++ rest) =
      .ok (samples, rest) := by
  induction samples generalizing timestamps values with
  | nil => rfl
  | cons sample later ih =>
      have value := WindowState.decode_encode_value values sample.value
        (encodeFrom (timestamps.advance sample.timestamp) (values.advance sample.value) later ++
          rest) inside
      have read := WindowState.value_advance values sample.value
      have following := ih (timestamps.advance sample.timestamp) (values.advance sample.value)
        (WindowState.inside_advance values sample.value inside)
      simp only [List.length_cons, encodeFrom, List.append_assoc, decodeFrom,
        DeltaState.decode_encode_delta, value, following, read, bind, Except.bind]

/-- Samples pushed one after the other write one stream behind what was there. -/
theorem holds_push_samples (chunk : CompressedChunk) (samples : List Sample)
    {written : BitStream} (holds : chunk.bits.Holds written) :
    (samples.foldl push chunk).bits.Holds
      (written ++ encodeFrom chunk.timestamps chunk.values samples) := by
  induction samples generalizing chunk written with
  | nil => simpa [encodeFrom] using holds
  | cons sample later ih =>
      have longer := BitBuffer.holds_push_all holds
        (chunk.timestamps.encode sample.timestamp ++ chunk.values.encode sample.value)
      have following := ih (chunk.push sample) longer
      simpa only [List.foldl_cons, encodeFrom, List.append_assoc, push] using following

theorem first_push_samples (chunk : CompressedChunk) (samples : List Sample) :
    (samples.foldl push chunk).first = chunk.first := by
  induction samples generalizing chunk with
  | nil => rfl
  | cons sample later ih => exact ih (chunk.push sample)

theorem count_push_samples (chunk : CompressedChunk) (samples : List Sample) :
    (samples.foldl push chunk).count = chunk.count + (samples.length : Int) := by
  induction samples generalizing chunk with
  | nil => simp
  | cons sample later ih =>
      have following : ((sample :: later).foldl push chunk).count =
          chunk.count + 1 + (later.length : Int) := ih (chunk.push sample)
      rw [following, List.length_cons, Int.natCast_add, Int.add_assoc,
        Int.add_comm (later.length : Int)]
      rfl

theorem last_push_samples (chunk : CompressedChunk) (samples : List Sample) :
    (samples.foldl push chunk).last = samples.getLast?.getD chunk.last := by
  induction samples generalizing chunk with
  | nil => rfl
  | cons sample later ih =>
      have following : ((sample :: later).foldl push chunk).last =
          later.getLast?.getD sample := ih (chunk.push sample)
      rw [following, List.getLast?_cons, Option.getD_some]

theorem counter_of_samples (first : Sample) (later : List Sample) :
    (ofSamples first later).count = ((first :: later).length : Int) := by
  have count : (ofSamples first later).count = 1 + (later.length : Int) :=
    count_push_samples (ofSample first) later
  rw [count, Int.add_comm]
  rfl

theorem count_of_samples (first : Sample) (later : List Sample) :
    (ofSamples first later).count.shown = later.length + 1 := by
  rw [counter_of_samples, Counter.shown_ofNat, List.length_cons]

theorem samples_of_samples (first : Sample) (later : List Sample) :
    (ofSamples first later).samples = .ok (first :: later) := by
  obtain ⟨_, padding, _, stream⟩ :=
    holds_push_samples (ofSample first) later BitBuffer.holds_empty
  have decoded := decode_from_encode_from (.start first.timestamp) (.start first.value)
    (WindowState.inside_start first.value) later (List.replicate padding false)
  have same : (ofSamples first later).first = first := first_push_samples _ later
  have bits : (ofSamples first later).bits.stream =
      encodeFrom (.start first.timestamp) (.start first.value) later ++
        List.replicate padding false := stream
  simp only [samples, decode, same, bits, count_of_samples, Nat.add_sub_cancel, decoded, bind,
    Except.bind]

end CompressedChunk

namespace Chunk

theorem push_compressed (run : CompressedChunk) (samples : List Sample) :
    samples.foldl push (.compressed run) =
      .compressed (samples.foldl CompressedChunk.push run) := by
  induction samples generalizing run with
  | nil => rfl
  | cons sample later ih => exact ih (run.push sample)

/-- A compressed chunk that samples were pushed to, one by one, decodes to exactly those
samples, and the decoded samples make that chunk again, so that whatever is pushed after a
rewrite goes on with the same stream. -/
theorem compressed_round_trip (first : Sample) (later : List Sample) :
    let chunk := later.foldl push (ofSample .compressed first)
    ofSamples? .compressed (first :: later) = some chunk ∧
      chunk.samples = .ok (first :: later) ∧
      chunk.count = (first :: later).length ∧
      chunk.firstTimestamp = first.timestamp ∧
      (first :: later).getLast? = some chunk.lastSample ∧
      chunk.samples.map (ofSamples? .compressed) = .ok (some chunk) ∧
      ∀ more : List Sample, chunk.samples.map (fun decoded =>
          (ofSamples? .compressed decoded).map (more.foldl push)) =
        .ok (some ((later ++ more).foldl push (ofSample .compressed first))) := by
  have built : later.foldl push (ofSample .compressed first) =
      .compressed (.ofSamples first later) := push_compressed (.ofSample first) later
  have decoded := CompressedChunk.samples_of_samples first later
  simp only [List.foldl_append]
  rw [built]
  refine ⟨rfl, decoded, CompressedChunk.count_of_samples first later, ?_, ?_, ?_, ?_⟩
  · exact congrArg Sample.timestamp (CompressedChunk.first_push_samples _ later)
  · have last := CompressedChunk.last_push_samples (.ofSample first) later
    rw [List.getLast?_cons]
    exact congrArg some last.symm
  · simp only [samples, decoded, Except.map, ofSamples?]
  · intro more
    simp only [samples, decoded, Except.map, ofSamples?, Option.map_some]

end Chunk

end Chronicle

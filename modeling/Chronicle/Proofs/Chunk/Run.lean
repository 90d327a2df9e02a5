import Chronicle.Proofs.Chunk.Placement
import Chronicle.Proofs.Chunk.RoundTrip

/-!
Chunks as the runs of samples that they were made of. A chunk made of a run shows that
run again, and each change of it makes the chunk of the changed run, under both
encodings. Beyond this module a chunk is only ever spoken of through its run.
-/

namespace Chronicle

namespace Chunk

open Timeline

def ofRun (encoding : ChunkEncoding) (run : List Sample) : Chunk :=
  (ofSamples? encoding run).getD (.uncompressed .empty)

section Shown

variable (encoding : ChunkEncoding)

theorem of_samples_run {run : List Sample} (nonempty : run ≠ []) :
    ofSamples? encoding run = some (ofRun encoding run) := by
  cases run with
  | nil => contradiction
  | cons first later => cases encoding <;> rfl

theorem encoding_run {run : List Sample} (nonempty : run ≠ []) :
    (ofRun encoding run).encoding = encoding := by
  cases run with
  | nil => contradiction
  | cons first later => cases encoding <;> rfl

theorem samples_run {run : List Sample} (nonempty : run ≠ []) :
    (ofRun encoding run).samples = .ok run := by
  cases run with
  | nil => contradiction
  | cons first later =>
      cases encoding with
      | uncompressed => exact congrArg Except.ok (Trail.toList_ofList (first :: later))
      | compressed => exact CompressedChunk.samples_of_samples first later

theorem counter_run {run : List Sample} (nonempty : run ≠ []) :
    (ofRun encoding run).counter = (run.length : Int) := by
  cases run with
  | nil => contradiction
  | cons first later =>
      cases encoding with
      | uncompressed => rfl
      | compressed => exact CompressedChunk.counter_of_samples first later

theorem count_run {run : List Sample} (nonempty : run ≠ []) :
    (ofRun encoding run).count = run.length := by
  rw [count, counter_run encoding nonempty, Counter.shown_ofNat]

theorem first_timestamp_run (first : Sample) (later : List Sample) :
    (ofRun encoding (first :: later)).firstTimestamp = first.timestamp := by
  cases encoding with
  | uncompressed =>
      have shown := Trail.toList_ofList (first :: later)
      simp only [ofRun, ofSamples?, Option.getD_some, firstTimestamp, shown]
      rfl
  | compressed => exact congrArg Sample.timestamp (CompressedChunk.first_push_samples _ later)

theorem last_sample_run {run : List Sample} (nonempty : run ≠ []) :
    run.getLast? = some (ofRun encoding run).lastSample := by
  cases run with
  | nil => contradiction
  | cons first later =>
      cases encoding with
      | uncompressed =>
          have last := Trail.last?_toList (.ofList (first :: later))
          rw [Trail.toList_ofList, List.getLast?_cons] at last
          simp only [ofRun, ofSamples?, Option.getD_some, lastSample, ← last, List.getLast?_cons]
      | compressed =>
          rw [List.getLast?_cons]
          exact congrArg some (CompressedChunk.last_push_samples (.ofSample first) later).symm

theorem first_mem_run {run : List Sample} (nonempty : run ≠ []) :
    ∃ first ∈ run, (ofRun encoding run).firstTimestamp = first.timestamp := by
  cases run with
  | nil => contradiction
  | cons first later => exact ⟨first, by simp, first_timestamp_run encoding first later⟩

theorem within_run {run : List Sample} (increasing : Increasing run) {sample : Sample}
    (member : sample ∈ run) :
    (ofRun encoding run).firstTimestamp ≤ sample.timestamp ∧
      sample.timestamp ≤ (ofRun encoding run).lastTimestamp := by
  constructor
  · cases run with
    | nil => simp at member
    | cons first later =>
        rw [first_timestamp_run]
        rcases List.mem_cons.mp member with rfl | rest
        · exact UInt64.le_refl _
        · exact UInt64.le_of_lt ((List.pairwise_cons.mp increasing).1 sample rest)
  · have last := last_sample_run encoding (List.ne_nil_of_mem member)
    exact le_last_of_increasing increasing last member

end Shown

section Changed

variable (encoding : ChunkEncoding) {run : List Sample}

theorem of_sample_run (sample : Sample) : ofSample encoding sample = ofRun encoding [sample] := by
  cases encoding <;> rfl

theorem push_run (nonempty : run ≠ []) (sample : Sample) :
    (ofRun encoding run).push sample = ofRun encoding (run ++ [sample]) := by
  cases run with
  | nil => contradiction
  | cons first later =>
      cases encoding with
      | uncompressed =>
          have longer : (Trail.ofList (first :: later)).push sample =
              .ofList (first :: later ++ [sample]) :=
            Trail.eq_of_toList (by simp only [Trail.toList_push, Trail.toList_ofList])
          exact congrArg Chunk.uncompressed longer
      | compressed =>
          have longer : CompressedChunk.ofSamples first (later ++ [sample]) =
              (CompressedChunk.ofSamples first later).push sample := by
            simp [CompressedChunk.ofSamples]
          exact congrArg Chunk.compressed longer.symm

theorem run_uncompressed (run : List Sample) :
    ofRun .uncompressed run = .uncompressed (.ofList run) := by
  cases run <;> rfl

theorem run_compressed (nonempty : run ≠ []) :
    ∃ chunk, ofRun .compressed run = .compressed chunk ∧ chunk.samples = .ok run := by
  cases run with
  | nil => contradiction
  | cons first later =>
      exact ⟨_, rfl, CompressedChunk.samples_of_samples first later⟩

/-- Writing into a chunk is writing into its run, where the encoding lets it. -/
theorem upsert_run (nonempty : run ≠ []) (increasing : Increasing run) (sample : Sample)
    (policy : DuplicatePolicy) (rebuild : Bool) :
    (ofRun encoding run).upsert sample policy rebuild =
      if encoding = .compressed ∧ rebuild = false then .error (.upsertUnsupported .compressed)
      else (write run sample policy).map fun (changed, inserted) =>
        (ofRun encoding changed, inserted) := by
  have placed := Placement.upsert_eq_write run sample policy increasing
  cases encoding with
  | uncompressed =>
      rw [run_uncompressed, if_neg (by simp), upsert, Trail.toList_ofList, placed]
      cases write run sample policy with
      | error refused => rfl
      | ok result => simp only [bind, Except.bind, Except.map, run_uncompressed]
  | compressed =>
      obtain ⟨chunk, same, shown⟩ := run_compressed nonempty
      cases rebuild with
      | false => simp [same, upsert]
      | true =>
          rw [same, upsert, shown]
          cases written : write run sample policy with
          | error refused => simp [placed, written, bind, Except.bind, Except.map]
          | ok result =>
              obtain ⟨⟨value, changed⟩, _⟩ := write_ok increasing written
              have filled : result.1 ≠ [] := changed ▸ put_ne_nil run _
              simp [placed, written, bind, Except.bind, Except.map,
                of_samples_run .compressed filled]

theorem nonempty_parts (several : 2 ≤ run.length) :
    run.take (run.length / 2) ≠ [] ∧ run.drop (run.length / 2) ≠ [] := by
  rw [← List.length_pos_iff, List.length_take, ← List.length_pos_iff, List.length_drop]
  omega

theorem split_run (several : 2 ≤ run.length) :
    (ofRun encoding run).split = .ok (some (ofRun encoding (run.take (run.length / 2)),
      ofRun encoding (run.drop (run.length / 2)))) := by
  have nonempty : run ≠ [] := by
    rintro rfl
    simp at several
  obtain ⟨lower, upper⟩ := nonempty_parts several
  rw [split, count_run encoding nonempty, if_neg (by omega), samples_run encoding nonempty]
  simp only [bind, Except.bind, encoding_run encoding nonempty, of_samples_run encoding lower,
    of_samples_run encoding upper]

/-- The runs that a run is kept in after a write, under a budget. -/
def halves (encoding : ChunkEncoding) (budget : Nat) (run : List Sample) : List (List Sample) :=
  if (ofRun encoding run).needsSplit budget then
    [run.take (run.length / 2), run.drop (run.length / 2)]
  else [run]

theorem flatten_halves (budget : Nat) (run : List Sample) :
    (halves encoding budget run).flatten = run := by
  unfold halves
  split <;> simp

theorem several_of_needs_split (nonempty : run ≠ []) {budget : Nat}
    (grown : (ofRun encoding run).needsSplit budget = true) : 2 ≤ run.length := by
  simp only [needsSplit, count_run encoding nonempty, Bool.and_eq_true, decide_eq_true_eq]
    at grown
  exact grown.1

theorem nonempty_halves (nonempty : run ≠ []) (budget : Nat) :
    ∀ half ∈ halves encoding budget run, half ≠ [] := by
  unfold halves
  split
  · rename_i grown
    obtain ⟨lower, upper⟩ := nonempty_parts (several_of_needs_split encoding nonempty grown)
    simp [lower, upper]
  · simpa using nonempty

end Changed

end Chunk

end Chronicle

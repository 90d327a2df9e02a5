import Chronicle.Proofs.Envelope
import Chronicle.Proofs.Format
import Chronicle.Series.Format

/-!
The stored form of a series and its blob give the series back. Nothing is asked of a series but
that words can hold it: each part is read back whatever it holds, chunks with any bits and any
state of their codecs, rules with any accumulator, readings with any 64 bits. Only numbers that
no word stands for, and sizes that no length can tell, are excepted.
-/

namespace Chronicle

open Format

/-- That a counter is one that a word stands for. -/
def Counter.IsWord (counter : Counter) : Prop := ∃ word, counter = ofWord word

theorem counter_keeps_word {counter : Counter} (isWord : counter.IsWord) :
    Format.counter.Keeps counter := by
  obtain ⟨word, rfl⟩ := isWord
  exact counter_keeps word

namespace Sample

theorem format_filled : format.Filled := filled_via (filled_both filled_word _) _ _

theorem format_keeps (sample : Sample) : format.Keeps sample :=
  via_keeps (both_keeps (word_keeps _) (double_keeps _)) rfl

end Sample

theorem BitBuffer.format_short (buffer : BitBuffer) : format.KeepsShort buffer := by
  apply via_short
  · apply both_short
    · apply list_short filled_byte
      intro byte _
      exact short_of_keeps (byte_keeps byte)
    · exact short_of_keeps (byte_keeps buffer.used)
  · dsimp only
    rw [Trail.ofList_toList]

theorem DeltaState.format_keeps (state : DeltaState) : format.Keeps state :=
  via_keeps (both_keeps (word_keeps _) (word_keeps _)) rfl

theorem WindowState.format_keeps (state : WindowState) : format.Keeps state :=
  via_keeps (both_keeps (word_keeps _) (both_keeps (byte_keeps _) (both_keeps (byte_keeps _)
    (byte_keeps _)))) rfl

theorem CompressedChunk.format_short {run : CompressedChunk} (isWord : run.count.IsWord) :
    format.KeepsShort run := by
  apply via_short
  · apply both_short (short_of_keeps (Sample.format_keeps run.first))
    apply both_short (short_of_keeps (Sample.format_keeps run.last))
    apply both_short (short_of_keeps (counter_keeps_word isWord))
    apply both_short (BitBuffer.format_short run.bits)
    apply both_short (short_of_keeps (DeltaState.format_keeps run.timestamps))
    exact short_of_keeps (WindowState.format_keeps run.values)
  · rfl

theorem ChunkEncoding.format_keeps (encoding : ChunkEncoding) : format.Keeps encoding :=
  choice_keeps (by cases encoding <;> decide) (by decide)

namespace Chunk

/-- The counters that a chunk keeps; an uncompressed one is measured instead. -/
def counters : Chunk → List Counter
  | uncompressed _ => []
  | compressed run => [run.count]

theorem format_short {chunk : Chunk} (words : ∀ counter ∈ chunk.counters, counter.IsWord) :
    format.KeepsShort chunk := by
  intro fits rest
  cases chunk with
  | uncompressed samples =>
      simp only [format, List.length_append] at fits
      have kept : (list Sample.format).Keeps samples.toList := by
        refine list_short Sample.format_filled ?_ (by omega)
        intro sample _
        exact short_of_keeps (Sample.format_keeps sample)
      simp only [format, List.append_assoc, ChunkEncoding.format_keeps .uncompressed _, kept rest,
        bind, Except.bind, Trail.ofList_toList]
  | compressed run =>
      simp only [format, List.length_append] at fits
      have kept : CompressedChunk.format.Keeps run :=
        CompressedChunk.format_short (words run.count (by simp [counters])) (by omega)
      simp only [format, List.append_assoc, ChunkEncoding.format_keeps .compressed _, kept rest,
        bind, Except.bind]

end Chunk

theorem DuplicatePolicy.format_keeps (policy : DuplicatePolicy) : format.Keeps policy :=
  choice_keeps (by cases policy <;> decide) (by decide)

theorem AggregationKind.format_keeps (kind : AggregationKind) : format.Keeps kind :=
  choice_keeps (by cases kind <;> decide) (by decide)

theorem AccumulatorShape.format_keeps (shape : AccumulatorShape) : format.Keeps shape :=
  choice_keeps (by cases shape <;> decide) (by decide)

namespace Accumulator

def counters : Accumulator Value → List Counter
  | .sum _ taken => [taken]
  | .avg _ taken => [taken]
  | .count taken => [taken]
  | .variance _ taken _ _ => [taken]
  | _ => []

theorem held_keeps (held : Option Value) : heldFormat.Keeps held :=
  option_keeps fun value _ => double_keeps value

theorem total_keeps (total : Value) {taken : Counter} (isWord : taken.IsWord) :
    totalFormat.Keeps (total, taken) :=
  both_keeps (double_keeps total) (counter_keeps_word isWord)

theorem ends_keeps (ends : Option (Value × Value)) : endsFormat.Keeps ends :=
  option_keeps fun _ _ => both_keeps (double_keeps _) (double_keeps _)

theorem variance_keeps (kind : AggregationKind) {taken : Counter} (isWord : taken.IsWord)
    (mean squares : Value) : varianceFormat.Keeps (kind, taken, mean, squares) :=
  both_keeps (AggregationKind.format_keeps kind) (both_keeps (counter_keeps_word isWord)
    (both_keeps (double_keeps mean) (double_keeps squares)))

theorem format_keeps {accumulator : Accumulator Value}
    (words : ∀ counter ∈ accumulator.counters, counter.IsWord) : format.Keeps accumulator := by
  intro rest
  cases accumulator with
  | min held | max held | first held | last held =>
      simp only [format, writeAccumulator, List.append_assoc, AccumulatorShape.format_keeps _ _,
        readShape, held_keeps held rest, bind, Except.bind]
  | sum total taken | avg total taken =>
      have kept := total_keeps total (words taken (by simp [counters])) rest
      simp only [format, writeAccumulator, List.append_assoc, AccumulatorShape.format_keeps _ _,
        readShape, kept, bind, Except.bind]
  | count taken =>
      have kept := counter_keeps_word (words taken (by simp [counters])) rest
      simp only [format, writeAccumulator, List.append_assoc, AccumulatorShape.format_keeps _ _,
        readShape, kept, bind, Except.bind]
  | range ends =>
      simp only [format, writeAccumulator, List.append_assoc, AccumulatorShape.format_keeps _ _,
        readShape, ends_keeps ends rest, bind, Except.bind]
  | variance kind taken mean squares =>
      have kept := variance_keeps kind (words taken (by simp [counters])) mean squares rest
      simp only [format, writeAccumulator, List.append_assoc, AccumulatorShape.format_keeps _ _,
        readShape, kept, bind, Except.bind]

end Accumulator

theorem Rule.format_short {rule : Rule}
    (words : ∀ counter ∈ rule.accumulator.counters, counter.IsWord) : format.KeepsShort rule := by
  apply via_short
  · apply both_short (text_short rule.destination)
    apply both_short (short_of_keeps (AggregationKind.format_keeps rule.kind))
    apply both_short (short_of_keeps (word_keeps rule.width))
    apply both_short (short_of_keeps (Accumulator.format_keeps words))
    exact short_of_keeps (option_keeps fun opened _ => word_keeps opened)
  · rfl

theorem StoreConfig.format_keeps {config : StoreConfig} (budget : config.chunkSize < UInt64.size) :
    format.Keeps config :=
  via_keeps (both_keeps (ChunkEncoding.format_keeps _) (both_keeps (count_keeps budget)
    (both_keeps (word_keeps _) (flag_keeps _)))) rfl

namespace Store

def counters (store : Store) : List Counter :=
  store.totalSamples :: store.chunks.values.flatMap Chunk.counters

theorem format_short {store : Store} (budget : store.config.chunkSize < UInt64.size)
    (words : ∀ counter ∈ store.counters, counter.IsWord) : format.KeepsShort store := by
  apply via_short
  · apply both_short (short_of_keeps (StoreConfig.format_keeps budget))
    apply both_short
    · apply map_short filled_word
      intro entry member
      refine ⟨short_of_keeps (word_keeps entry.1), Chunk.format_short fun counter inside => ?_⟩
      have value : entry.2 ∈ store.chunks.values := List.mem_map_of_mem member
      exact words counter (List.mem_cons_of_mem _ (List.mem_flatMap.mpr ⟨_, value, inside⟩))
    apply both_short (short_of_keeps (word_keeps store.lastTimestamp))
    apply both_short (short_of_keeps (double_keeps store.lastValue))
    exact short_of_keeps (counter_keeps_word (words store.totalSamples (by simp [counters])))
  · rfl

end Store

namespace Series

def counters (series : Series) : List Counter :=
  series.store.counters ++ series.rules.flatMap (·.accumulator.counters)

/-- That a series is one that words can hold: its counters and the budget of its chunks are
words, and a word tells how many bytes it fills. -/
structure Storable (series : Series) : Prop where
  size : (format.write series).length < UInt64.size
  budget : series.store.config.chunkSize < UInt64.size
  counters : ∀ counter ∈ series.counters, counter.IsWord

theorem format_keeps {series : Series} (storable : series.Storable) : format.Keeps series := by
  have inStore : ∀ counter ∈ series.store.counters, counter.IsWord := by
    intro counter member
    exact storable.counters counter (List.mem_append_left _ member)
  have inRules : ∀ rule ∈ series.rules, ∀ counter ∈ rule.accumulator.counters,
      counter.IsWord := by
    intro rule among counter member
    exact storable.counters counter
      (List.mem_append_right _ (List.mem_flatMap.mpr ⟨rule, among, member⟩))
  refine via_short ?_ rfl storable.size
  apply both_short (text_short series.key)
  apply both_short
  · apply map_short filled_text
    intro entry _
    exact ⟨text_short entry.1, text_short entry.2⟩
  apply both_short (short_of_keeps (DuplicatePolicy.format_keeps series.duplicatePolicy))
  apply both_short (Store.format_short storable.budget inStore)
  apply both_short
  · apply option_short
    intro source _
    exact text_short source
  · apply list_short (filled_via (filled_both filled_text _) _ _)
    intro rule among
    exact Rule.format_short (inRules rule among)

end Series

namespace Series

/-- A blob is read back as the series it was made of, whatever follows it. -/
theorem of_blob_onto {series : Series} (storable : series.Storable) (rest : Bytes) :
    ofBlob (series.toBlob ++ rest) = .ok series := by
  have header := Artifact.read_header_onto .series
    (Artifact.sealPayload (format.write series) ++ rest)
  have payload := Artifact.open_payload_seal .series storable.size rest
  have kept := format_keeps storable []
  rw [List.append_nil] at kept
  rw [ofBlob, toBlob, List.append_assoc, header]
  simp only [bind, Except.bind, payload, Format.readAll, kept]
  rfl

/-- A blob is read back as the very series it was made of, and no other series has it. -/
theorem blob_round_trip (series : Series) (storable : series.Storable) :
    ofBlob series.toBlob = .ok series ∧
      ∀ other : Series, other.Storable → other.toBlob = series.toBlob → other = series := by
  have readBack : ∀ one : Series, one.Storable → ofBlob one.toBlob = .ok one := by
    intro one held
    have onto := of_blob_onto held []
    rwa [List.append_nil] at onto
  refine ⟨readBack series storable, ?_⟩
  intro other held same
  have read := readBack other held
  rw [same, readBack series storable] at read
  exact (Except.ok.inj read).symm

/-- A series that no run of writes leads to: readings that are no numbers, counts at the end
of their range, codec states and bits that contradict each other. -/
def crafted : Series where
  key := "kessel"
  labels := .ofList [("raum", "küche"), ("", "")]
  duplicatePolicy := .sum
  store :=
    { config := ⟨.compressed, 3, 0xffffffffffffffff, true⟩
      chunks := .ofList
        [(7, .uncompressed (.ofList [⟨9, ⟨0x7ff8000000000001⟩⟩, ⟨2, ⟨0x8000000000000000⟩⟩])),
          (5, .compressed
            { first := ⟨1, ⟨0x7ff0000000000000⟩⟩
              last := ⟨0, ⟨0xffffffffffffffff⟩⟩
              count := .ofWord 0xffffffffffffffff
              bits := ⟨.ofList [0xff, 0x80], 200⟩
              timestamps := ⟨0xffffffffffffffff, 0x8000000000000000⟩
              values := ⟨3, 64, 255, 65⟩ })]
      lastTimestamp := 4
      lastValue := ⟨0x7ff8000000000002⟩
      totalSamples := .ofWord 0x8000000000000000 }
  sourceKey := some "kessel"
  rules :=
    [⟨"", .min, 0, .variance .last (.ofWord 0) ⟨0x7ff8000000000003⟩ ⟨0⟩, some 11⟩,
      ⟨"kessel", .stdS, 60000, .range (some (⟨0x7ff8000000000004⟩, ⟨0⟩)), none⟩]

theorem crafted_storable : crafted.Storable where
  size := by decide +kernel
  budget := by decide
  counters := by
    have listed : crafted.counters =
        [.ofWord 0x8000000000000000, .ofWord 0xffffffffffffffff, .ofWord 0] := by
      decide +kernel
    intro counter member
    rw [listed] at member
    simp only [List.mem_cons, List.not_mem_nil, or_false] at member
    rcases member with rfl | rfl | rfl <;> exact ⟨_, rfl⟩

theorem blob_round_trip_crafted :
    crafted.Storable ∧ ofBlob crafted.toBlob = .ok crafted ∧
      ∀ other : Series, other.Storable → other.toBlob = crafted.toBlob → other = crafted :=
  ⟨crafted_storable, blob_round_trip crafted crafted_storable⟩

end Series

end Chronicle

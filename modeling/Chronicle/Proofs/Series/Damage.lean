import Chronicle.Proofs.Series.Format

/-!
Damaged blobs. What is cut off is missed, and what is appended is not looked at. Between
these, a change of the letters, of the version or of the sum is always noticed, and so is one
of the payload as long as it is not wider than the sum.
-/

namespace Chronicle

namespace Bytes

/-- That bytes were changed at some of certain positions and nowhere else, without one being
added or lost. -/
structure Altered (old new : Bytes) (among : Nat → Prop) : Prop where
  length : new.length = old.length
  kept : ∀ position, ¬ among position → new[position]? = old[position]?
  changed : new ≠ old

section Altered

variable {old new : Bytes} {among : Nat → Prop} (altered : Altered old new among)

include altered

theorem part_kept (start width : Nat)
    (outside : ∀ position, start ≤ position → position < start + width → ¬ among position) :
    (new.drop start).take width = (old.drop start).take width := by
  apply List.ext_getElem?
  intro offset
  rw [List.getElem?_take, List.getElem?_take, List.getElem?_drop, List.getElem?_drop]
  split
  · exact altered.kept _ (outside _ (by omega) (by omega))
  · rfl

theorem rest_kept (start : Nat) (outside : ∀ position, start ≤ position → ¬ among position) :
    new.drop start = old.drop start := by
  apply List.ext_getElem?
  intro offset
  rw [List.getElem?_drop, List.getElem?_drop]
  exact altered.kept _ (outside _ (by omega))

end Altered

theorem altered_set {bytes : Bytes} {position : Nat} {value old : UInt8}
    (present : bytes[position]? = some old) (other : old ≠ value) {among : Nat → Prop}
    (listed : among position) : bytes.Altered (bytes.set position value) among where
  length := List.length_set
  kept := by
    intro elsewhere outside
    refine List.getElem?_set_ne ?_
    rintro rfl
    exact outside listed
  changed := by
    intro same
    obtain ⟨inside, _⟩ := List.getElem?_eq_some_iff.mp present
    have written : (bytes.set position value)[position]? = some value :=
      List.getElem?_set_self inside
    rw [same, present] at written
    exact other (Option.some.inj written)

theorem part_onto_rest (bytes : Bytes) (start width : Nat) :
    (bytes.drop start).take width ++ bytes.drop (start + width) = bytes.drop start := by
  rw [← List.drop_drop, List.take_append_drop]

end Bytes

namespace Series

/-- A blob with a header, a sum and a payload that need not belong together. -/
def blobOf (front sum payload : Bytes) : Bytes :=
  front ++ (Bytes.ofNumber 8 payload.length ++ (sum ++ payload))

def sumOf (payload : Bytes) : Bytes := Bytes.ofNumber 4 (checksum payload).toNat

theorem to_blob_eq (series : Series) :
    series.toBlob = blobOf Artifact.series.header (sumOf (format.write series))
      (format.write series) := by
  rw [toBlob, Artifact.sealPayload, blobOf, sumOf, List.append_assoc]

theorem sum_length (payload : Bytes) : (sumOf payload).length = 4 := Bytes.of_number_length _ _

theorem to_number_sum (payload : Bytes) :
    Bytes.toNumber (sumOf payload) = (checksum payload).toNat := by
  rw [sumOf, Bytes.to_number_of_number]
  exact Nat.mod_eq_of_lt (checksum payload).toNat_lt

theorem parts_of_blob (series : Series) :
    series.toBlob.length = 24 + (format.write series).length ∧
      series.toBlob.take 12 = Artifact.series.header ∧
      (series.toBlob.drop 12).take 8 = Bytes.ofNumber 8 (format.write series).length ∧
      (series.toBlob.drop 20).take 4 = sumOf (format.write series) ∧
      series.toBlob.drop 24 = format.write series := by
  have header := Artifact.series.header_length
  have sum := sum_length (format.write series)
  have field : (Bytes.ofNumber 8 (format.write series).length).length = 8 :=
    Bytes.of_number_length _ _
  rw [to_blob_eq]
  have behind : (blobOf Artifact.series.header (sumOf (format.write series))
      (format.write series)).drop 12 = Bytes.ofNumber 8 (format.write series).length ++
        (sumOf (format.write series) ++ format.write series) := List.drop_left' header
  have summed : (blobOf Artifact.series.header (sumOf (format.write series))
      (format.write series)).drop 20 = sumOf (format.write series) ++ format.write series := by
    rw [show 20 = 12 + 8 by rfl, ← List.drop_drop, behind]
    exact List.drop_left' field
  refine ⟨?_, List.take_left' header, ?_, ?_, ?_⟩
  · simp only [blobOf, List.length_append, header, sum, field]
    omega
  · rw [behind]
    exact List.take_left' field
  · rw [summed]
    exact List.take_left' sum
  · rw [show 24 = 20 + 4 by rfl, ← List.drop_drop, summed]
    exact List.drop_left' sum

section Parts

variable {front sum payload : Bytes}

/-- Bytes of the length that stands in them are such a blob. -/
theorem eq_blob_of {bytes : Bytes} (size : bytes.length = 24 + payload.length)
    (field : (bytes.drop 12).take 8 = Bytes.ofNumber 8 payload.length) :
    bytes = blobOf (bytes.take 12) ((bytes.drop 20).take 4) (bytes.drop 24) := by
  have left : (bytes.drop 24).length = payload.length := by
    rw [List.length_drop, size, Nat.add_sub_cancel_left]
  have summed := Bytes.part_onto_rest bytes 20 4
  have framed := Bytes.part_onto_rest bytes 12 8
  simp only [Nat.reduceAdd] at summed framed
  rw [blobOf, left, ← field, summed, framed, List.take_append_drop]

theorem of_blob_other_front (width : front.length = 12)
    (other : front ≠ Artifact.series.header) :
    ∃ damage, ofBlob (blobOf front sum payload) = .error (.damaged damage) := by
  obtain ⟨damage, refused⟩ := Artifact.series.read_header_other width other
    (Bytes.ofNumber 8 payload.length ++ (sum ++ payload))
  refine ⟨damage, ?_⟩
  rw [ofBlob, blobOf, refused]
  rfl

theorem of_blob_other_sum (fits : payload.length < UInt64.size) (width : sum.length = 4)
    (other : sum ≠ sumOf payload) :
    ofBlob (blobOf Artifact.series.header sum payload) =
      .error (.damaged (.checksumMismatch .series)) := by
  have header := Artifact.series.read_header_onto
    (Bytes.ofNumber 8 payload.length ++ (sum ++ payload))
  have opened := Artifact.series.open_payload_summed fits width []
  have apart : ¬ (checksum payload).toNat = Bytes.toNumber sum := by
    intro same
    apply other
    apply Bytes.to_number_inj (width.trans (sum_length payload).symm)
    rw [← same, to_number_sum]
  rw [List.append_nil, if_neg apart] at opened
  rw [ofBlob, blobOf, header]
  simp only [bind, Except.bind, opened]

end Parts

section Damage

variable {series : Series} {blob : Bytes}

theorem parts_altered {among : Nat → Prop} (altered : series.toBlob.Altered blob among)
    (field : ∀ position, 12 ≤ position → position < 20 → ¬ among position) :
    blob = blobOf (blob.take 12) ((blob.drop 20).take 4) (blob.drop 24) ∧
      (blob.take 12).length = 12 ∧ ((blob.drop 20).take 4).length = 4 ∧
      (blob.drop 24).length = (format.write series).length := by
  obtain ⟨size, _, length, _, _⟩ := parts_of_blob series
  have sameSize := altered.length.trans size
  have sameField := (Bytes.part_kept altered 12 8 field).trans length
  refine ⟨eq_blob_of sameSize sameField, ?_, ?_, ?_⟩ <;>
    simp only [List.length_take, List.length_drop, sameSize] <;> omega

variable (fits : (format.write series).length < UInt64.size)

include fits

theorem part_refused {front : Bytes} (isPart : front <+: series.toBlob)
    (strict : front ≠ series.toBlob) : ∃ refused, ofBlob front = .error refused := by
  have short : front.length < series.toBlob.length :=
    Nat.lt_of_le_of_ne isPart.length_le fun same => strict (isPart.eq_of_length same)
  have cut := List.prefix_iff_eq_take.mp isPart
  by_cases inHeader : front.length < 12
  · obtain ⟨refused, failed⟩ := Artifact.series.read_header_short inHeader
    refine ⟨refused, ?_⟩
    rw [ofBlob, failed]
    rfl
  · have header := Artifact.series.header_length
    have parts : front = Artifact.series.header ++
        (Artifact.sealPayload (format.write series)).take (front.length - 12) := by
      rw [toBlob, List.take_append, header, List.take_of_length_le (by omega)] at cut
      exact cut
    rw [toBlob, List.length_append, header] at short
    have cutShort : front.length - 12 < (Artifact.sealPayload (format.write series)).length := by
      omega
    obtain ⟨refused, failed⟩ := Artifact.series.open_payload_part fits cutShort
    refine ⟨refused, ?_⟩
    rw [parts, ofBlob, Artifact.read_header_onto]
    simp only [bind, Except.bind, failed]

theorem altered_fields_detected
    (altered : series.toBlob.Altered blob fun position =>
      position < 12 ∨ 20 ≤ position ∧ position < 24) :
    ∃ damage, ofBlob blob = .error (.damaged damage) := by
  obtain ⟨parts, frontWidth, sumWidth, _⟩ := parts_altered altered (by omega)
  obtain ⟨_, _, _, _, payload⟩ := parts_of_blob series
  have kept := (Bytes.rest_kept altered 24 (by omega)).trans payload
  by_cases front : blob.take 12 = Artifact.series.header
  · rw [kept, front] at parts
    rw [parts]
    refine ⟨_, of_blob_other_sum fits sumWidth ?_⟩
    intro same
    exact altered.changed (by rw [parts, same, to_blob_eq])
  · rw [parts]
    exact of_blob_other_front frontWidth front

theorem altered_payload_detected {start : Nat} (inside : 24 ≤ start)
    (altered : series.toBlob.Altered blob fun position =>
      start ≤ position ∧ position < start + 4) :
    ofBlob blob = .error (.damaged (.checksumMismatch .series)) := by
  obtain ⟨parts, _, sumWidth, size⟩ := parts_altered altered (by omega)
  obtain ⟨_, front, _, sum, payload⟩ := parts_of_blob series
  have keptFront : blob.take 12 = Artifact.series.header :=
    (Bytes.part_kept altered 0 12 (by omega)).trans front
  have keptSum := (Bytes.part_kept altered 20 4 (by omega)).trans sum
  rw [keptFront] at parts
  rw [parts]
  apply of_blob_other_sum (size ▸ fits) sumWidth
  rw [keptSum]
  intro same
  -- the payloads have one sum and differ in one window at most, so they are the same
  have sums : checksum (blob.drop 24) = checksum (series.toBlob.drop 24) := by
    apply UInt32.toNat_inj.mp
    rw [← to_number_sum, ← same, to_number_sum, payload]
  have windows (bytes : Bytes) : bytes.drop 24 = (bytes.drop 24).take (start - 24) ++
      (bytes.drop start).take 4 ++ bytes.drop (start + 4) := by
    have before := Bytes.part_onto_rest bytes 24 (start - 24)
    rw [Nat.add_sub_cancel' inside] at before
    rw [List.append_assoc, Bytes.part_onto_rest, before]
  have before := Bytes.part_kept altered 24 (start - 24) (by omega)
  have after := Bytes.rest_kept altered (start + 4) (by omega)
  rw [windows blob, windows series.toBlob, before, after] at sums
  have window := checksum_tells _ _ (by simp [altered.length]) (List.length_take_le 4 _) sums
  apply altered.changed
  rw [parts, keptSum, windows blob, before, window, after, ← windows, payload, ← to_blob_eq]

end Damage

/-- Of a blob that words can hold, no part is read, more bytes after it are not looked at, and
damage is noticed: any change of the letters, the version and the sum, and any change of the
payload within four neighbouring bytes, which is put down to the sum. -/
theorem blob_damage_detected (series : Series) (storable : series.Storable) :
    (∀ front, front <+: series.toBlob → front ≠ series.toBlob →
      ∃ refused, ofBlob front = .error refused) ∧
    (∀ more, ofBlob (series.toBlob ++ more) = .ok series) ∧
    (∀ blob, series.toBlob.Altered blob (fun position =>
        position < 12 ∨ 20 ≤ position ∧ position < 24) →
      ∃ damage, ofBlob blob = .error (.damaged damage)) ∧
    ∀ start blob, 24 ≤ start →
      series.toBlob.Altered blob (fun position => start ≤ position ∧ position < start + 4) →
      ofBlob blob = .error (.damaged (.checksumMismatch .series)) :=
  ⟨fun _ => part_refused storable.size, of_blob_onto storable,
    fun _ => altered_fields_detected storable.size,
    fun _ _ => altered_payload_detected storable.size⟩

theorem blob_damage_detected_crafted :
    crafted.Storable ∧
      (∃ refused, ofBlob (crafted.toBlob.take 57) = .error refused) ∧
      (∃ damage, ofBlob (crafted.toBlob.set 8 2) = .error (.damaged damage)) ∧
      ofBlob (crafted.toBlob.set 32 0x4b) = .error (.damaged (.checksumMismatch .series)) := by
  obtain ⟨part, _, fields, payload⟩ := blob_damage_detected crafted crafted_storable
  have size : 57 < crafted.toBlob.length := by decide +kernel
  have version : crafted.toBlob[8]? = some 1 := by decide +kernel
  have letter : crafted.toBlob[32]? = some 0x6b := by decide +kernel
  refine ⟨crafted_storable, ?_, ?_, ?_⟩
  · apply part _ (List.take_prefix 57 _)
    intro whole
    have lengths := congrArg List.length whole
    rw [List.length_take] at lengths
    omega
  · exact fields _ (Bytes.altered_set version (by decide) (by omega))
  · exact payload 30 _ (by decide) (Bytes.altered_set letter (by decide) (by omega))

end Series

end Chronicle

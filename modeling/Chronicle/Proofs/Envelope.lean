import Chronicle.Envelope
import Chronicle.Proofs.Checksum

/-!
What stands around a payload is read back: the header of a kind of file is accepted where
that kind is read, and a payload comes out of its seal, whatever follows it. Nothing else is
accepted in its place: neither another header, nor a part of a header or of a seal, nor a
payload whose sum is not the one beside it.
-/

namespace Chronicle

namespace Artifact

theorem magic_length (artifact : Artifact) : artifact.magic.length = 8 := by
  cases artifact <;> decide

theorem read_header_onto (artifact : Artifact) (rest : Bytes) :
    artifact.readHeader (artifact.header ++ rest) = .ok rest := by
  have long : ¬ (artifact.header ++ rest).length < 8 := by
    simp only [header, List.length_append, magic_length]
    omega
  have front : (artifact.header ++ rest).take 8 = artifact.magic := by
    rw [header, List.append_assoc, ← magic_length artifact, List.take_left]
  have behind : (artifact.header ++ rest).drop 8 = Bytes.ofNumber 4 version ++ rest := by
    rw [header, List.append_assoc, ← magic_length artifact, List.drop_left]
  have number := Bytes.read_number_of_number 4 version rest (by decide)
  rw [readHeader, if_neg long, if_neg (by simp [front]), behind]
  simp only [Bytes.readNumber, number, bind, Except.bind, if_pos]

/-- A payload is taken out of its seal unless it is longer than its length can tell. -/
theorem open_payload_seal (artifact : Artifact) {payload : Bytes}
    (fits : payload.length < UInt64.size) (rest : Bytes) :
    artifact.openPayload (sealPayload payload ++ rest) = .ok payload := by
  have length := Bytes.read_number_of_number 8 payload.length
    (Bytes.ofNumber 4 (checksum payload).toNat ++ (payload ++ rest)) fits
  have sum := Bytes.read_number_of_number 4 (checksum payload).toNat (payload ++ rest)
    (checksum payload).toNat_lt
  simp only [openPayload, sealPayload, List.append_assoc, Bytes.readNumber, length, sum, bind,
    Except.bind, List.take_left, Nat.lt_irrefl, if_false, ne_eq, not_true_eq_false]

theorem header_length (artifact : Artifact) : artifact.header.length = 12 := by
  rw [header, List.length_append, magic_length, Bytes.of_number_length]

theorem read_header_short (artifact : Artifact) {bytes : Bytes} (short : bytes.length < 12) :
    ∃ refused, artifact.readHeader bytes = .error refused := by
  unfold readHeader
  split
  · exact ⟨_, rfl⟩
  split
  · exact ⟨_, rfl⟩
  have missing : Bytes.readNumber? 4 (bytes.drop 8) = none :=
    Bytes.read_number_short (by rw [List.length_drop]; omega)
  refine ⟨.file .shortRead, ?_⟩
  simp only [Bytes.readNumber, missing, bind, Except.bind]

theorem read_header_other (artifact : Artifact) {front : Bytes} (width : front.length = 12)
    (other : front ≠ artifact.header) (rest : Bytes) :
    ∃ damage, artifact.readHeader (front ++ rest) = .error (.damaged damage) := by
  have long : ¬ (front ++ rest).length < 8 := by
    rw [List.length_append]
    omega
  have letters : (front ++ rest).take 8 = front.take 8 :=
    List.take_append_of_le_length (by omega)
  have behind : (front ++ rest).drop 8 = front.drop 8 ++ rest :=
    List.drop_append_of_le_length (by omega)
  have four : (front.drop 8).length = 4 := by rw [List.length_drop, width]
  rw [readHeader, if_neg long, letters, behind]
  by_cases magic : front.take 8 = artifact.magic
  · have number := Bytes.read_number_of_length (front.drop 8) rest
    rw [four] at number
    rw [if_neg (by simp [magic])]
    simp only [Bytes.readNumber, number, bind, Except.bind]
    split
    · -- with the right letters and the right version it would be the header
      rename_i found
      have bytes : front.drop 8 = Bytes.ofNumber 4 version := by
        apply Bytes.to_number_inj
        · rw [four, Bytes.of_number_length]
        · rw [found, Bytes.to_number_of_number]
          rfl
      refine absurd ?_ other
      rw [← List.take_append_drop 8 front, magic, bytes, header]
    · exact ⟨_, rfl⟩
  · rw [if_pos magic]
    exact ⟨_, rfl⟩

section Seal

variable {payload : Bytes} (artifact : Artifact) (fits : payload.length < UInt64.size)

include fits

theorem open_payload_summed {sum : Bytes} (width : sum.length = 4) (rest : Bytes) :
    artifact.openPayload (Bytes.ofNumber 8 payload.length ++ (sum ++ (payload ++ rest))) =
      if (checksum payload).toNat = Bytes.toNumber sum then .ok payload
      else .error (.damaged (.checksumMismatch artifact)) := by
  have length := Bytes.read_number_of_number 8 payload.length (sum ++ (payload ++ rest)) fits
  have number := Bytes.read_number_of_length sum (payload ++ rest)
  rw [width] at number
  simp only [openPayload, Bytes.readNumber, length, number, bind, Except.bind, List.take_left,
    Nat.lt_irrefl, if_false, ne_eq, ite_not]

/-- A part of a sealed payload is not opened, wherever it ends. -/
theorem open_payload_part {count : Nat} (short : count < (sealPayload payload).length) :
    ∃ refused, artifact.openPayload ((sealPayload payload).take count) = .error refused := by
  have parts : (sealPayload payload).take count =
      (Bytes.ofNumber 8 payload.length).take count ++
        ((Bytes.ofNumber 4 (checksum payload).toNat).take (count - 8) ++
          payload.take (count - 12)) := by
    rw [sealPayload, List.append_assoc, List.take_append, List.take_append,
      Bytes.of_number_length, Bytes.of_number_length, Nat.sub_sub]
  simp only [sealPayload, List.length_append, Bytes.of_number_length] at short
  rw [parts]
  by_cases inLength : count < 8
  · have missing : Bytes.readNumber? 8 ((Bytes.ofNumber 8 payload.length).take count ++
        ((Bytes.ofNumber 4 (checksum payload).toNat).take (count - 8) ++
          payload.take (count - 12))) = none := by
      apply Bytes.read_number_short
      simp only [List.length_append, List.length_take, Bytes.of_number_length]
      omega
    refine ⟨.file .shortRead, ?_⟩
    simp only [openPayload, Bytes.readNumber, missing, bind, Except.bind]
  rw [List.take_of_length_le (by rw [Bytes.of_number_length]; omega)]
  by_cases inSum : count < 12
  · have length := Bytes.read_number_of_number 8 payload.length
      ((Bytes.ofNumber 4 (checksum payload).toNat).take (count - 8) ++
        payload.take (count - 12)) fits
    have missing : Bytes.readNumber? 4 ((Bytes.ofNumber 4 (checksum payload).toNat).take
        (count - 8) ++ payload.take (count - 12)) = none := by
      apply Bytes.read_number_short
      simp only [List.length_append, List.length_take, Bytes.of_number_length]
      omega
    refine ⟨.file .shortRead, ?_⟩
    simp only [openPayload, Bytes.readNumber, length, missing, bind, Except.bind]
  · rw [List.take_of_length_le (by rw [Bytes.of_number_length]; omega)]
    have length := Bytes.read_number_of_number 8 payload.length
      (Bytes.ofNumber 4 (checksum payload).toNat ++ payload.take (count - 12)) fits
    have sum := Bytes.read_number_of_number 4 (checksum payload).toNat
      (payload.take (count - 12)) (checksum payload).toNat_lt
    have cut : ((payload.take (count - 12)).take payload.length).length < payload.length := by
      simp only [List.length_take]
      omega
    simp only [openPayload, Bytes.readNumber, length, sum, bind, Except.bind, if_pos cut]
    exact ⟨_, rfl⟩

end Seal

end Artifact

end Chronicle

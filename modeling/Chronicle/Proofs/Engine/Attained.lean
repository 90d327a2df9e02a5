import Chronicle.Proofs.Engine.Retention
import Chronicle.Proofs.Engine.Search

/-!
Sessions that take in nothing but what engines have written. The blobs that are loaded and the
snapshots that are found hold series that there can be, so at every moment of a run all series
are such, stand under their own keys and are filed under their own labels.
-/

namespace Chronicle

def Series.Genuine (blob : Bytes) : Prop := ∀ series, ofBlob blob = .ok series → series.Attainable

theorem Series.genuine_to_blob {series : Series} (attainable : series.Attainable)
    (storable : series.Storable) : Genuine series.toBlob :=
  fun _ read => attainable.reread storable read

def Snapshot.Genuine (bytes : Bytes) : Prop := ∀ path series, ofBytes path bytes = .ok series →
  (series.map (·.key)).Nodup ∧ ∀ one ∈ series, one.Attainable

def Directory.Genuine (directory : Directory) : Prop :=
  directory.Every fun _ bytes => Snapshot.Genuine bytes

theorem Directory.Genuine.distinct {directory : Directory} (genuine : directory.Genuine) :
    directory.Distinct :=
  fun name bytes present path series read => (genuine name bytes present path series read).1

/-- That an operation takes in what an engine has written, and writes what words can hold. -/
def Operation.Genuine : Operation → Session → Prop
  | .load blob, _ => Series.Genuine blob
  | operation, session => operation.Storable session

namespace Session

variable {session after : Session}

/-- That all series of a session are ones that there can be, with an index over them that is
right, also after a snapshot is restored. -/
structure Genuine (session : Session) : Prop where
  coherent : session.Coherent
  attainable : session.engine.All Series.Attainable
  snapshots : session.directory.Genuine

theorem attainable_values (genuine : session.Genuine) :
    ∀ one ∈ session.engine.series.values, one.Attainable := by
  intro one member
  obtain ⟨entry, listed, rfl⟩ := List.mem_map.mp member
  exact genuine.attainable entry.1 entry.2 ((SortedMap.mem_entries_iff _ _ _).mp listed)

theorem directory_grow {accepted : List Accepted} (grow : Grow session accepted after) :
    after.directory = session.directory := by
  cases grow with
  | rejected | answered | vanished | created | fed => rfl
  | @wrote key old new _ _ _ written present taken =>
      have stored : (session.stored key new written).directory = session.directory := rfl
      apply deliveries_keep (motive := fun next => next.directory = session.directory) _ _ stored
      intro before next flush delivered same
      cases delivered <;> exact same

theorem directory_outcome {operation : Operation} (outcome : Outcome session operation after) :
    (∃ timestamp, operation = .snapshot timestamp ∧ after = session.saved timestamp) ∨
      after.directory = session.directory := by
  cases outcome with
  | saved timestamp => exact Or.inl ⟨timestamp, rfl, rfl⟩
  | grown grows growth =>
      apply Or.inr
      apply growth.keeps (motive := fun next => next.directory = session.directory) _ rfl
      intro before next written grow same
      exact (directory_grow grow).trans same
  | same | altered | removed | linked | cut | loaded | restored => exact Or.inr rfl

theorem all_replace_all {holds : Series → Prop} (engine : Engine) {series : List Series}
    (each : ∀ one ∈ series, holds one) : (engine.replaceAll series).All holds := by
  apply List.foldlRecOn (motive := fun next : Engine => next.All holds)
  · exact SortedMap.every_empty
  · intro next all one member
    exact SortedMap.every_insert all (each one member)

theorem attainable_outcome {operation : Operation} (outcome : Outcome session operation after)
    (given : operation.Genuine session) (genuine : session.Genuine) :
    after.engine.All Series.Attainable := by
  cases operation with
  | load blob =>
      cases outcome with
      | same => exact genuine.attainable
      | grown grows => exact nomatch grows
      | removed removes => exact nomatch removes
      | loaded read => exact SortedMap.every_insert genuine.attainable (given _ read)
  | restore =>
      cases outcome with
      | same => exact genuine.attainable
      | grown grows => exact nomatch grows
      | removed removes => exact nomatch removes
      | restored read =>
          obtain ⟨bytes, place, held, opened⟩ := Directory.every_newest genuine.snapshots read
          exact all_replace_all session.engine (held place _ opened).2
  | request | contains | keys | last | range | reverseRange | multiRange | lastOfMany | queryIndex
    | info | save | snapshot =>
      exact all_outcome Series.lasting_attainable outcome rfl genuine.attainable

theorem snapshots_outcome {operation : Operation} (outcome : Outcome session operation after)
    (given : operation.Genuine session) (genuine : session.Genuine) :
    after.directory.Genuine := by
  rcases directory_outcome outcome with ⟨timestamp, rfl, rfl⟩ | same
  · apply Directory.every_prune
    apply Directory.every_add_snapshot genuine.snapshots
    intro path series read
    rw [Snapshot.of_bytes_to_bytes given] at read
    obtain rfl := Except.ok.inj read
    exact ⟨Engine.distinct_values genuine.coherent.engine.named, attainable_values genuine⟩
  · rw [same]
    exact genuine.snapshots

theorem genuine_outcome {operation : Operation} (outcome : Outcome session operation after)
    (given : operation.Genuine session) (genuine : session.Genuine) : after.Genuine where
  coherent := by
    have storable : operation.Storable session := by
      cases operation with
      | load => trivial
      | _ => exact given
    exact coherent_outcome outcome storable genuine.coherent
  attainable := attainable_outcome outcome given genuine
  snapshots := snapshots_outcome outcome given genuine

def TakesGenuine : List Operation → Session → Prop
  | [], _ => True
  | operation :: later, session =>
      operation.Genuine session ∧ TakesGenuine later (session.step operation)

theorem genuine_run {operations : List Operation} (given : TakesGenuine operations session)
    (genuine : session.Genuine) : (session.run operations).Genuine := by
  induction operations generalizing session with
  | nil => exact genuine
  | cons operation later ih =>
      exact ih given.2 (genuine_outcome (outcome operation session) given.1 genuine)

/-- The sessions that an engine comes to in some run, if all blobs that it loads and all
snapshots that it finds are ones that an engine has saved. -/
def Attained (session : Session) : Prop :=
  ∃ config directory operations, Directory.Genuine directory ∧
    TakesGenuine operations (fresh config directory) ∧
    session = (fresh config directory).run operations

theorem genuine_attained (attained : session.Attained) : session.Genuine := by
  obtain ⟨config, directory, operations, snapshots, given, rfl⟩ := attained
  refine genuine_run given ⟨⟨Engine.coherent_empty config, snapshots.distinct⟩, ?_, snapshots⟩
  exact SortedMap.every_empty

end Session

end Chronicle

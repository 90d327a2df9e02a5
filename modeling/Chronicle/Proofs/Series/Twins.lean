import Chronicle.Proofs.Series.View

/-!
Encoding and chunk size make no difference that can be seen. Two series that were created
with the same settings but for these, and that were written to alike, keep chunks that begin
and end at different samples and drop them at different times. They have the same view all
along, so neither writers nor readers can tell one from the other.
-/

namespace Chronicle

/-- What may happen to two series: a write to both, or another chunk size for one. -/
inductive TwinStep where
  | add (timestamp : Timestamp) (value : Value) (override : Option DuplicatePolicy)
  | resizeLeft (bytes : Nat)
  | resizeRight (bytes : Nat)

namespace Series

def settled {α β : Type} (before : α) : Except Error (α × β) → α
  | .ok (after, _) => after
  | .error _ => before

def after (series : Series) (timestamp : Timestamp) (value : Value)
    (override : Option DuplicatePolicy) : Series :=
  settled series (series.add timestamp value override)

def resize (series : Series) (bytes : Nat) : Series :=
  match series.alter ⟨none, some bytes, none, none⟩ with
  | .ok changed => changed
  | .error _ => series

def answer (series : Series) (timestamp : Timestamp) (value : Value)
    (override : Option DuplicatePolicy) : Except Error Receipt :=
  (series.add timestamp value override).map fun (_, written) => written.receipt

end Series

def TwinStep.step (pair : Series × Series) : TwinStep → Series × Series
  | .add timestamp value override =>
      (pair.1.after timestamp value override, pair.2.after timestamp value override)
  | .resizeLeft bytes => (pair.1.resize bytes, pair.2)
  | .resizeRight bytes => (pair.1, pair.2.resize bytes)

namespace Series

variable {series left right : Series} {view : View}

/-- That two series answer alike to whatever is asked of them next. -/
structure Alike (left right : Series) : Prop where
  writes : ∀ timestamp value override,
    left.answer timestamp value override = right.answer timestamp value override
  reads : ∀ request, left.range request = right.range request
  last : left.lastSample = right.lastSample

def Twins (left right : Series) : Prop := ∃ view, left.Shows view ∧ right.Shows view

theorem answer_shown (shows : series.Shows view) (timestamp : Timestamp) (value : Value)
    (override : Option DuplicatePolicy) :
    series.answer timestamp value override =
      (view.add timestamp value override).map fun (_, receipt) => receipt :=
  (add_shown shows timestamp value override).answers

theorem alike_of_twins (twins : left.Twins right) : left.Alike right := by
  obtain ⟨view, leftShows, rightShows⟩ := twins
  constructor
  · intro timestamp value override
    rw [answer_shown leftShows, answer_shown rightShows]
  · intro request
    rw [range_shown leftShows, range_shown rightShows]
  · rw [last_shown leftShows, last_shown rightShows]

theorem settled_shown (shows : series.Shows view)
    {outcome : Except Error (Series × Written)} {expected : Except Error (View × Receipt)}
    (follows : Follows outcome expected) :
    (settled series outcome).Shows (settled view expected) := by
  cases follows with
  | refused => exact shows
  | taken _ showsAfter => exact showsAfter

theorem resize_shown (shows : series.Shows view) (bytes : Nat) :
    (series.resize bytes).Shows view := by
  unfold resize
  cases resized : series.alter ⟨none, some bytes, none, none⟩ with
  | error => exact shows
  | ok changed =>
      obtain ⟨runs, files, rfl⟩ := shows
      rw [alter_outcome resized]
      exact ⟨runs, files_altered files _, rfl⟩

theorem twins_step {pair : Series × Series} (twins : pair.1.Twins pair.2) (step : TwinStep) :
    (step.step pair).1.Twins (step.step pair).2 := by
  obtain ⟨view, leftShows, rightShows⟩ := twins
  cases step with
  | add timestamp value override =>
      have leftAfter := settled_shown leftShows (add_shown leftShows timestamp value override)
      have rightAfter := settled_shown rightShows (add_shown rightShows timestamp value override)
      exact ⟨_, leftAfter, rightAfter⟩
  | resizeLeft bytes => exact ⟨view, resize_shown leftShows bytes, rightShows⟩
  | resizeRight bytes => exact ⟨view, leftShows, resize_shown rightShows bytes⟩

theorem twins_after {pair : Series × Series} (twins : pair.1.Twins pair.2)
    (steps : List TwinStep) :
    (steps.foldl TwinStep.step pair).1.Twins (steps.foldl TwinStep.step pair).2 := by
  induction steps generalizing pair with
  | nil => exact twins
  | cons step later ih => exact ih (twins_step twins step)

theorem add_rules (series : Series) (rules : List Rule) :
    rules.foldl addRule series = { series with rules := series.rules ++ rules } := by
  induction rules generalizing series with
  | nil => simp
  | cons rule later ih =>
      rw [List.foldl_cons, ih]
      simp [addRule]

section Created

variable {key : String} {labels : Labels} {policy : DuplicatePolicy} {config : StoreConfig}

theorem created_shown (made : Series.new key labels policy config = .ok series)
    (rules : List Rule) :
    (rules.foldl addRule series).Shows ⟨[], config.retention, policy, rules,
      config.encoding = .uncompressed || config.compressedUpsert⟩ := by
  rw [add_rules, new_outcome made]
  exact ⟨[], { Store.files_new config with }, rfl⟩

/-- A series in either encoding is as good as one in the other, as long as its samples can be
rewritten: after any writes to both and any changes of their chunk sizes they answer alike. -/
theorem encoding_transparent {plainSize packedSize : Nat} {retention : Duration}
    {rewrites : Bool} {plain packed : Series}
    (madePlain : Series.new key labels policy ⟨.uncompressed, plainSize, retention, rewrites⟩ =
      .ok plain)
    (madePacked : Series.new key labels policy ⟨.compressed, packedSize, retention, true⟩ =
      .ok packed)
    (rules : List Rule) (steps : List TwinStep) :
    let pair := steps.foldl TwinStep.step (rules.foldl addRule plain, rules.foldl addRule packed)
    pair.1.Alike pair.2 := by
  have plainShows := created_shown madePlain rules
  have packedShows := created_shown madePacked rules
  exact alike_of_twins (twins_after ⟨_, plainShows, packedShows⟩ steps)

end Created

def unwritten (encoding : ChunkEncoding) (size : Nat) : Series :=
  ⟨"a", ∅, .sum, .new ⟨encoding, size, 10, true⟩, none, []⟩

/-- Writes behind, among and before what is stored, and chunk sizes that are and are not valid. -/
def changes : List TwinStep :=
  [.add 5 .zero none, .add 12 .zero none, .resizeRight 128, .add 7 .zero (some .block),
    .add 12 .zero none, .resizeLeft 65, .add 40 .zero none, .add 29 .zero none]

theorem encoding_transparent_changes :
    Series.new "a" ∅ .sum ⟨.uncompressed, 64, 10, true⟩ = .ok (unwritten .uncompressed 64) ∧
      Series.new "a" ∅ .sum ⟨.compressed, 4096, 10, true⟩ = .ok (unwritten .compressed 4096) ∧
      let rules := [Rule.mk "b" .avg 5 (.new .avg) none]
      let pair := changes.foldl TwinStep.step
        (rules.foldl addRule (unwritten .uncompressed 64),
          rules.foldl addRule (unwritten .compressed 4096))
      pair.1.Alike pair.2 := by
  have plain : Series.new "a" ∅ .sum ⟨.uncompressed, 64, 10, true⟩ =
      .ok (unwritten .uncompressed 64) := rfl
  have packed : Series.new "a" ∅ .sum ⟨.compressed, 4096, 10, true⟩ =
      .ok (unwritten .compressed 4096) := rfl
  exact ⟨plain, packed,
    encoding_transparent plain packed [Rule.mk "b" .avg 5 (.new .avg) none] changes⟩

end Series

end Chronicle

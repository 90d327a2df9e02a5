import Chronicle.Proofs.Store.Range
import Chronicle.Store.Range
import Mathlib.Logic.Function.Iterate

/-!
Feeds that are pulled, and a store read sample by sample. Whoever reads asks for one item at a
time, and the source keeps what it needs for the items after that. A source yields a feed if
its answers are the items of the feed, pull after pull, and nothing from the end of the feed
on. What a reader of a store yields is the read, be the store damaged or not.
-/

namespace Chronicle

/-- One pull: an item, or nothing at the end, and the state in which the source is then. -/
abbrev Pull (State : Type) := State → Option (Except Error Sample) × State

namespace Pull

variable {State : Type} (pull : Pull State)

def after (count : Nat) (state : State) : State := (fun state => (pull state).2)^[count] state

def Yields (state : State) (feed : Feed) : Prop :=
  ∀ count, (pull (pull.after count state)).1 = feed[count]?

variable {pull}

/-- It is enough to say what every state still has to give, and that a pull takes the first
item of that away. -/
theorem yields_of_left {left : State → Feed}
    (step : ∀ state, (pull state).1 = (left state).head? ∧
      left (pull state).2 = (left state).tail) (state : State) :
    pull.Yields state (left state) := by
  intro count
  induction count generalizing state with
  | zero =>
      rw [← List.head?_eq_getElem?]
      exact (step state).1
  | succ count ih =>
      have later := ih (pull state).2
      rw [(step state).2, List.getElem?_tail] at later
      exact later

theorem after_keeps {motive : State → Prop}
    (each : ∀ {state}, motive state → motive (pull state).2) (count : Nat) {state : State}
    (held : motive state) : motive (pull.after count state) := by
  induction count generalizing state with
  | zero => exact held
  | succ count ih => exact ih (each held)

end Pull

namespace Reader

theorem take_chunk_none {reverse : Bool} {chunks : List Chunk}
    (none : takeChunk reverse chunks = .none) : chunks = [] := by
  cases reverse with
  | false => simpa [takeChunk] using none
  | true => simpa [takeChunk] using none

def left (reader : Reader) : Feed :=
  (reader.current.filter reader.covers).map .ok ++
    Feed.ofChunks reader.span.reverse reader.covers
      (if reader.span.reverse then reader.chunks.reverse else reader.chunks)

theorem filter_drop_while (keep : Sample → Bool) (samples : List Sample) :
    samples.filter keep = match samples.dropWhile (!keep ·) with
      | [] => []
      | sample :: later => sample :: later.filter keep := by
  induction samples with
  | nil => rfl
  | cons sample later ih =>
      cases kept : keep sample with
      | true => simp [kept]
      | false => simpa [kept] using ih

theorem pull_left (reader : Reader) :
    reader.pull.1 = reader.left.head? ∧ reader.pull.2.left = reader.left.tail := by
  fun_induction pull reader with
  | case1 reader sample later found =>
      have kept := filter_drop_while reader.covers reader.current
      rw [found] at kept
      rw [left, kept]
      exact ⟨rfl, rfl⟩
  | case2 reader used none =>
      have kept := filter_drop_while reader.covers reader.current
      rw [used] at kept
      rw [left, kept, take_chunk_none none]
      cases reversed : reader.span.reverse <;> simp [left, reversed, Feed.ofChunks]
  | case3 reader used chunk others taken reason fault =>
      have kept := filter_drop_while reader.covers reader.current
      rw [used] at kept
      rw [left, kept, take_chunk_some taken, Feed.ofChunks, fault]
      cases reversed : reader.span.reverse <;> simp [left, reversed, Feed.ofChunks]
  | case4 reader used chunk others taken samples decoded ih =>
      -- the samples of the chunk are in hand now, which is no change of what is left
      have kept := filter_drop_while reader.covers reader.current
      rw [used] at kept
      have same : reader.left =
          left { reader with chunks := others, current := reader.span.order samples } := by
        rw [left, kept, take_chunk_some taken, Feed.ofChunks, decoded]
        rfl
      rw [same]
      exact ih

end Reader

namespace Store

variable {store : Store}

theorem seek_le (store : Store) (start : Timestamp) : store.seek start ≤ start := by
  unfold seek
  cases floor : store.chunks.floor? start with
  | none => exact UInt64.le_refl start
  | some found =>
      have reached := (SortedMap.floor?_some floor).2
      rwa [Std.isLE_compare] at reached

/-- The keys that are looked at are never asked for in the wrong order. -/
theorem bounds_ordered {span : Span} {low high : Timestamp}
    (bounded : store.bounds span = some (low, high)) : low ≤ high := by
  unfold bounds at bounded
  split at bounded
  · exact nomatch bounded
  · rename_i readable
    obtain ⟨rfl, rfl⟩ := Prod.mk.inj (Option.some.inj bounded)
    exact UInt64.le_trans (seek_le store _) (UInt64.not_lt.mp readable)

theorem reverse_visible (store : Store) (span : Span) :
    (store.visible span).reverse = span.reverse := by
  unfold visible
  split <;> rfl

theorem left_reader (store : Store) (span : Span) :
    (store.reader span).left = store.range span := by
  rw [Reader.left, reader, reverse_visible, range, bounds]
  by_cases hidden : (store.visible span).stop < (store.visible span).start
  · simp only [if_pos hidden]
    cases span.reverse <;> rfl
  · simp only [if_neg hidden]
    rfl

/-- A read, be it of a damaged store, yields sample by sample what it yields at once. -/
theorem reader_yields (store : Store) (span : Span) :
    Pull.Yields Reader.pull (store.reader span) (store.range span) := by
  rw [← left_reader]
  exact Pull.yields_of_left Reader.pull_left (store.reader span)

end Store

end Chronicle

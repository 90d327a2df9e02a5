import Chronicle.Store

/-!
Reading a span of a store. A read is the list of what it yields: samples in the
chosen direction, or an error after the last sample that could still be decoded. A reader
yields them one by one. It holds the chunks that it has not decoded yet and what is left of the
chunk in hand; it takes the next chunk, from the one end or the other, only when that is used
up, and passes over the samples outside its span.
-/

namespace Chronicle

abbrev Feed := List (Except Error Sample)

structure Span where
  start : Timestamp
  stop : Timestamp
  reverse : Bool
deriving DecidableEq

namespace Span

def always : Span := ⟨0, 0xffffffffffffffff, false⟩

def covers (span : Span) (timestamp : Timestamp) : Bool :=
  span.start <= timestamp && timestamp <= span.stop

def order (span : Span) (samples : List Sample) : List Sample :=
  if span.reverse then samples.reverse else samples

end Span

namespace Feed

/-- The samples of chunks that a test keeps. A chunk that cannot be decoded ends the
feed with its error. -/
def ofChunks (reverse : Bool) (keep : Sample → Bool) : List Chunk → Feed
  | [] => []
  | chunk :: later =>
      match chunk.samples with
      | .error error => [.error error]
      | .ok samples =>
          ((if reverse then samples.reverse else samples).filter keep).map .ok ++
            ofChunks reverse keep later

def collect (feed : Feed) : Except Error (List Sample) := feed.mapM id

end Feed

namespace Store

/-- The span that can be read: its start is not before the retention window. -/
def visible (store : Store) (span : Span) : Span :=
  if store.config.retention = 0 || store.isEmpty then span
  else
    let earliest := windowStart store.lastTimestamp store.config.retention
    { span with start := if span.start < earliest then earliest else span.start }

/-- Reads a span. Only the chunks that can hold a sample of it are decoded: from the
last one that begins at or before its start on. -/
def range (store : Store) (span : Span) : Feed :=
  let visible := store.visible span
  if visible.stop < visible.start then []
  else
    let seek := ((store.chunks.floor? visible.start).map (·.1)).getD visible.start
    let chunks := store.chunks.between seek visible.stop
    Feed.ofChunks span.reverse (fun sample => visible.covers sample.timestamp)
      (if span.reverse then chunks.reverse else chunks)

end Store

structure Reader where
  /-- The chunks that are not decoded yet, in the order of their keys. -/
  chunks : List Chunk
  /-- What is left of the chunk that was decoded last, in the direction of the read. -/
  current : List Sample
  span : Span

namespace Reader

def takeChunk (reverse : Bool) (chunks : List Chunk) : Option (Chunk × List Chunk) :=
  if reverse then chunks.getLast?.map fun chunk => (chunk, chunks.dropLast)
  else chunks.head?.map fun chunk => (chunk, chunks.tail)

theorem take_chunk_some {reverse : Bool} {chunks others : List Chunk} {chunk : Chunk}
    (taken : takeChunk reverse chunks = some (chunk, others)) :
    (if reverse then chunks.reverse else chunks) =
      chunk :: if reverse then others.reverse else others := by
  cases reverse with
  | false =>
      cases chunks with
      | nil => exact nomatch taken
      | cons first later =>
          obtain ⟨rfl, rfl⟩ := Prod.mk.inj (Option.some.inj taken)
          rfl
  | true =>
      obtain ⟨last, found, same⟩ := Option.map_eq_some_iff.mp taken
      obtain ⟨rfl, rfl⟩ := Prod.mk.inj same
      obtain ⟨front, rfl⟩ := List.getLast?_eq_some_iff.mp found
      simp

theorem length_take_chunk {reverse : Bool} {chunks others : List Chunk} {chunk : Chunk}
    (taken : takeChunk reverse chunks = some (chunk, others)) :
    others.length < chunks.length := by
  have parts := congrArg List.length (take_chunk_some taken)
  cases reverse <;> simp at parts <;> omega

def covers (reader : Reader) (sample : Sample) : Bool := reader.span.covers sample.timestamp

/-- The next sample of the span, or the fault of a chunk, behind which there is nothing. -/
def pull (reader : Reader) : Option (Except Error Sample) × Reader :=
  match reader.current.dropWhile (!reader.covers ·) with
  | sample :: later => (some (.ok sample), { reader with current := later })
  | [] =>
      match _taken : takeChunk reader.span.reverse reader.chunks with
      | none => (none, { reader with current := [] })
      | some (chunk, others) =>
          match chunk.samples with
          | .error reason => (some (.error reason), { reader with chunks := [], current := [] })
          | .ok samples =>
              pull { reader with chunks := others, current := reader.span.order samples }
termination_by reader.chunks.length
decreasing_by exact length_take_chunk _taken

end Reader

namespace Store

/-- Where a read begins to decode: at the last chunk that begins at or before its start. -/
def seek (store : Store) (start : Timestamp) : Timestamp :=
  ((store.chunks.floor? start).map (·.1)).getD start

/-- The least and the greatest key of the chunks that a read looks at; there are none if the
span has nothing that can be read. -/
def bounds (store : Store) (span : Span) : Option (Timestamp × Timestamp) :=
  if (store.visible span).stop < (store.visible span).start then none
  else some (store.seek (store.visible span).start, (store.visible span).stop)

def reader (store : Store) (span : Span) : Reader where
  chunks := match store.bounds span with
    | none => []
    | some (low, high) => store.chunks.between low high
  current := []
  span := store.visible span

end Store

end Chronicle

import Chronicle.Aggregation.Accumulator
import Chronicle.Aggregation.Bucket
import Chronicle.Bits.Buffer
import Chronicle.Bits.Stream
import Chronicle.Bytes
import Chronicle.Chunk
import Chronicle.Chunk.Compressed
import Chronicle.Chunk.Placement
import Chronicle.Codec.Checked
import Chronicle.Codec.Delta
import Chronicle.Codec.Window
import Chronicle.Compaction
import Chronicle.Daemon
import Chronicle.Daemon.CommandLine
import Chronicle.Daemon.FileTree
import Chronicle.Engine
import Chronicle.Engine.Action
import Chronicle.Engine.Keys
import Chronicle.Engine.Read
import Chronicle.Engine.Write
import Chronicle.Envelope
import Chronicle.Error
import Chronicle.Event
import Chronicle.Format
import Chronicle.Main
import Chronicle.Number.Binary64
import Chronicle.Number.Counter
import Chronicle.Number.Shortest
import Chronicle.Proofs.Aggregation.Aggregator
import Chronicle.Proofs.Aggregation.Bucket
import Chronicle.Proofs.Aggregation.Extremes
import Chronicle.Proofs.Aggregation.Fold
import Chronicle.Proofs.Aggregation.Intake
import Chronicle.Proofs.Aggregation.Runs
import Chronicle.Proofs.Aggregation.Textbook
import Chronicle.Proofs.Bits.Field
import Chronicle.Proofs.Bits.Inverse
import Chronicle.Proofs.Bits.Parse
import Chronicle.Proofs.Bits.Reader
import Chronicle.Proofs.Checksum
import Chronicle.Proofs.Chunk.Decoding
import Chronicle.Proofs.Chunk.Placement
import Chronicle.Proofs.Chunk.RoundTrip
import Chronicle.Proofs.Chunk.Run
import Chronicle.Proofs.Chunk.Size
import Chronicle.Proofs.Codec.Checked
import Chronicle.Proofs.Codec.Parts
import Chronicle.Proofs.Codec.RoundTrip
import Chronicle.Proofs.Compaction.Agreement
import Chronicle.Proofs.Compaction.Destination
import Chronicle.Proofs.Compaction.Rule
import Chronicle.Proofs.Compaction.Series
import Chronicle.Proofs.Compaction.Text
import Chronicle.Proofs.Engine.Accounting
import Chronicle.Proofs.Engine.Atomic
import Chronicle.Proofs.Engine.Attained
import Chronicle.Proofs.Engine.Balance
import Chronicle.Proofs.Engine.Coherence
import Chronicle.Proofs.Engine.Compaction
import Chronicle.Proofs.Engine.Confined
import Chronicle.Proofs.Engine.Counting
import Chronicle.Proofs.Engine.Creation
import Chronicle.Proofs.Engine.Effect
import Chronicle.Proofs.Engine.Fanout
import Chronicle.Proofs.Engine.Growth
import Chronicle.Proofs.Engine.Lasting
import Chronicle.Proofs.Engine.Linked
import Chronicle.Proofs.Engine.Links
import Chronicle.Proofs.Engine.MultiRange
import Chronicle.Proofs.Engine.OneHop
import Chronicle.Proofs.Engine.Operation
import Chronicle.Proofs.Engine.Outcome
import Chronicle.Proofs.Engine.Provision
import Chronicle.Proofs.Engine.Reading
import Chronicle.Proofs.Engine.Reply
import Chronicle.Proofs.Engine.Restore
import Chronicle.Proofs.Engine.Retention
import Chronicle.Proofs.Engine.Search
import Chronicle.Proofs.Engine.Shift
import Chronicle.Proofs.Engine.Total
import Chronicle.Proofs.Envelope
import Chronicle.Proofs.Format
import Chronicle.Proofs.Number.Difference
import Chronicle.Proofs.Query.Cursor
import Chronicle.Proofs.Query.Group
import Chronicle.Proofs.Query.Index
import Chronicle.Proofs.Query.Parse
import Chronicle.Proofs.Query.Text
import Chronicle.Proofs.Query.Tight
import Chronicle.Proofs.Series.Change
import Chronicle.Proofs.Series.Count
import Chronicle.Proofs.Series.Damage
import Chronicle.Proofs.Series.Extremes
import Chronicle.Proofs.Series.Format
import Chronicle.Proofs.Series.Mirror
import Chronicle.Proofs.Series.Retention
import Chronicle.Proofs.Series.Stepwise
import Chronicle.Proofs.Series.Twins
import Chronicle.Proofs.Series.View
import Chronicle.Proofs.Snapshot
import Chronicle.Proofs.Snapshot.Install
import Chronicle.Proofs.Snapshot.Newest
import Chronicle.Proofs.Snapshot.Order
import Chronicle.Proofs.SortedMap
import Chronicle.Proofs.Store.Append
import Chronicle.Proofs.Store.Budget
import Chronicle.Proofs.Store.Halves
import Chronicle.Proofs.Store.Invariant
import Chronicle.Proofs.Store.Origin
import Chronicle.Proofs.Store.Range
import Chronicle.Proofs.Store.Reader
import Chronicle.Proofs.Store.Refinement
import Chronicle.Proofs.Store.Runs
import Chronicle.Proofs.Store.Stepwise
import Chronicle.Proofs.Store.Upsert
import Chronicle.Proofs.Store.Window
import Chronicle.Proofs.Timeline
import Chronicle.Query.Cursor
import Chronicle.Query.Index
import Chronicle.Query.Predicate
import Chronicle.Query.Range
import Chronicle.Sample
import Chronicle.Series
import Chronicle.Series.Format
import Chronicle.Series.Readings
import Chronicle.Settings.Layer
import Chronicle.Settings.Scalar
import Chronicle.Settings.Table
import Chronicle.Settings.Toml
import Chronicle.Snapshot
import Chronicle.SortedMap
import Chronicle.Store
import Chronicle.Store.Range
import Chronicle.Text.Decimal
import Chronicle.Text.Lines
import Chronicle.Text.Utf8
import Chronicle.Trail

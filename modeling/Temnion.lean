import Temnion.Library.LittleEndian
import Temnion.Library.Fallible
import Temnion.Library.Reader
import Temnion.Core
import Temnion.Format.Codec
import Temnion.Format.RoundTrip
import Temnion.Index.Summary
import Temnion.Storage.Disk
import Temnion.Library.Batches
import Temnion.Storage.Log
import Temnion.Storage.Invariant
import Temnion.Storage.Recovery
import Temnion.Storage.Append
import Temnion.Storage.Seal
import Temnion.Storage.Retire
import Temnion.Library.Sweep
import Temnion.Storage.Reading
import Temnion.Storage.Run
import Temnion.Storage.KnownTime
import Temnion.Storage.Paging
import Temnion.Storage.Torn
import Temnion.Storage.Crash
import Temnion.Storage.Failure
import Temnion.Library.Dense
import Temnion.State.Handles
import Temnion.State.Reference
import Temnion.Library.Kahn
import Temnion.Library.Search
import Temnion.Causal.Graph
import Temnion.Causal.Registered
import Temnion.Causal.Order
import Temnion.Replay.Checkpoint
import Temnion.Replay.Engine
import Temnion.Storage.Reach
import Temnion.Replay.Exact
import Temnion.Replay.Determinism
import Temnion.Branch.Manifest
import Temnion.Branch.Manager
import Temnion.Branch.Timeline
import Temnion.Branch.Run
import Temnion.Branch.Partition
import Temnion.Branch.Saved
import Temnion.Branch.Restart
import Temnion.Branch.Isolation
import Temnion.Branch.Prefix
import Temnion.Library.Text
import Temnion.Query.Expression
import Temnion.Query.Syntax
import Temnion.Query.Boundary
import Temnion.Format.Canonical
import Temnion.Index.Hierarchy
import Temnion.Storage.Refusal
import Temnion.Adapter.Mirror
import Temnion.Codec.BitStream
import Temnion.Codec.Xor
import Temnion.Epistemic.TruthMaintenance
import Temnion.Epistemic.Cutoff
import Temnion.Epistemic.Retraction
import Temnion.Epistemic.Cycle
import Temnion.Library.UnionFind
import Temnion.Optimizer.EGraph
import Temnion.Optimizer.Growth
import Temnion.Optimizer.Rebuild
import Temnion.Optimizer.Saturate
import Temnion.Optimizer.Extract
import Temnion.Optimizer.Evaluation
import Temnion.Query.Plan
import Temnion.Storage.Outcome
import Temnion.Query.Rows
import Temnion.Optimizer.Plans
import Temnion.Query.Execution
import Temnion.Query.Frontends
import Temnion.Query.Sql
import Temnion.Protocol.Hub
import Temnion.Protocol.Dispatch
import Temnion.Protocol.Predicate
import Temnion.Protocol.Snapshot
import Temnion.Protocol.HandOver
import Temnion.Runtime.Tasks
import Temnion.Library.Sorting
import Temnion.Runtime.Shards
import Temnion.Protocol.Lossless
import Temnion.Causal.Csr
import Temnion.Library.Utf8
import Temnion.Storage.ManifestCodec
import Temnion.Protocol.Packet
import Temnion.Protocol.Payloads
import Temnion.Protocol.Clients
import Temnion.Format.Checksum
import Temnion.Protocol.Interop
import Temnion.Protocol.Connection
import Temnion.Protocol.Discipline
import Temnion.Protocol.Lifetime
import Temnion.Library.Listing
import Temnion.Storage.Backup
import Temnion.Storage.Restore
import Temnion.Branch.Walk
import Temnion.Evolution.Engine
import Temnion.Evolution.Run
import Temnion.Evolution.Promotion
import Temnion.Evolution.Rollback
import Temnion.Epistemic.Prediction
import Temnion.Query.Restrictions
import Temnion.Query.Limits
import Temnion.Mcp.Json
import Temnion.Mcp.RoundTrip
import Temnion.Mcp.Responses
import Temnion.Mcp.Server
import Temnion.Query.Display
import Temnion.Query.Reprint
import Temnion.Optimizer.Reprint
import Temnion.Epistemic.Conflict
import Temnion.Runtime.Tiers
import Temnion.Schemas.Catalog
import Temnion.Schemas.Mutation
import Temnion.Replay.Reducer
import Temnion.Codec.Rle
import Temnion.Codec.Packed
import Temnion.Codec.Robust
import Temnion.Daemon.Config
import Temnion.Storage.Atomic
import Temnion.Storage.Release
import Temnion.Storage.Summaries
import Temnion.Index.Morton
import Temnion.Index.Projection
import Temnion.Index.Intersection
import Temnion.Index.Spatial
import Temnion.Index.Reversed
import Temnion.Library.Trace
import Temnion.Causal.Acyclic
import Temnion.Causal.Trace
import Temnion.Causal.Pack
import Temnion.Query.Walk
import Temnion.Adapter.Action
import Temnion.Mcp.Tools
import Temnion.Library.Grammar
import Temnion.Query.Grammar
import Temnion.Query.Cursor
import Temnion.Epistemic.Exact
import Temnion.Epistemic.Tiers
import Temnion.Library.Countdown
import Temnion.Runtime.Capacity
import Temnion.Runtime.Schedule
import Temnion.Evolution.Stack
import Temnion.Optimizer.Congruence
import Temnion.Protocol.Columnar
import Temnion.Protocol.Phases
import Temnion.Flight.Frame
import Temnion.Index.ProjectionCodec
import Temnion.Schemas.Encoding
import Temnion.Replay.EntityMaps
import Temnion.Schemas.Position
import Temnion.Schemas.SchemaCodec
import Temnion.Schemas.Apply
import Temnion.Adapter.Connector
import Temnion.Branch.Faults
import Temnion.Index.SummaryCodec
import Temnion.Codec.Packing
import Temnion.Events.Log
import Temnion.Events.Pages
import Temnion.Codec.Scorer
import Temnion.Flight.Service
import Temnion.Storage.Registered
import Temnion.Storage.Reseal
import Temnion.Storage.Retention
import Temnion.Protocol.Handles
import Temnion.Events.Durable
import Temnion.Protocol.Stream
import Temnion.Adapter.Live
import Temnion.Mcp.Stdio

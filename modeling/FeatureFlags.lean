import FeatureFlags.Engine.Local
import FeatureFlags.Engine.Rotation
import FeatureFlags.Engine.Scripted
import FeatureFlags.Json.Reader
import FeatureFlags.Sticky.Coordinator
import FeatureFlags.Store.Cached
import FeatureFlags.Store.Lemmas
import FeatureFlags.Store.Memory
import FeatureFlags.Store.Switched
import FeatureFlags.Proofs.Materialization.Order
import FeatureFlags.Proofs.Resolution.Walk
import FeatureFlags.Proofs.Resolution.Stickiness
import FeatureFlags.Proofs.Fallible
import FeatureFlags.Proofs.OrderedSet
import FeatureFlags.Proofs.Targeting.Simplify
import FeatureFlags.Proofs.Snapshot.Checked
import FeatureFlags.Proofs.Resolution.Selection
import FeatureFlags.Proofs.Resolution.Request
import FeatureFlags.Proofs.Resolution.Reports
import FeatureFlags.Proofs.Sticky.Loading
import FeatureFlags.Proofs.Sticky.Rounds
import FeatureFlags.Proofs.Sticky.Convergence
import FeatureFlags.Proofs.Resolution.LongUnits
import FeatureFlags.Proofs.Sticky.OnDemand
import FeatureFlags.Proofs.Sticky.Progress
import FeatureFlags.Proofs.Sticky.Saving
import FeatureFlags.Proofs.Sticky.Calls
import FeatureFlags.Proofs.Sticky.Batches
import FeatureFlags.Proofs.Sticky.Exchange
import FeatureFlags.Proofs.Sticky.Protocol
import FeatureFlags.Proofs.Snapshot.Evaluation
import FeatureFlags.Proofs.Snapshot.Circles
import FeatureFlags.Proofs.Resolution.Failures
import FeatureFlags.Proofs.Snapshot.Reads
import FeatureFlags.Proofs.Resolution.Classes
import FeatureFlags.Proofs.Resolution.Coherence
import FeatureFlags.Proofs.Resolution.Reads
import FeatureFlags.Proofs.Resolution.Isolation
import FeatureFlags.Proofs.Resolution.Hidden
import FeatureFlags.Proofs.Decimal.Rounding
import FeatureFlags.Proofs.Decimal.Shortest
import FeatureFlags.Proofs.Json.Numbers
import FeatureFlags.Proofs.Json.ReadBack
import FeatureFlags.Proofs.Json.Records
import FeatureFlags.Proofs.Resolution.Sealing
import FeatureFlags.Proofs.Resolution.Deferred
import FeatureFlags.Proofs.Scalar.Interval
import FeatureFlags.Proofs.Targeting.Overlap
import FeatureFlags.Proofs.Targeting.Conflicts
import FeatureFlags.Proofs.Flag.Conformance
import FeatureFlags.Proofs.Flag.Partition
import FeatureFlags.Proofs.Snapshot.Acceptance
import FeatureFlags.Proofs.Snapshot.Walks
import FeatureFlags.Proofs.Engine.Runs
import FeatureFlags.Proofs.Engine.Local
import FeatureFlags.Proofs.Snapshot.Credentials
import FeatureFlags.Proofs.Engine.Refinement
import FeatureFlags.Proofs.Engine.Losses
import FeatureFlags.Proofs.Engine.Notes
import FeatureFlags.Proofs.Engine.Conservation
import FeatureFlags.Proofs.Engine.History
import FeatureFlags.Proofs.Store.Cache
import FeatureFlags.Proofs.Store.Transparency
import FeatureFlags.Proofs.Store.Races
import FeatureFlags.Proofs.Instant.Calendar
import FeatureFlags.Proofs.Instant.ReadBack
import FeatureFlags.Proofs.Instant.Loose
import FeatureFlags.Proofs.Version.ReadBack
import FeatureFlags.Proofs.Json.Levels
import FeatureFlags.Proofs.Json.Codecs
import FeatureFlags.Proofs.Scalar.Values
import FeatureFlags.Proofs.Scalar.Codecs
import FeatureFlags.Proofs.Targeting.Order
import FeatureFlags.Proofs.Targeting.Codecs
import FeatureFlags.Proofs.Flag.Codecs
import FeatureFlags.Proofs.Snapshot.RoundTrip
import FeatureFlags.Proofs.Scalar.Intersection
import FeatureFlags.Proofs.Targeting.Matching
import FeatureFlags.Proofs.Targeting.Reduction
import FeatureFlags.Proofs.Targeting.NormalForm
import FeatureFlags.Proofs.Targeting.SimplifierLaws
import FeatureFlags.Proofs.Scalar.Sets
import FeatureFlags.Proofs.Flag.Expansion
import FeatureFlags.Proofs.Store.Eviction
import FeatureFlags.Proofs.Scalar.Neighbours
import FeatureFlags.Proofs.Scalar.Gaps
import FeatureFlags.Proofs.Version.Precedence
import FeatureFlags.Proofs.Flag.Places
import FeatureFlags.Proofs.Context.Paths
import FeatureFlags.Proofs.Decimal.Order
import FeatureFlags.Proofs.Targeting.Numbers
import FeatureFlags.Proofs.Population.Buckets
import FeatureFlags.Proofs.Targeting.OwnValues

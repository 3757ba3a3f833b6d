import OceanFs.Auth.ScopeDate
import OceanFs.Cache.Entries
import OceanFs.Cache.Negative
import OceanFs.Cache.NegativeRuns
import OceanFs.Core.Clock
import OceanFs.Core.ClockRuns
import OceanFs.Core.Types
import OceanFs.Durability.Healing
import OceanFs.Durability.HintBatches
import OceanFs.Durability.HintDelivery
import OceanFs.Durability.HintObject
import OceanFs.Durability.HintWal
import OceanFs.Durability.Hints
import OceanFs.Durability.HintsKept
import OceanFs.Durability.IncrementalMerkle
import OceanFs.Durability.LateWrites
import OceanFs.Durability.MerkleDiff
import OceanFs.Durability.MerkleExchange
import OceanFs.Durability.MerkleProofs
import OceanFs.Durability.MerkleTree
import OceanFs.Durability.Reconcile
import OceanFs.Durability.ShardHealing
import OceanFs.Ec.Cauchy
import OceanFs.Ec.Gf
import OceanFs.Ec.Inverse
import OceanFs.Ec.KeptShards
import OceanFs.Ec.Recovery
import OceanFs.Ec.Simd
import OceanFs.Ec.Stripe
import OceanFs.Gc.CompactionRace
import OceanFs.Gc.CompactionRecovery
import OceanFs.Gc.Compactor
import OceanFs.Gc.Cycle
import OceanFs.Gc.DeletionLedger
import OceanFs.Grpc.SegmentService
import OceanFs.Handlers.Accounting
import OceanFs.Handlers.Admission
import OceanFs.Handlers.Get
import OceanFs.Handlers.Interleaving
import OceanFs.Handlers.Mutations
import OceanFs.Handlers.QuorumRead
import OceanFs.Handlers.ReadYourWrite
import OceanFs.Lib.Bloom
import OceanFs.Lib.Bytes
import OceanFs.Lib.CarryLess
import OceanFs.Lib.CasLoop
import OceanFs.Lib.CauchyCode
import OceanFs.Lib.FirstOccurrences
import OceanFs.Lib.Framing
import OceanFs.Lib.Gather
import OceanFs.Lib.GaussJordan
import OceanFs.Lib.LastWrite
import OceanFs.Lib.Lists
import OceanFs.Lib.MaxRegister
import OceanFs.Lib.Merkle
import OceanFs.Lib.Runs
import OceanFs.Lib.Slices
import OceanFs.Lib.SortedTable
import OceanFs.Lib.Text
import OceanFs.Membership.DeltaComplete
import OceanFs.Membership.FailureDetector
import OceanFs.Membership.Gossip
import OceanFs.Membership.InStep
import OceanFs.Membership.Manager
import OceanFs.Membership.RingAgrees
import OceanFs.Membership.SelfLiveness
import OceanFs.Metadata.Batch
import OceanFs.Metadata.DeadChunks
import OceanFs.Metadata.Keys
import OceanFs.Metadata.Rebuild
import OceanFs.Metadata.Store
import OceanFs.Metadata.SyncApply
import OceanFs.Pool.HealthMonitor
import OceanFs.Pool.Registry
import OceanFs.Read.Coordinator
import OceanFs.Read.Fetch
import OceanFs.Read.ReplicaFetch
import OceanFs.Read.Stored
import OceanFs.Read.Tiebreak
import OceanFs.Read.VerifiedGet
import OceanFs.Replication.Direct
import OceanFs.Replication.Transfer
import OceanFs.Routing.Membership
import OceanFs.Routing.OwnedRanges
import OceanFs.Routing.Ring
import OceanFs.Segment.CheckpointEquivalence
import OceanFs.Segment.CheckpointWritten
import OceanFs.Segment.Coordinator
import OceanFs.Segment.Coverage
import OceanFs.Segment.DamagedCheckpoint
import OceanFs.Segment.DatFile
import OceanFs.Segment.EntryFold
import OceanFs.Segment.EventCheckpoint
import OceanFs.Segment.EventLog
import OceanFs.Segment.EventRecord
import OceanFs.Segment.EventWal
import OceanFs.Segment.Lifecycle
import OceanFs.Segment.LogFold
import OceanFs.Segment.LogPositions
import OceanFs.Segment.ParitySection
import OceanFs.Segment.Refreshes
import OceanFs.Segment.Relocate
import OceanFs.Segment.RelocateCrash
import OceanFs.Segment.RelocateRepair
import OceanFs.Segment.Remount
import OceanFs.Segment.Repair
import OceanFs.Segment.RepairHonest
import OceanFs.Segment.RequestEffect
import OceanFs.Wal.Cleanup
import OceanFs.Wal.CrashResume
import OceanFs.Wal.Entry
import OceanFs.Wal.GroupCommit
import OceanFs.Wal.Reader
import OceanFs.Wal.Replay
import OceanFs.Write.Coordinator
import OceanFs.Write.FailedPut
import OceanFs.Write.Rows
import OceanFs.Write.Steps
import OceanFs.Write.World

import Nesso.Library.BigEndian
import Nesso.Library.Framing
import Nesso.Library.KeyedLog
import Nesso.Library.FileSystem
import Nesso.Library.Transition
import Nesso.Storage.Record
import Nesso.Storage.Checksum
import Nesso.Library.PriorityList
import Nesso.Storage.PriorityQueue
import Nesso.Storage.PriorityRefinement
import Nesso.Storage.CacheContract
import Nesso.Storage.PayloadCache
import Nesso.Storage.Wal
import Nesso.Storage.Engine
import Nesso.Log.Frames
import Nesso.Log.SegmentedLog
import Nesso.Log.Opening
import Nesso.Log.Compaction
import Nesso.Log.Payloads
import Nesso.Log.Generations
import Nesso.Log.Directories
import Nesso.Queue.Change
import Nesso.Queue.Conservation
import Nesso.Queue.System
import Nesso.Queue.ClientRuns
import Nesso.Queue.StoredPayloads
import Nesso.Queue.Serving
import Nesso.Queue.Placement
import Nesso.Queue.CompactionRuns
import Nesso.Queue.ExpirationWorker
import Nesso.Recovery.Replay
import Nesso.Recovery.Recover
import Nesso.Recovery.Live
import Nesso.Recovery.CrashPrefix
import Nesso.Recovery.Compaction
import Nesso.Recovery.Restarts
import Nesso.Recovery.PayloadSurvival
import Nesso.Recovery.Fifo
import Nesso.Recovery.FreshIds
import Nesso.Recovery.FailedUnlinks
import Nesso.Log.CompactionCrashes
import Nesso.Log.CleanupRestarts
import Nesso.Log.CrashAtomicity
import Nesso.Library.Threads
import Nesso.Library.Paths
import Nesso.Server.Queues
import Nesso.Server.LongPolling
import Nesso.Storage.GroupCommit
import Nesso.Commit.Protocol
import Nesso.Commit.Attribution
import Nesso.Storage.Scanners
import Nesso.Log.Appending
import Nesso.Log.TornTails
import Nesso.Log.Faithfulness
import Nesso.Recovery.ScannerAgreement
import Nesso.Recovery.AcceptedPushes
import Nesso.Recovery.FailedCalls
import Nesso.Recovery.LeaseExpiry
import Nesso.Recovery.LeaseDuration
import Nesso.Commit.Rotation
import Nesso.Storage.BitFlips
import Nesso.Log.CompactedSegment
import Nesso.Queue.IndexValidity
import Nesso.Queue.ReaderCache
import Nesso.Queue.ConcurrentPops
import Nesso.Library.Refinement
import Nesso.Library.WorkQueue
import Nesso.Queue.Mirror
import Nesso.Queue.EngineRefinement
import Nesso.Recovery.RestartRefinement
import Nesso.Server.Handlers
import Nesso.Server.QueueService
import Nesso.Queue.Linearization
import Nesso.Commit.Durability

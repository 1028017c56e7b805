import Govc.GoEffects
import Govc.ObjectModel
import Govc.GoMaps
import Govc.GoPaths
import Govc.GoFiles
import Govc.ObjectCodec
import Govc.ObjectIdentity
import Govc.ObjectStore
import Govc.StoreDurability
import Govc.RefStore
import Govc.RepositoryModel
import Govc.CommitExecution
import Govc.CommitContract
import Govc.AtomicTransaction
import Govc.GuardedRuns
import Govc.RepositoryIntegrity
import Govc.BranchIntegrity
import Govc.HistoryIntegrity
import Govc.TransactionIntegrity
import Govc.ReferentialIntegrity
import Govc.TransactionSteps
import Govc.StagingEffects
import Govc.TransactionIsolation
import Govc.PrepareProtocol
import Govc.LostUpdate
import Govc.ProtocolRefinement
import Govc.TransactionUndo
import Govc.TransactionLifecycle
import Govc.GoBinary
import Govc.WriteAheadLog
import Govc.WalRecovery
import Govc.GoSort
import Govc.LsmTable
import Govc.LsmStore
import Govc.LsmMap
import Govc.LsmCompaction
import Govc.LsmRecovery
import Govc.LsmDurability
import Govc.DeltaPacket
import Govc.DeltaCoder
import Govc.DeltaStore
import Govc.Ballots
import Govc.RaftNode
import Govc.RaftVoting
import Govc.BatchOverlay
import Govc.RaftLog
import Govc.RaftCommit
import Govc.RaftCompaction
import Govc.RaftRestart
import Govc.RingSuccessor
import Govc.HashRing
import Govc.GoLocks
import Govc.ReplicaSets
import Govc.ClusterModel
import Govc.ShardingManager
import Govc.FailoverManager
import Govc.ClusterEffects
import Govc.ManagerEffects
import Govc.ShardPlacement
import Govc.RepositoryCopies
import Govc.RepositoryConservation
import Govc.LexIntervals
import Govc.ShardLookup
import Govc.SingleLeader
import Govc.GoSlices
import Govc.Rbac
import Govc.ApiKeys
import Govc.AuthMiddleware
import Govc.ApiKeyAccess
import Govc.FilePathValidation
import Govc.DiskWrites
import Govc.JwtAuth
import Govc.TokenAccess
import Govc.RbacRuns
import Govc.RbacAccounts
import Govc.DatastoreModel
import Govc.UserIndexes
import Govc.RefIsolation
import Govc.DatastoreTransaction
import Govc.UnfinishedTransaction
import Govc.QueuedChanges
import Govc.TransactionQueue
import Govc.CommitPublishes
import Govc.ClusterLocks
import Govc.GarbageCollector
import Govc.RefCompareAndSwap
import Govc.CoreOperations
import Govc.FullTextIndex
import Govc.MergeLocks
import Govc.TreeOrder
import Govc.GoFrames
import Govc.ParallelRealities
import Govc.FileRefStore
import Govc.QueryEngine
import Govc.QueryAnswers
import Govc.TreeMerge
import Govc.LinkedWalks
import Govc.MergeBase
import Govc.MergeRecord
import Govc.PatchedCommits
import Govc.OptimizedStore
import Govc.WorktreeCheckouts
import Govc.RelativeRefs
import Govc.FileDiff
import Govc.SearchPages
import Govc.StagingFile
import Govc.DeltaCuts
import Govc.MemTableMerge
import Govc.MigrationQueue
import Govc.ConcurrentLimiter

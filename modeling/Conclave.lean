import Conclave.LogFilter
import Conclave.Report
import Conclave.Simulation
import Conclave.Wire.Codec
import Conclave.Proofs.ManagerMoves
import Conclave.Proofs.QuorumCounting
import Conclave.Proofs.ManagerCoherence
import Conclave.Proofs.PreparedLock
import Conclave.Proofs.Settling
import Conclave.Proofs.IntentOfRecords
import Conclave.Proofs.HonestRecords
import Conclave.Proofs.Ensemble
import Conclave.Proofs.Agreement
import Conclave.Proofs.ExecutorAlignment
import Conclave.Proofs.Completion
import Conclave.Proofs.ValidatorRuns
import Conclave.Proofs.SignatureEquivocation
import Conclave.Proofs.FaultyPeers
import Conclave.Proofs.SplitLock
import Conclave.Proofs.QueueRefinement
import Conclave.Proofs.ExecutorBeats
import Conclave.Proofs.CollectedSignatures
import Conclave.Proofs.StoredSignatures
import Conclave.Proofs.ChainIntegrity
import Conclave.Proofs.HeightLockstep
import Conclave.Proofs.ExecutorConsistency
import Conclave.Proofs.PendingBlock
import Conclave.Proofs.FailedFastSync
import Conclave.Proofs.RecomputeLimit
import Conclave.Proofs.Gossip
import Conclave.Proofs.SignatureHistory
import Conclave.Proofs.EventLog
import Conclave.Proofs.BuiltBlocks
import Conclave.Proofs.CatchUp
import Conclave.Proofs.WatchedEngine
import Conclave.Proofs.BuilderLifecycle
import Conclave.Proofs.WireRoundTrip
import Conclave.Proofs.Acceptance
import Conclave.Proofs.UnexpectedSenders
import Conclave.Proofs.ForceStop
import Conclave.Proofs.FastForward
import Conclave.Proofs.FastSyncTrigger
import Conclave.Proofs.CommitOutcome
import Conclave.Proofs.FastSyncBounds
import Conclave.Proofs.ViewChanges
import Conclave.Proofs.RevoltTiming
import Conclave.Proofs.BuildPolling
import Conclave.Proofs.BuildPause
import Conclave.Proofs.BuildBackoff
import Conclave.Proofs.BlockContents
import Conclave.Proofs.NetworkTraffic
import Conclave.Proofs.RevoltCounts
import Conclave.Proofs.FetchRequests
import Conclave.Proofs.PrimaryRotation

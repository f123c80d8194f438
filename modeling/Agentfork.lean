import Agentfork.Library.Dict
import Agentfork.Library.Transition
import Agentfork.Library.SparseFile
import Agentfork.Library.Raising
import Agentfork.Library.RadixForest
import Agentfork.Library.RadixWalk
import Agentfork.Library.PrefixSet
import Agentfork.Library.RadixTree
import Agentfork.Library.RadixEviction
import Agentfork.Kv.PrefixModel
import Agentfork.Library.RadixUpdate
import Agentfork.Kv.TreeCache
import Agentfork.Kv.Agreement
import Agentfork.Kv.AgreementSteps
import Agentfork.Kv.AgreementExtend
import Agentfork.Kv.TreeCacheSoundness
import Agentfork.Kv.VacuousEviction
import Agentfork.Orchestrator.Registry
import Agentfork.Orchestrator.Lifecycle
import Agentfork.Orchestrator.Calls
import Agentfork.Library.Ownership
import Agentfork.Orchestrator.Sections
import Agentfork.Orchestrator.TaskMoves
import Agentfork.Orchestrator.CallMoves
import Agentfork.Orchestrator.Discipline
import Agentfork.Orchestrator.Steps
import Agentfork.Orchestrator.Invariant
import Agentfork.Orchestrator.Marks
import Agentfork.Orchestrator.Journal
import Agentfork.Orchestrator.Drain
import Agentfork.Orchestrator.Recovery
import Agentfork.Firecracker.Sandbox
import Agentfork.Firecracker.Lifecycle
import Agentfork.Firecracker.Tracking
import Agentfork.Firecracker.NoUntrackedVmm
import Agentfork.Library.LockTree
import Agentfork.Library.LockEdits
import Agentfork.Library.LockCounts
import Agentfork.Sglang.RadixCache
import Agentfork.Sglang.TreeRadixCache
import Agentfork.Sglang.PinBalance
import Agentfork.Sglang.PinSteps
import Agentfork.Library.LockCache
import Agentfork.Sglang.ReferenceCache
import Agentfork.Sglang.PinRuns
import Agentfork.Sglang.Conservation
import Agentfork.Sglang.RequestPath
import Agentfork.Sglang.Quota
import Agentfork.Sglang.QuotaRuns
import Agentfork.Sglang.ServerRuns
import Agentfork.Sglang.Withdrawn
import Agentfork.Library.LockEvictions
import Agentfork.Sglang.OwnPages
import Agentfork.Sglang.OwnPagesRuns
import Agentfork.Sglang.Admission
import Agentfork.Kv.ExactAdmission
import Agentfork.Library.Disk
import Agentfork.Firecracker.Snapshots
import Agentfork.Firecracker.SnapshotCalls
import Agentfork.Firecracker.SnapshotSteps
import Agentfork.Firecracker.SnapshotIsolation
import Agentfork.Firecracker.BranchLocks
import Agentfork.Library.Holdings
import Agentfork.Firecracker.CallsEnd
import Agentfork.Firecracker.SnapshotCoherence
import Agentfork.Firecracker.SnapshotFreshness
import Agentfork.Firecracker.SiblingMemory
import Agentfork.Orchestrator.Leases
import Agentfork.Orchestrator.Collection
import Agentfork.Orchestrator.Counters
import Agentfork.Library.ProcessTree
import Agentfork.Kill.BranchReaper
import Agentfork.Kill.Backstop
import Agentfork.Library.Children
import Agentfork.Kill.ReaperCalls
import Agentfork.Kill.ReaperBooks
import Agentfork.Kill.ReaperAccounts
import Agentfork.Kill.ReaperEnds
import Agentfork.Kv.TransparentLookups
import Agentfork.Sglang.Namespaces
import Agentfork.Library.SharedMarks
import Agentfork.Sglang.HttpBackend
import Agentfork.Sglang.Exclusion
import Agentfork.Sglang.BranchRows
import Agentfork.Library.LaggingCopy
import Agentfork.Sglang.BranchAgreement
import Agentfork.Library.Digits
import Agentfork.Orchestrator.Reload
import Agentfork.Orchestrator.Control
import Agentfork.Orchestrator.Closing
import Agentfork.Orchestrator.FinalSweep
import Agentfork.Orchestrator.Completion
import Agentfork.Library.Succession
import Agentfork.Orchestrator.Handover
import Agentfork.Orchestrator.Background
import Agentfork.Orchestrator.BackgroundEnds
import Agentfork.Sglang.Backend
import Agentfork.Sglang.ReferenceBudget
import Agentfork.Kv.SameHoldings
import Agentfork.Library.PrefixUnions
import Agentfork.Kv.StatsLedger
import Agentfork.Orchestrator.ManagedCache
import Agentfork.Orchestrator.PlannedFork
import Agentfork.Orchestrator.ForkRun
import Agentfork.Library.Program
import Agentfork.Orchestrator.Alone
import Agentfork.Orchestrator.RegistryFile
import Agentfork.Orchestrator.KillLosers
import Agentfork.Orchestrator.Descent
import Agentfork.Firecracker.RecoveryKill
import Agentfork.Library.Sha256
import Agentfork.Firecracker.HostNames
import Agentfork.Library.IndexPool
import Agentfork.Firecracker.NetnsIndex
import Agentfork.Library.HostNetwork
import Agentfork.Library.ReferenceNetwork
import Agentfork.Firecracker.Wiring
import Agentfork.Firecracker.WiringRuns
import Agentfork.Library.Base64
import Agentfork.Library.Framing
import Agentfork.Firecracker.Vsock
import Agentfork.Firecracker.ExecChannel
import Agentfork.Firecracker.OneAnswer
import Agentfork.Firecracker.LineCuts
import Agentfork.Firecracker.OverlayCopy
import Agentfork.Library.RadixLeaves
import Agentfork.Bench.StockCache
import Agentfork.Bench.StockAccounts
import Agentfork.Bench.Pressure
import Agentfork.Bench.StockArm
import Agentfork.Bench.PinnedArm
import Agentfork.Bench.CostModel
import Agentfork.Kv.Sequences
import Agentfork.Orchestrator.LiveSequences
import Agentfork.Orchestrator.ForkRecords
import Agentfork.Orchestrator.Returning
import Agentfork.Orchestrator.Strays
import Agentfork.Library.Findall
import Agentfork.Harness.Candidates
import Agentfork.Harness.TreeAgent
import Agentfork.Harness.LedgerMirror
import Agentfork.Harness.Turns
import Agentfork.Harness.WinnersChain
import Agentfork.Harness.FanOut

import Agentfork.Orchestrator.Calls
import Agentfork.Orchestrator.Sections

/-! # What one section of a call can do

`InvokeMove` lists what the first section of a call may have done, and `AdvanceMove`
what a later one may have, each with what the section has found to do it. As with
the tasks, a fact about one section of a call is a case analysis of its move. -/

namespace Agentfork.Orchestrator

open Shared

/-! ## First sections -/

/-- Why a call ends in its first section with an exception. -/
inductive Refuses (config : Config) (env : Env) (shared : Shared) : Op → Fault → Shared → Prop where
  | createParent {branchId : BranchId} {tokens : List Nat} {lease : Option Int} {fault : Fault} {after : Shared}
    (raises : shared.admitParent config env.persist env.now branchId tokens lease = (.error fault, after)) :
    Refuses config env shared (.createParent branchId tokens lease) fault after
  | fork {parentId : BranchId} {n : Int} {childIds : Option (List BranchId)} {lease : Option Int} {fault : Fault}
    {after : Shared} (raises : shared.admitFork config env.persist env.now parentId n childIds lease = (.error fault, after)) :
    Refuses config env shared (.fork parentId n childIds lease) fault after
  | renewLease {branchId : BranchId} {lease : Int} {fault : Fault} {after : Shared}
    (raises : shared.renewLease config env.persist env.now branchId lease = (.error fault, after)) :
    Refuses config env shared (.renewLease branchId lease) fault after
  | killLosers {winnerId : BranchId} {fault : Fault} (isShut : shared.ensureOpen false = .error fault) :
    Refuses config env shared (.killLosers winnerId) fault shared
  | noWinner {winnerId : BranchId} (notLive : shared.isLive winnerId = false) :
    Refuses config env shared (.killLosers winnerId) (.keyError s!"no live branch: {winnerId}") shared
  | reapExpired {fault : Fault} (isShut : shared.ensureOpen false = .error fault) :
    Refuses config env shared .reapExpired fault shared
  | reconcile {fault : Fault} (isShut : shared.ensureOpen false = .error fault) :
    Refuses config env shared .reconcile fault shared

/-- The branches that a call sets out to kill in its first section, and those of them
that it kills for their lease. -/
inductive Victims (env : Env) (shared : Shared) : Op → List BranchId → List BranchId → Prop where
  | kill {branchId : BranchId} : Victims env shared (.kill branchId) [branchId] []
  | killLosers {winnerId : BranchId} (isOpen : shared.ensureOpen false = .ok ())
    (winnerLive : shared.isLive winnerId = true) :
    Victims env shared (.killLosers winnerId) (shared.losers winnerId) []
  | reapExpired (isOpen : shared.ensureOpen false = .ok ()) :
    Victims env shared .reapExpired (shared.expired env.now) []
  | reconcile (isOpen : shared.ensureOpen false = .ok ())
    (isOrder : env.order.Nodup ∧ env.order.toFinset = shared.loaded) :
    Victims env shared .reconcile
      (shared.stuck env.order ++ shared.expiredUnowned env.now (shared.stuck env.order))
      (shared.expiredUnowned env.now (shared.stuck env.order))

inductive InvokeMove (config : Config) (env : Env) (shared : Shared) : Op → Shared → Call → Prop where
  | refused {op : Op} {fault : Fault} {after : Shared} (refuses : Refuses config env shared op fault after)
    (quiet : Quiet shared after) : InvokeMove config env shared op after (ended op (.error fault))
  | createParent {branchId : BranchId} {tokens : List Nat} {lease : Option Int} {child : Branch} {after : Shared}
    (admits : shared.admitParent config env.persist env.now branchId tokens lease = (.ok child, after))
    (isRoot : child.branchId = branchId) (noParent : child.parentId = none) (journaled : Journaled config shared [child] after) :
    InvokeMove config env shared (.createParent branchId tokens lease) after
      ⟨.createParent branchId tokens lease, [startTask .kvStart tokens child], .fanOut, []⟩
  | fork {parentId : BranchId} {n : Int} {childIds : Option (List BranchId)} {lease : Option Int}
    {children : List Branch} {after : Shared}
    (admits : shared.admitFork config env.persist env.now parentId n childIds lease = (.ok children, after))
    (parentLive : shared.isLive parentId = true) (parents : ∀ child ∈ children, child.parentId = some parentId)
    (journaled : Journaled config shared children after) :
    InvokeMove config env shared (.fork parentId n childIds lease) after
      ⟨.fork parentId n childIds lease, children.map (startTask .queued []), .fanOut, []⟩
  | renewLease {branchId : BranchId} {lease : Int} {previous : Branch} (found : shared.branches.get? branchId = some previous)
    (renews : shared.renewLease config env.persist env.now branchId lease =
      (.ok { previous with leaseExpiresAt := some (env.now + lease) }, write config { shared with
        branches := shared.branches.insert branchId { previous with leaseExpiresAt := some (env.now + lease) } })) :
    InvokeMove config env shared (.renewLease branchId lease) (write config { shared with
        branches := shared.branches.insert branchId { previous with leaseExpiresAt := some (env.now + lease) } })
      (ended (.renewLease branchId lease) (.ok (.branch { previous with leaseExpiresAt := some (env.now + lease) })))
  | kills {op : Op} {victims expired : List BranchId} (listed : Victims env shared op victims expired) :
    InvokeMove config env shared op shared ⟨op, victims.map (killTask false), .fanOut, expired⟩
  | closed (isClosed : shared.closed = true) :
    InvokeMove config env shared .close shared (ended .close (.ok .none))
  | closing (notClosed : shared.closed = false) (isClosing : shared.closing = true) :
    InvokeMove config env shared .close shared ⟨.close, [], .awaitClosed, []⟩
  | closes (notClosed : shared.closed = false) (notClosing : shared.closing = false) :
    InvokeMove config env shared .close { shared with closing := true } ⟨.close, [], .draining, []⟩

theorem invoke_move {config : Config} {env : Env} {shared after : Shared} {op : Op} {call : Call}
    (invoked : invoke config env shared op = some (after, call)) : InvokeMove config env shared op after call := by
  unfold invoke at invoked
  cases op with
  | createParent branchId tokens lease =>
    simp only at invoked
    obtain ⟨fault, failed, raises, quiet⟩ | ⟨child, admitted, admits, isRoot, noParent, journaled⟩ :=
      admitParent_cases config env.persist env.now branchId tokens lease shared
    · rw [raises] at invoked
      cases invoked
      exact .refused (.createParent raises) quiet
    · rw [admits] at invoked
      cases invoked
      exact .createParent admits isRoot noParent journaled
  | fork parentId n childIds lease =>
    simp only at invoked
    obtain ⟨fault, failed, raises, quiet⟩ | ⟨children, admitted, admits, parentLive, parents, journaled⟩ :=
      admitFork_cases config env.persist env.now parentId n childIds lease shared
    · rw [raises] at invoked
      cases invoked
      exact .refused (.fork raises) quiet
    · rw [admits] at invoked
      cases invoked
      exact .fork admits parentLive parents journaled
  | kill branchId =>
    cases invoked
    exact .kills .kill
  | killLosers winnerId =>
    cases isOpen : shared.ensureOpen false with
    | error fault =>
      simp only [isOpen] at invoked
      cases invoked
      exact .refused (.killLosers isOpen) (Quiet.refl shared)
    | ok =>
      simp only [isOpen] at invoked
      split at invoked
      · next notLive =>
        cases invoked
        exact .refused (.noWinner notLive) (Quiet.refl shared)
      · next winnerLive =>
        cases invoked
        exact .kills (.killLosers isOpen (by simpa using winnerLive))
  | renewLease branchId lease =>
    simp only at invoked
    obtain ⟨fault, failed, raises, quiet⟩ | ⟨previous, found, renews⟩ :=
      renewLease_cases config env.persist env.now branchId lease shared
    · rw [raises] at invoked
      cases invoked
      exact .refused (.renewLease raises) quiet
    · rw [renews] at invoked
      cases invoked
      exact .renewLease found renews
  | reapExpired =>
    cases isOpen : shared.ensureOpen false with
    | error fault =>
      simp only [isOpen] at invoked
      cases invoked
      exact .refused (.reapExpired isOpen) (Quiet.refl shared)
    | ok =>
      simp only [isOpen] at invoked
      cases invoked
      exact .kills (.reapExpired isOpen)
  | reconcile =>
    cases isOpen : shared.ensureOpen false with
    | error fault =>
      simp only [isOpen] at invoked
      cases invoked
      exact .refused (.reconcile isOpen) (Quiet.refl shared)
    | ok =>
      simp only [isOpen] at invoked
      split at invoked
      · next isOrder =>
        cases invoked
        exact .kills (.reconcile isOpen isOrder)
      · cases invoked
  | close =>
    simp only at invoked
    split at invoked
    · next isClosed =>
      cases invoked
      exact .closed isClosed
    · next notClosed =>
      split at invoked
      · next isClosing =>
        cases invoked
        exact .closing (by simpa using notClosed) isClosing
      · next notClosing =>
        cases invoked
        exact .closes (by simpa using notClosed) (by simpa using notClosing)

/-! ## Later sections -/

namespace Call

/-- What follows a fan-out, given the exception it raises: the answer of the op and
the counters it keeps. -/
inductive FanOutMove (shared : Shared) (call : Call) : Option Fault → Shared → Call → Prop where
  | raised {fault : Fault} (notReconcile : call.op ≠ .reconcile) (notClose : call.op ≠ .close) :
    FanOutMove shared call (some fault) shared (call.finish (.error fault))
  | reconcileRaised {fault : Fault} (isOp : call.op = .reconcile) :
    FanOutMove shared call (some fault)
      { shared with metrics := { shared.metrics with reconciles := shared.metrics.reconciles + 1 } }
      (call.finish (.error fault))
  | closeRaised {fault : Fault} (isOp : call.op = .close) :
    FanOutMove shared call (some fault) { shared with closed := true, closing := false } (call.finish (.error fault))
  | started {branchId : BranchId} {tokens : List Nat} {lease : Option Int}
    (isOp : call.op = .createParent branchId tokens lease) :
    FanOutMove shared call none shared (call.finish (.ok ((call.items.findSome? Task.branch?).elim .none .branch)))
  | forked {parentId : BranchId} {n : Int} {childIds : Option (List BranchId)} {lease : Option Int}
    (isOp : call.op = .fork parentId n childIds lease) :
    FanOutMove shared call none
      { shared with metrics := { shared.metrics with
        forks := shared.metrics.forks + (call.items.filterMap Task.branch?).length } }
      (call.finish (.ok (.branches (call.items.filterMap Task.branch?))))
  | killed {branchId : BranchId} (isOp : call.op = .kill branchId) :
    FanOutMove shared call none shared (call.finish (.ok (call.receipts.head?.elim .none .receipt)))
  | sweeps {winnerId : BranchId} (isOp : call.op = .killLosers winnerId) :
    FanOutMove shared call none shared
      { call with stage := .sweep (byBranch call.receipts) (call.items.map Task.branchId) }
  | renewed {branchId : BranchId} {lease : Int} (isOp : call.op = .renewLease branchId lease) :
    FanOutMove shared call none shared (call.finish (.ok .none))
  | reaped (isOp : call.op = .reapExpired) :
    FanOutMove shared call none
      { shared with metrics := { shared.metrics with reapedExpired := shared.metrics.reapedExpired +
          (call.receipts.filter KillReceipt.reaped).length } }
      (call.finish (.ok (.receipts call.receipts)))
  | reconciled (isOp : call.op = .reconcile) :
    FanOutMove shared call none
      { shared with metrics := { shared.metrics with reconciles := shared.metrics.reconciles + 1 } }
      { call with stage := .tally call.receipts }
  | closed (isOp : call.op = .close) :
    FanOutMove shared call none { shared with closed := true, closing := false } (call.finish (.ok .none))

/-- One turn of the loop of `kill_losers`. -/
inductive SweepMove (shared : Shared) (call : Call) (receipts : Dict BranchId KillReceipt) : List BranchId → Call → Prop where
  | ends : SweepMove shared call receipts [] (call.finish (.ok (.receipts receipts.values)))
  | reaped {branchId : BranchId} {pending : List BranchId}
    (isReaped : (receipts.get? branchId).any KillReceipt.reaped = true) :
    SweepMove shared call receipts (branchId :: pending) { call with stage := .sweep receipts pending }
  | gone {branchId : BranchId} {pending : List BranchId} (unrecorded : branchId ∉ shared.branches) :
    SweepMove shared call receipts (branchId :: pending) { call with stage := .sweep receipts pending }
  | waits {branchId : BranchId} {pending : List BranchId} (marked : branchId ∈ shared.spawning ∨ branchId ∈ shared.killing) :
    SweepMove shared call receipts (branchId :: pending) call
  | killsAgain {branchId : BranchId} {pending : List BranchId} (recorded : branchId ∈ shared.branches)
    (free : ¬(branchId ∈ shared.spawning ∨ branchId ∈ shared.killing)) :
    SweepMove shared call receipts (branchId :: pending) { call with
      items := call.items ++ [killTask false branchId]
      stage := .retry receipts (branchId :: pending) }

inductive AdvanceMove (config : Config) (shared : Shared) (call : Call) : Shared → Call → Prop where
  | fanOut {fault : Option Fault} {after : Shared} {next : Call} (atStage : call.stage = .fanOut)
    (ended : call.fanOutEnded config = true) (isFault : fanOutFault call.items = fault)
    (move : FanOutMove shared call fault after next) : AdvanceMove config shared call after next
  | tally {receipts : List KillReceipt} (atStage : call.stage = .tally receipts) :
    AdvanceMove config shared call
      { shared with metrics := { shared.metrics with reapedExpired := shared.metrics.reapedExpired +
          (receipts.filter fun receipt => receipt.reaped && decide (receipt.branchId ∈ call.expired)).length } }
      (call.finish (.ok (.receipts receipts)))
  | sweep {receipts : Dict BranchId KillReceipt} {pending : List BranchId} {next : Call}
    (atStage : call.stage = .sweep receipts pending) (move : SweepMove shared call receipts pending next) :
    AdvanceMove config shared call shared next
  | retryRaised {receipts : Dict BranchId KillReceipt} {pending : List BranchId} {task : Task} {fault : Fault}
    (atStage : call.stage = .retry receipts pending) (isLast : call.items.getLast? = some task)
    (faulted : task.fault? = some fault) : AdvanceMove config shared call shared (call.finish (.error fault))
  | retried {receipts : Dict BranchId KillReceipt} {pending : List BranchId} {task : Task} {receipt : KillReceipt}
    (atStage : call.stage = .retry receipts pending) (isLast : call.items.getLast? = some task)
    (noFault : task.fault? = none) (isReceipt : task.receipt? = some receipt) :
    AdvanceMove config shared call shared
      { call with stage := .sweep (receipts.insert receipt.branchId receipt) pending }
  | drained (atStage : call.stage = .draining) (noMarks : shared.spawning = ∅ ∧ shared.killing = ∅) :
    AdvanceMove config shared call shared
      { call with items := call.items ++ shared.branches.keys.map (killTask true), stage := .fanOut }
  | follows (atStage : call.stage = .awaitClosed) (isClosed : shared.closed = true) :
    AdvanceMove config shared call shared (call.finish (.ok .none))

theorem afterFanOut_move (shared : Shared) (call : Call) (fault : Option Fault) :
    FanOutMove shared call fault (call.afterFanOut shared fault).1 (call.afterFanOut shared fault).2 := by
  unfold afterFanOut
  cases fault with
  | some fault =>
    cases isOp : call.op with
    | reconcile => exact .reconcileRaised isOp
    | close => exact .closeRaised isOp
    | createParent | fork | kill | killLosers | renewLease | reapExpired =>
      exact .raised (by rw [isOp]; nofun) (by rw [isOp]; nofun)
  | none =>
    cases isOp : call.op with
    | createParent =>
      have move : FanOutMove shared call none shared _ := .started isOp
      cases started : call.items.findSome? Task.branch? with
      | none => rwa [started] at move
      | some branch => rwa [started] at move
    | fork => exact .forked isOp
    | kill =>
      have move : FanOutMove shared call none shared _ := .killed isOp
      cases received : call.receipts.head? with
      | none => rwa [received] at move
      | some receipt => rwa [received] at move
    | killLosers =>
      have move : FanOutMove shared call none shared _ := .sweeps isOp
      rwa [isOp] at move
    | renewLease => exact .renewed isOp
    | reapExpired => exact .reaped isOp
    | reconcile =>
      have move : FanOutMove shared call none _ _ := .reconciled isOp
      rwa [isOp] at move
    | close => exact .closed isOp

theorem sweepNext_move (shared : Shared) (call : Call) (receipts : Dict BranchId KillReceipt) (pending : List BranchId) :
    SweepMove shared call receipts pending (call.sweepNext shared receipts pending) := by
  unfold sweepNext
  cases pending with
  | nil => exact .ends
  | cons branchId pending =>
    simp only
    split
    · next isReaped => exact .reaped isReaped
    · split
      · next unrecorded => exact .gone unrecorded
      · next recorded =>
        split
        · next marked => exact .waits marked
        · next free => exact .killsAgain (not_not.1 recorded) free

theorem advance_move {config : Config} {shared after : Shared} {call next : Call}
    (advanced : call.advance config shared = some (after, next)) : AdvanceMove config shared call after next := by
  unfold advance at advanced
  cases atStage : call.stage with
  | fanOut =>
    simp only [atStage] at advanced
    split at advanced
    · next ended =>
      have move := afterFanOut_move shared call (fanOutFault call.items)
      rw [Option.some.inj advanced] at move
      exact .fanOut atStage ended rfl move
    · cases advanced
  | tally receipts =>
    simp only [atStage] at advanced
    cases advanced
    exact .tally atStage
  | sweep receipts pending =>
    simp only [atStage] at advanced
    cases advanced
    exact .sweep atStage (sweepNext_move shared call receipts pending)
  | retry receipts pending =>
    simp only [atStage] at advanced
    cases isLast : call.items.getLast? with
    | none =>
      rw [isLast] at advanced
      cases advanced
    | some task =>
      simp only [isLast] at advanced
      split at advanced
      · next faulted =>
        cases advanced
        exact .retryRaised atStage isLast faulted
      · next noFault isReceipt =>
        cases advanced
        exact .retried atStage isLast noFault isReceipt
      · cases advanced
  | draining =>
    simp only [atStage] at advanced
    split at advanced
    · next noMarks =>
      cases advanced
      exact .drained atStage noMarks
    · cases advanced
  | awaitClosed =>
    simp only [atStage] at advanced
    split at advanced
    · next isClosed =>
      cases advanced
      exact .follows atStage isClosed
    · cases advanced
  | finished outcome =>
    simp only [atStage] at advanced
    cases advanced

/-- A call that has ended stays so. -/
theorem advance_unfinished {config : Config} {shared after : Shared} {call next : Call}
    (advanced : call.advance config shared = some (after, next)) (outcome : Except Fault Value) :
    call.stage ≠ .finished outcome := by
  intro isFinished
  simp only [advance, isFinished] at advanced
  cases advanced

end Call

end Agentfork.Orchestrator

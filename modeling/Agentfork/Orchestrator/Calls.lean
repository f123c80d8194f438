import Agentfork.Orchestrator.Lifecycle

/-! # The orchestrator as a transition system

Any number of threads call the public methods. A call owns the tasks that its
fan-out runs, one for each branch, and advances itself by the sections between
them. A step invokes a call, advances one task or advances one call.

A background reaper is one more thread that calls `reconcile` and `kill`. -/

namespace Agentfork.Orchestrator

inductive Op where
  | createParent (branchId : BranchId) (tokens : List Nat) (lease : Option Int)
  | fork (parentId : BranchId) (n : Int) (childIds : Option (List BranchId)) (lease : Option Int)
  | kill (branchId : BranchId)
  | killLosers (winnerId : BranchId)
  | renewLease (branchId : BranchId) (lease : Int)
  | reapExpired
  | reconcile
  | close
  deriving DecidableEq, Repr

inductive Value where
  | branch (branch : Branch)
  | branches (branches : List Branch)
  | receipt (receipt : KillReceipt)
  | receipts (receipts : List KillReceipt)
  | none
  deriving DecidableEq, Repr

inductive Stage where
  /-- inside `_fan_out`, or inside the only task of the call -/
  | fanOut
  /-- `reconcile` between its two counters -/
  | tally (receipts : List KillReceipt)
  /-- `kill_losers` before it looks at the next loser -/
  | sweep (receipts : Dict BranchId KillReceipt) (pending : List BranchId)
  /-- `kill_losers` inside a second kill of the first loser pending -/
  | retry (receipts : Dict BranchId KillReceipt) (pending : List BranchId)
  /-- `close` waits for the marks to go -/
  | draining
  /-- `close` waits for another `close` -/
  | awaitClosed
  | finished (outcome : Except Fault Value)

structure Call where
  op : Op
  items : List Task
  stage : Stage
  /-- the ids that `reconcile` collects for their lease -/
  expired : List BranchId

namespace Call

def isOver (call : Call) : Bool :=
  match call.stage with
  | .finished _ => true
  | _ => false

/-- `_fan_out` uses a thread pool. -/
def threaded (config : Config) (call : Call) : Bool :=
  config.parallelLifecycle && decide (1 < call.items.length)

end Call

structure State where
  shared : Shared
  calls : List Call

inductive Action where
  | invoke (op : Op) (env : Env)
  | item (call i : Nat) (env : Env)
  | advance (call : Nat)
  deriving DecidableEq

/-! ## Fan-out -/

namespace Task

/-- The exception with which a task has ended. -/
def fault? : Task → Option Fault
  | .start ⟨_, _, _, .finished (.error fault)⟩ => some fault
  | .kill ⟨_, _, .finished (.error fault)⟩ => some fault
  | _ => none

def branch? : Task → Option Branch
  | .start ⟨_, _, _, .finished (.ok branch)⟩ => some branch
  | _ => none

def receipt? : Task → Option KillReceipt
  | .kill ⟨_, _, .finished (.ok receipt)⟩ => some receipt
  | _ => none

/-- The task has ended with an exception that the fan-out does not catch. -/
def aborts (task : Task) : Bool := task.fault?.any fun fault => !fault.ordinary

end Task

namespace Call

def maxFanoutThreads : Nat := 8

/-- A queued task may be taken up: by a free worker in the order of submission,
or when the loop over the items has come to it. -/
def mayStart (config : Config) (call : Call) (i : Nat) : Bool :=
  match call.stage with
  | .fanOut =>
    if call.threaded config then
      (call.items.take i).all (fun task => !task.queued) &&
        decide (((call.items.take i).filter fun task => !task.finished).length < maxFanoutThreads)
    else (call.items.take i).all fun task => task.finished && !task.aborts
  | .retry _ _ => true
  | _ => false

/-- One step of a task of a running call. -/
def stepItem (config : Config) (env : Env) (shared : Shared) (call : Call) (i : Nat) :
    Option (Shared × Call) :=
  match call.items[i]? with
  | none => none
  | some task =>
    if call.isOver || (task.queued && !call.mayStart config i) then none
    else (task.step config env shared).map fun (shared, task) =>
      (shared, { call with items := call.items.set i task })

/-- The loop over the items has ended, be it by an exception it does not catch.
A pool waits for all of its tasks in any case. -/
def fanOutEnded (config : Config) (call : Call) : Bool :=
  call.items.all Task.finished ||
    (!call.threaded config && call.items.any Task.aborts)

/-- The exception that `_fan_out` raises: one that it does not catch, else the
first one that it has caught. -/
def fanOutFault (items : List Task) : Option Fault :=
  match (items.find? Task.aborts).bind Task.fault? with
  | some fault => some fault
  | none => items.findSome? Task.fault?

end Call

/-! ## Invocation -/

namespace Shared

/-- The winner and its recorded ancestors. -/
def kept (branches : Dict BranchId Branch) : Nat → List BranchId → Option BranchId → List BranchId
  | 0, keep, _ => keep
  | _, keep, none => keep
  | fuel + 1, keep, some cursor =>
    if cursor ∈ keep then keep
    else kept branches fuel (keep ++ [cursor]) ((branches.get? cursor).bind Branch.parentId)

/-- The chain has no more links than there are records, and one id that names none. -/
def losers (shared : Shared) (winnerId : BranchId) : List BranchId :=
  let keep := kept shared.branches (shared.branches.entries.length + 1) [] (some winnerId)
  shared.branches.keys.filter fun branchId => branchId ∉ keep

def lapsed (now : Int) (branch : Branch) : Bool :=
  branch.leaseExpiresAt.any fun expiry => expiry ≤ now

/-- The candidates of `reap_expired`. -/
def expired (now : Int) (shared : Shared) : List BranchId :=
  (shared.branches.values.filter fun branch =>
    lapsed now branch && decide (branch.branchId ∉ shared.spawning)).map Branch.branchId

/-- No call of this process works on the branch. -/
def unowned (shared : Shared) (branchId : BranchId) : Bool :=
  decide (branchId ∉ shared.spawning ∧ branchId ∉ shared.killing)

/-- The candidates of `reconcile` that are not collected for their lease. -/
def stuck (order : List BranchId) (shared : Shared) : List BranchId :=
  let midway := (shared.branches.values.filter fun branch =>
    decide (branch.state ≠ .live) && shared.unowned branch.branchId).map Branch.branchId
  midway ++ order.filter fun branchId => decide (branchId ∉ midway) && shared.unowned branchId

/-- The candidates of `reconcile` that are. -/
def expiredUnowned (now : Int) (stuck : List BranchId) (shared : Shared) : List BranchId :=
  (shared.branches.values.filter fun branch => lapsed now branch &&
    shared.unowned branch.branchId && decide (branch.branchId ∉ stuck)).map Branch.branchId

end Shared

def killTask (allowClosing : Bool) (branchId : BranchId) : Task := .kill ⟨branchId, allowClosing, .queued⟩

def startTask (phase : StartPhase) (tokens : List Nat) (branch : Branch) : Task :=
  .start ⟨branch.branchId, branch.parentId, tokens, phase⟩

/-- A call that ends in its first section. -/
def ended (op : Op) (outcome : Except Fault Value) : Call := ⟨op, [], .finished outcome, []⟩

/-- The first section of a call; `none` if the set order offered is none. -/
def invoke (config : Config) (env : Env) (shared : Shared) (op : Op) : Option (Shared × Call) :=
  match op with
  | .createParent branchId tokens lease =>
    match shared.admitParent config env.persist env.now branchId tokens lease with
    | (.error fault, shared) => some (shared, ended op (.error fault))
    | (.ok branch, shared) => some (shared, ⟨op, [startTask .kvStart tokens branch], .fanOut, []⟩)
  | .fork parentId n childIds lease =>
    match shared.admitFork config env.persist env.now parentId n childIds lease with
    | (.error fault, shared) => some (shared, ended op (.error fault))
    | (.ok children, shared) => some (shared, ⟨op, children.map (startTask .queued []), .fanOut, []⟩)
  | .kill branchId => some (shared, ⟨op, [killTask false branchId], .fanOut, []⟩)
  | .killLosers winnerId =>
    match shared.ensureOpen false with
    | .error fault => some (shared, ended op (.error fault))
    | .ok () =>
      if shared.isLive winnerId = false then
        some (shared, ended op (.error (.keyError s!"no live branch: {winnerId}")))
      else some (shared, ⟨op, (shared.losers winnerId).map (killTask false), .fanOut, []⟩)
  | .renewLease branchId lease =>
    match shared.renewLease config env.persist env.now branchId lease with
    | (.error fault, shared) => some (shared, ended op (.error fault))
    | (.ok branch, shared) => some (shared, ended op (.ok (.branch branch)))
  | .reapExpired =>
    match shared.ensureOpen false with
    | .error fault => some (shared, ended op (.error fault))
    | .ok () => some (shared, ⟨op, (shared.expired env.now).map (killTask false), .fanOut, []⟩)
  | .reconcile =>
    match shared.ensureOpen false with
    | .error fault => some (shared, ended op (.error fault))
    | .ok () =>
      if env.order.Nodup ∧ env.order.toFinset = shared.loaded then
        let stuck := shared.stuck env.order
        let expired := shared.expiredUnowned env.now stuck
        some (shared, ⟨op, (stuck ++ expired).map (killTask false), .fanOut, expired⟩)
      else none
  | .close =>
    if shared.closed then some (shared, ended op (.ok .none))
    else if shared.closing then some (shared, ⟨op, [], .awaitClosed, []⟩)
    else some ({ shared with closing := true }, ⟨op, [], .draining, []⟩)

/-! ## The later sections of a call -/

namespace Call

def finish (call : Call) (outcome : Except Fault Value) : Call := { call with stage := .finished outcome }

def receipts (call : Call) : List KillReceipt := call.items.filterMap Task.receipt?

def byBranch (receipts : List KillReceipt) : Dict BranchId KillReceipt :=
  receipts.foldl (fun dict receipt => dict.insert receipt.branchId receipt) .empty

/-- What follows the fan-out of a call, given the exception it raises. -/
def afterFanOut (shared : Shared) (call : Call) : Option Fault → Shared × Call
  | some fault =>
    match call.op with
    | .reconcile => ({ shared with
        metrics := { shared.metrics with reconciles := shared.metrics.reconciles + 1 } },
      call.finish (.error fault))
    | .close => ({ shared with closed := true, closing := false }, call.finish (.error fault))
    | _ => (shared, call.finish (.error fault))
  | none =>
    match call.op with
    | .createParent _ _ _ =>
      match call.items.findSome? Task.branch? with
      | some branch => (shared, call.finish (.ok (.branch branch)))
      | none => (shared, call.finish (.ok .none))
    | .fork _ _ _ _ =>
      let forked := call.items.filterMap Task.branch?
      ({ shared with metrics := { shared.metrics with forks := shared.metrics.forks + forked.length } },
        call.finish (.ok (.branches forked)))
    | .kill _ =>
      match call.receipts.head? with
      | some receipt => (shared, call.finish (.ok (.receipt receipt)))
      | none => (shared, call.finish (.ok .none))
    | .killLosers _ =>
      (shared, { call with stage := .sweep (byBranch call.receipts) (call.items.map Task.branchId) })
    | .renewLease _ _ => (shared, call.finish (.ok .none))
    | .reapExpired =>
      ({ shared with metrics := { shared.metrics with reapedExpired := shared.metrics.reapedExpired +
          (call.receipts.filter KillReceipt.reaped).length } },
        call.finish (.ok (.receipts call.receipts)))
    | .reconcile =>
      ({ shared with metrics := { shared.metrics with reconciles := shared.metrics.reconciles + 1 } },
        { call with stage := .tally call.receipts })
    | .close => ({ shared with closed := true, closing := false }, call.finish (.ok .none))

/-- One turn of the loop of `kill_losers` over the losers that are left. -/
def sweepNext (shared : Shared) (call : Call) (receipts : Dict BranchId KillReceipt) :
    List BranchId → Call
  | [] => call.finish (.ok (.receipts receipts.values))
  | branchId :: pending =>
    if (receipts.get? branchId).any KillReceipt.reaped then { call with stage := .sweep receipts pending }
    else if branchId ∉ shared.branches then { call with stage := .sweep receipts pending }
    else if branchId ∈ shared.spawning ∨ branchId ∈ shared.killing then call
    else { call with
      items := call.items ++ [killTask false branchId]
      stage := .retry receipts (branchId :: pending) }

def advance (config : Config) (shared : Shared) (call : Call) : Option (Shared × Call) :=
  match call.stage with
  | .fanOut =>
    if call.fanOutEnded config then some (call.afterFanOut shared (fanOutFault call.items)) else none
  | .tally receipts =>
    some ({ shared with metrics := { shared.metrics with reapedExpired := shared.metrics.reapedExpired +
        (receipts.filter fun receipt => receipt.reaped && decide (receipt.branchId ∈ call.expired)).length } },
      call.finish (.ok (.receipts receipts)))
  | .sweep receipts pending => some (shared, call.sweepNext shared receipts pending)
  | .retry receipts pending =>
    match call.items.getLast? with
    | none => none
    | some task =>
      match task.fault?, task.receipt? with
      | some fault, _ => some (shared, call.finish (.error fault))
      | none, some receipt =>
        some (shared, { call with stage := .sweep (receipts.insert receipt.branchId receipt) pending })
      | none, none => none
  | .draining =>
    if shared.spawning = ∅ ∧ shared.killing = ∅ then
      some (shared, { call with
        items := call.items ++ shared.branches.keys.map (killTask true)
        stage := .fanOut })
    else none
  | .awaitClosed => if shared.closed then some (shared, call.finish (.ok .none)) else none
  | .finished _ => none

end Call

/-! ## Steps -/

namespace State

def step (config : Config) (state : State) : Action → Option State
  | .invoke op env => (invoke config env state.shared op).map fun (shared, call) =>
      ⟨shared, state.calls ++ [call]⟩
  | .item c i env => (state.calls[c]?).bind fun call =>
      (call.stepItem config env state.shared i).map fun (shared, call) =>
        ⟨shared, state.calls.set c call⟩
  | .advance c => (state.calls[c]?).bind fun call =>
      (call.advance config state.shared).map fun (shared, call) => ⟨shared, state.calls.set c call⟩

/-- A new process that has loaded the registry. -/
def fresh (shared : Shared) : State := ⟨shared, []⟩

def Step (config : Config) (before : State) (action : Action) (after : State) : Prop :=
  before.step config action = some after

end State

end Agentfork.Orchestrator

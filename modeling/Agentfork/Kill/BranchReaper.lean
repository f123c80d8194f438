import Agentfork.Library.Dict
import Agentfork.Library.ProcessTree

/-! # Branch processes and the threads that spawn them

`ReaperSandbox` over `BranchReaper`, the threads that call `create_parent` and
`fork`, and the thread pool of `_fan_out`. Of a call only its spawns are kept: the
ids that it spawns and which thread does it.

`BranchReaper.spawn` holds the reaper's lock from its check of the id to its
return. With `pdeathsig=True` the child arms the death signal before `Popen`
returns; with `"shim"` the launcher arms it at any later time. -/

namespace Agentfork.Kill

open ProcessTree

abbrev BranchId := String
abbrev ThreadId := Nat
abbrev Pid := Nat

/-- The `pdeathsig` of the reaper: `True`, `"shim"` or `False`. -/
inductive Pdeathsig where
  | preexec
  | shim
  | off
  deriving DecidableEq

/-- `thread_safe` of the reaper and with it `parallel_lifecycle` of the sandbox. -/
def Pdeathsig.threadSafe : Pdeathsig → Bool
  | .preexec => false
  | .shim | .off => true

/-- Who sends a `SIGKILL` on purpose: `BranchReaper.kill`, or `spawn` when it
cannot open the pidfd of its child. -/
inductive Sender where
  | kill
  | failedSpawn
  deriving DecidableEq

inductive Item where
  | queued
  | taken
  | done
  deriving DecidableEq

/-- A `create_parent` or a `fork`, as far as it spawns. -/
structure Call where
  caller : ThreadId
  items : List (BranchId × Item)
  /-- `_fan_out` uses a `ThreadPoolExecutor` -/
  pool : Bool
  /-- the pool's threads that are running -/
  workers : List ThreadId
  /-- how many the pool has started -/
  started : Nat
  returned : Bool

/-- A `spawn` between `Popen` and its return: it holds the reaper's lock. -/
structure Spawn where
  call : Nat
  item : Nat
  branchId : BranchId
  pid : Pid

structure State where
  /-- the supervisor runs -/
  alive : Bool
  tree : Tree ThreadId Sender
  nextThread : ThreadId
  calls : List Call
  lock : Option Spawn
  /-- `_branches` of the reaper -/
  branches : Dict BranchId Pid
  /-- the processes that `spawn` has returned; no function reads it -/
  spawned : List Pid

inductive Action where
  /-- the supervisor starts a thread that may call the orchestrator -/
  | startThread
  | endThread (thread heir : ThreadId)
  | call (caller : ThreadId) (branchIds : List BranchId)
  | startWorker (call : Nat)
  /-- a spawn of the call begins: the check of the id and the fork of the child -/
  | launch (call item : Nat) (thread : ThreadId)
  | launched
  | pidfdFailed
  /-- an item fails in another step of its branch -/
  | skip (call item : Nat)
  | endWorker (call : Nat) (thread heir : ThreadId)
  | return (call : Nat)
  | arm (pid : Pid)
  | exit (pid : Pid)
  | kill (thread : ThreadId) (branchId : BranchId)
  | supervisorDies
  deriving DecidableEq

namespace Call

def maxFanoutThreads : Nat := 8

def settled (call : Call) : Bool := call.items.all fun item => item.2 = .done

def setItem (i : Nat) (item : Item) (call : Call) : Call :=
  { call with items := call.items.modify i fun entry => (entry.1, item) }

/-- The threads that run the items. -/
def mayRun (call : Call) (thread : ThreadId) : Bool :=
  if call.pool then decide (thread ∈ call.workers) else decide (thread = call.caller)

end Call

namespace State

def start : State where
  alive := true
  tree := ⟨[0], []⟩
  nextThread := 1
  calls := []
  lock := none
  branches := .empty
  spawned := []

/-- No call runs on the thread. -/
def idle (state : State) (thread : ThreadId) : Bool :=
  state.calls.all fun call => call.returned || (decide (call.caller ≠ thread) && decide (thread ∉ call.workers))

def setCall (c : Nat) (call : Call) (state : State) : State := { state with calls := state.calls.set c call }

/-- `Popen` has returned: with a `preexec_fn` the child has come through it. -/
def popenReturns (mode : Pdeathsig) (state : State) (pid : Pid) : Bool :=
  match mode with
  | .preexec => (state.tree.processes[pid]?).any fun process => process.armed || !process.running
  | .shim | .off => true

/-- One step of the supervisor, of one of its threads or of a child. -/
def step (mode : Pdeathsig) (state : State) (action : Action) : Option State :=
  if state.alive = false then none else
  match action with
  | .startThread => some { state with
      tree := state.tree.startThread state.nextThread
      nextThread := state.nextThread + 1 }
  | .endThread thread heir =>
    if thread ∈ state.tree.threads ∧ heir ∈ state.tree.threads ∧ heir ≠ thread ∧ state.idle thread = true then
      some { state with tree := state.tree.endThread thread heir }
    else none
  | .call caller branchIds =>
    if caller ∈ state.tree.threads ∧ state.idle caller = true then
      some { state with calls := state.calls ++ [{
        caller := caller
        items := branchIds.map fun branchId => (branchId, .queued)
        pool := mode.threadSafe && decide (1 < branchIds.length)
        workers := []
        started := 0
        returned := false }] }
    else none
  | .startWorker c => (state.calls[c]?).bind fun call =>
      if call.pool = true ∧ call.settled = false ∧ call.started < min call.items.length Call.maxFanoutThreads then
        some { state.setCall c { call with
            workers := call.workers ++ [state.nextThread]
            started := call.started + 1 } with
          tree := state.tree.startThread state.nextThread
          nextThread := state.nextThread + 1 }
      else none
  | .launch c i thread => (state.calls[c]?).bind fun call => (call.items[i]?).bind fun (branchId, item) =>
      if state.lock.isNone = true ∧ item = .queued ∧ call.returned = false ∧ call.mayRun thread = true then
        if branchId ∈ state.branches then some (state.setCall c (call.setItem i .done))
        else some { state.setCall c (call.setItem i .taken) with
          tree := state.tree.fork thread
          lock := some ⟨c, i, branchId, state.tree.processes.length⟩ }
      else none
  | .launched => state.lock.bind fun spawn => (state.calls[spawn.call]?).bind fun call =>
      if state.popenReturns mode spawn.pid = true then
        some { state.setCall spawn.call (call.setItem spawn.item .done) with
          lock := none
          branches := state.branches.insert spawn.branchId spawn.pid
          spawned := state.spawned ++ [spawn.pid] }
      else none
  | .pidfdFailed => state.lock.bind fun spawn => (state.calls[spawn.call]?).bind fun call =>
      if state.popenReturns mode spawn.pid = true then
        some { state.setCall spawn.call (call.setItem spawn.item .done) with
          lock := none
          tree := state.tree.send spawn.pid .failedSpawn }
      else none
  | .skip c i => (state.calls[c]?).bind fun call => (call.items[i]?).bind fun (_, item) =>
      if item = .queued ∧ call.returned = false then some (state.setCall c (call.setItem i .done)) else none
  | .endWorker c thread heir => (state.calls[c]?).bind fun call =>
      -- the pool shuts down once the results are in
      if call.pool = true ∧ call.settled = true ∧ thread ∈ call.workers ∧ heir ∈ state.tree.threads ∧
          heir ≠ thread then
        some { state.setCall c { call with workers := call.workers.erase thread } with
          tree := state.tree.endThread thread heir }
      else none
  | .return c => (state.calls[c]?).bind fun call =>
      if call.settled = true ∧ call.workers = [] then some (state.setCall c { call with returned := true }) else none
  | .arm pid => (state.tree.processes[pid]?).bind fun process =>
      if mode ≠ .off ∧ process.running = true then some { state with tree := state.tree.arm pid } else none
  | .exit pid => some { state with tree := state.tree.exit pid }
  | .kill thread branchId =>
    if state.lock.isNone = true ∧ thread ∈ state.tree.threads then
      match state.branches.get? branchId with
      | none => some state
      | some pid => some { state with
          tree := state.tree.send pid .kill
          branches := state.branches.erase branchId }
    else none
  | .supervisorDies => some { state with alive := false, tree := state.tree.endProcess }

def Step (mode : Pdeathsig) (before : State) (action : Action) (after : State) : Prop :=
  before.step mode action = some after

end State

end Agentfork.Kill

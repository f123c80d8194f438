import Agentfork.Library.Transition
import Agentfork.Firecracker.Sandbox

/-! # spawn, restart and kill, step by step

A call advances by its sections under the lock and by what it does between them.
Any other call, and the host, may take steps in between. What precedes the VMM of
a spawn (its namespace, directory, overlay and the parent's snapshot) is one step
that may fail, as is the removal of a branch's files. -/

namespace Agentfork.Firecracker

open Sandbox

/-! ## What the surroundings decide -/

/-- A step that raises may have taken effect. -/
inductive Reply where
  | returned
  | raised (tookEffect : Bool)
  deriving DecidableEq, Repr

def Reply.effect : Reply → Bool
  | .returned => true
  | .raised tookEffect => tookEffect

structure Env where
  reply : Reply
  /-- the branch directory has a checkpoint -/
  checkpoint : Bool
  /-- `/proc` can be read -/
  readable : Bool
  /-- the host lets the sandbox signal a process by its pid -/
  permitted : Bool
  /-- what a new VMM looks like to the host -/
  process : Process
  deriving DecidableEq

/-! ## Spawn -/

inductive SpawnPhase where
  | admission
  | prepare
  /-- in `MicroVM.__init__`, before it has a process -/
  | launch
  /-- in `MicroVM.__init__`, until the API socket appears -/
  | connect (vm : MicroVM)
  /-- in `boot` or `restore` -/
  | boot (vm : MicroVM)
  | record (vm : MicroVM)
  | install (vm : MicroVM)
  | reseed (vm : MicroVM)
  /-- in the `except` -/
  | abort (vm : MicroVM)
  | reap (vm : MicroVM)
  | discard
  /-- before the `finally` -/
  | settle (outcome : Except Fault Unit)
  | finished (outcome : Except Fault Unit)

structure SpawnTask where
  branchId : BranchId
  parentId : Option BranchId
  phase : SpawnPhase

def spawnStep (env : Env) (sandbox : Sandbox) (task : SpawnTask) : Option (Sandbox × SpawnPhase) :=
  match task.phase with
  | .admission =>
    if task.branchId ∈ sandbox.vms ∨ task.branchId ∈ sandbox.pending then
      some (sandbox, .finished (.error (.valueError s!"branch exists: {task.branchId}")))
    else some (sandbox.enter task.branchId task.parentId, .prepare)
  | .prepare =>
    match env.reply with
    | .returned => some (sandbox, .launch)
    | .raised _ => some (sandbox, .discard)
  | .launch =>
    match env.reply with
    | .returned => (sandbox.launch { env.process with vmmOf := some task.branchId }).map
        fun (vm, sandbox) => (sandbox, .connect vm)
    | .raised _ => some (sandbox, .discard)
  | .connect vm =>
    match env.reply with
    | .returned => some (sandbox, .boot vm)
    -- `_force_cleanup`
    | .raised _ => some (sandbox.exit vm.proc, .discard)
  | .boot vm =>
    match env.reply with
    | .returned => some (sandbox, .record vm)
    | .raised _ => some (sandbox, .abort vm)
  | .record vm =>
    match env.reply with
    | .returned => some (sandbox.writePidRecord env.readable task.branchId vm.pid, .install vm)
    | .raised _ => some (sandbox, .abort vm)
  | .install vm => some (sandbox.track task.branchId vm, .reseed vm)
  | .reseed vm =>
    match task.parentId, env.reply with
    | some _, .raised _ => some (sandbox, .abort vm)
    | _, _ => some (sandbox, .settle (.ok ()))
  | .abort vm => some (sandbox.untrack task.branchId, .reap vm)
  -- the `finally` of `MicroVM.kill` sees to it that the process is gone
  | .reap vm => some (sandbox.exit vm.proc, .discard)
  | .discard =>
    let sandbox := if env.reply.effect then sandbox.removePidRecord task.branchId else sandbox
    some (sandbox, .settle (.error .raised))
  | .settle outcome => some (sandbox.leave task.branchId task.parentId, .finished outcome)
  | .finished _ => none

/-! ## Restart -/

inductive RestartPhase where
  | lookup
  /-- in `_restore_paths` -/
  | paths
  | clean
  | netns
  | launch
  | connect (vm : MicroVM)
  | restore (vm : MicroVM)
  | record (vm : MicroVM)
  | install (vm : MicroVM)
  | finished (outcome : Except Fault Bool)

structure RestartTask where
  branchId : BranchId
  phase : RestartPhase

def restartStep (env : Env) (sandbox : Sandbox) (task : RestartTask) : Option (Sandbox × RestartPhase) :=
  match task.phase with
  | .lookup =>
    if (sandbox.vms.get? task.branchId).any sandbox.polls then some (sandbox, .finished (.ok true))
    else some (sandbox.untrack task.branchId, .paths)
  | .paths =>
    match env.reply with
    | .returned => some (sandbox, if env.checkpoint then .clean else .finished (.ok false))
    | .raised _ => some (sandbox, .finished (.error .raised))
  | .clean =>
    let sandbox := if env.reply.effect then sandbox.removePidRecord task.branchId else sandbox
    match env.reply with
    | .returned => some (sandbox, .netns)
    | .raised _ => some (sandbox, .finished (.error .raised))
  | .netns =>
    match env.reply with
    | .returned => some (sandbox, .launch)
    | .raised _ => some (sandbox, .finished (.error .raised))
  | .launch =>
    match env.reply with
    | .returned => (sandbox.launch { env.process with vmmOf := some task.branchId }).map
        fun (vm, sandbox) => (sandbox, .connect vm)
    | .raised _ => some (sandbox, .finished (.error .raised))
  | .connect vm =>
    match env.reply with
    | .returned => some (sandbox, .restore vm)
    | .raised _ => some (sandbox.exit vm.proc, .finished (.error .raised))
  | .restore vm =>
    match env.reply with
    | .returned => some (sandbox, .record vm)
    -- the `except` drops the namespace and leaves the VMM
    | .raised _ => some (sandbox, .finished (.error .raised))
  | .record vm =>
    match env.reply with
    | .returned => some (sandbox.writePidRecord env.readable task.branchId vm.pid, .install vm)
    | .raised _ => some (sandbox, .finished (.error .raised))
  | .install vm => some (sandbox.track task.branchId vm, .finished (.ok true))
  | .finished _ => none

/-! ## Kill -/

inductive KillPhase where
  /-- waits for forks from the branch and for its own spawn -/
  | wait
  | reap (vm : MicroVM)
  /-- there is no handle -/
  | readRecord
  | signal (record : PidRecord)
  /-- removes the namespace, the pid record and the files -/
  | cleanup
  | finished (outcome : Except Fault Unit)

structure KillTask where
  branchId : BranchId
  phase : KillPhase

def killStep (vmmComm : String) (env : Env) (sandbox : Sandbox) (task : KillTask) :
    Option (Sandbox × KillPhase) :=
  match task.phase with
  | .wait =>
    if sandbox.forksOf task.branchId ≠ 0 ∨ task.branchId ∈ sandbox.pending then none
    else match sandbox.vms.get? task.branchId with
      | some vm => some (sandbox.untrack task.branchId, .reap vm)
      | none => some (sandbox, .readRecord)
  | .reap vm => some (sandbox.exit vm.proc, .cleanup)
  | .readRecord =>
    match env.reply, sandbox.records.get? task.branchId with
    | .raised _, _ => some (sandbox, .finished (.error .raised))
    | .returned, none => some (sandbox, .cleanup)
    | .returned, some none => some (sandbox, .finished (.error
        (.runtimeError s!"invalid Firecracker pid record for {task.branchId}")))
    | .returned, some (some record) => some (sandbox, .signal record)
  | .signal record =>
    if sandbox.recycled vmmComm env.readable record then some (sandbox, .cleanup)
    else
      -- the pidfd is opened and the identity checked again before the signal
      let sandbox := if env.permitted && env.reply.effect then sandbox.signal record.pid else sandbox
      match env.reply with
      | .returned => some (sandbox, .cleanup)
      | .raised _ => some (sandbox, .finished (.error .raised))
  | .cleanup =>
    let sandbox := if env.reply.effect then sandbox.removePidRecord task.branchId else sandbox
    match env.reply with
    | .returned => some (sandbox, .finished (.ok ()))
    | .raised _ => some (sandbox, .finished (.error .raised))
  | .finished _ => none

/-! ## Calls -/

inductive Call where
  | spawn (task : SpawnTask)
  | restart (task : RestartTask)
  | kill (task : KillTask)

namespace Call

def branchId : Call → BranchId
  | .spawn task => task.branchId
  | .restart task => task.branchId
  | .kill task => task.branchId

/-- The call has returned or raised. -/
def isOver : Call → Bool
  | .spawn ⟨_, _, .finished _⟩ => true
  | .restart ⟨_, .finished _⟩ => true
  | .kill ⟨_, .finished _⟩ => true
  | _ => false

/-- A spawn that has been admitted. -/
def spawning : Call → Bool
  | .spawn ⟨_, _, .admission⟩ => false
  | .spawn ⟨_, _, .finished _⟩ => false
  | .spawn _ => true
  | _ => false

/-- A restart that has found a checkpoint. -/
def restarting : Call → Bool
  | .restart ⟨_, .lookup⟩ => false
  | .restart ⟨_, .paths⟩ => false
  | .restart ⟨_, .finished _⟩ => false
  | .restart _ => true
  | _ => false

/-- A kill that has stopped waiting. -/
def killing : Call → Bool
  | .kill ⟨_, .wait⟩ => false
  | .kill ⟨_, .finished _⟩ => false
  | .kill _ => true
  | _ => false

def step (vmmComm : String) (env : Env) (sandbox : Sandbox) : Call → Option (Sandbox × Call)
  | .spawn task => (spawnStep env sandbox task).map fun (sandbox, phase) =>
      (sandbox, .spawn { task with phase := phase })
  | .restart task => (restartStep env sandbox task).map fun (sandbox, phase) =>
      (sandbox, .restart { task with phase := phase })
  | .kill task => (killStep vmmComm env sandbox task).map fun (sandbox, phase) =>
      (sandbox, .kill { task with phase := phase })

end Call

/-! ## The system -/

inductive Op where
  | spawn (branchId : BranchId) (parentId : Option BranchId)
  | restart (branchId : BranchId)
  | kill (branchId : BranchId)
  deriving DecidableEq, Repr

def Op.call : Op → Call
  | .spawn branchId parentId => .spawn ⟨branchId, parentId, .admission⟩
  | .restart branchId => .restart ⟨branchId, .lookup⟩
  | .kill branchId => .kill ⟨branchId, .wait⟩

structure State where
  sandbox : Sandbox
  calls : List Call
  /-- what each `sweep_dead` has returned -/
  swept : List (List BranchId)

inductive Action where
  | invoke (op : Op)
  | sweepDead
  | step (call : Nat) (env : Env)
  /-- a process ends by itself -/
  | exit (proc : Nat)
  /-- the host starts a process that is not this sandbox's -/
  | launch (process : Process)
  deriving DecidableEq

namespace State

def step (vmmComm : String) (state : State) : Action → Option State
  | .invoke op => some { state with calls := state.calls ++ [op.call] }
  | .sweepDead => some { state with swept := state.swept ++ [state.sandbox.sweepDead] }
  | .step c env => (state.calls[c]?).bind fun call =>
      (call.step vmmComm env state.sandbox).map fun (sandbox, call) =>
        { state with sandbox := sandbox, calls := state.calls.set c call }
  | .exit proc => some { state with sandbox := state.sandbox.exit proc }
  | .launch process =>
      (state.sandbox.launch { process with vmmOf := none }).map fun (_, sandbox) =>
        { state with sandbox := sandbox }

/-- A new sandbox over the branch directories that earlier ones have left. -/
def fresh (records : Dict BranchId (Option PidRecord)) : State where
  sandbox := ⟨.empty, ∅, .empty, records, .empty, 0⟩
  calls := []
  swept := []

def Step (vmmComm : String) (before : State) (action : Action) (after : State) : Prop :=
  before.step vmmComm action = some after

end State

end Agentfork.Firecracker

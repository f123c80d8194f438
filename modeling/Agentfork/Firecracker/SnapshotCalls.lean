import Agentfork.Firecracker.Lifecycle
import Agentfork.Firecracker.Snapshots

/-! # spawn, exec, checkpoint and kill around a snapshot

Here the preparation of a spawn that `Lifecycle` takes as one step is opened up:
the parent's lock, the reading of its generation, the pause, the snapshot, the copy
of the overlay and the staging of the files in the child's jail. What a fork and a
checkpoint do to a live branch under its lock is one definition, `captureStep`.

Any other call, a guest or the end of a VMM may come between two steps. -/

namespace Agentfork.Firecracker.Snapshots

inductive Fault where
  | valueError (message : String)
  | keyError (message : String)
  /-- what a step of the host or of the VMM raises -/
  | raised
  deriving DecidableEq, Repr

/-- What the surroundings decide in a step. -/
structure Env where
  reply : Reply
  /-- the files that a snapshot which raises has written -/
  wrote : Finset SnapshotFile
  /-- the files that a removal has got to -/
  removed : Finset SnapshotFile
  /-- the filesystem has hard links -/
  linked : Bool
  /-- the pid record names a VMM, which `kill` signals -/
  signals : Bool
  deriving DecidableEq

/-- A VMM that is gone answers no request. -/
def Env.answer (env : Env) (vm : Vmm) (sandbox : Sandbox) : Reply :=
  if sandbox.runs vm then env.reply else .raised false

/-- The files that a request for a snapshot writes. -/
def Env.written (env : Env) (vm : Vmm) (sandbox : Sandbox) : Finset SnapshotFile :=
  match env.answer vm sandbox with
  | .returned => {.mem, .state}
  | .raised tookEffect => if tookEffect then env.wrote else ∅

/-! ## Captures -/

/-- A fork or a checkpoint that holds the lock of a live branch. -/
structure Capture where
  branchId : BranchId
  lock : Nat
  lockedAt : Instant
  vm : Vmm
  /-- the generation read under the lock -/
  gen : Nat
  /-- takes a snapshot; a fork does so if it has found the last one stale -/
  takes : Bool
  /-- copies the overlay into the child's directory -/
  copies : Bool
  /-- the instant that was copied -/
  overlay : Option Instant
  deriving DecidableEq, Repr

inductive CapturePhase where
  | sync
  | pause
  | snapshot
  /-- between the snapshot and its record -/
  | record
  | copyOverlay
  /-- in the `finally` -/
  | resume (failed : Bool)
  deriving DecidableEq, Repr

inductive CaptureResult where
  | goes (capture : Capture) (phase : CapturePhase)
  | returned (capture : Capture)
  | raised

def captureStep (env : Env) (now : Instant) (sandbox : Sandbox) (capture : Capture) :
    CapturePhase → Sandbox × CaptureResult
  | .sync =>
    -- a `VsockError` is no failure
    match env.reply with
    | .returned => (sandbox, .goes capture .pause)
    | .raised _ => (sandbox.release capture.lock, .raised)
  | .pause =>
    match env.answer capture.vm sandbox with
    | .returned => (sandbox.pause capture.vm now,
        .goes capture (if capture.takes then .snapshot else .copyOverlay))
    | .raised tookEffect =>
      let sandbox := if tookEffect then sandbox.pause capture.vm now else sandbox
      (sandbox.release capture.lock, .raised)
  | .snapshot =>
    let after := sandbox.snapshot capture.branchId capture.vm (env.written capture.vm sandbox) now
    match env.answer capture.vm sandbox with
    | .returned => (after, .goes capture .record)
    | .raised _ => (after, .goes capture (.resume true))
  | .record => (sandbox.record capture.branchId capture.gen,
      .goes capture (if capture.copies then .copyOverlay else .resume false))
  | .copyOverlay =>
    match env.reply with
    | .returned =>
      (sandbox, .goes { capture with overlay := some (sandbox.instantOf capture.vm now) } (.resume false))
    | .raised _ => (sandbox, .goes capture (.resume true))
  | .resume failed =>
    match env.answer capture.vm sandbox with
    | .returned => ((sandbox.resume capture.vm).release capture.lock,
        if failed then .raised else .returned capture)
    | .raised tookEffect =>
      let sandbox := if tookEffect then sandbox.resume capture.vm else sandbox
      (sandbox.release capture.lock, .raised)

/-! ## Spawn -/

inductive SpawnPhase where
  | admission
  | refused (fault : Fault)
  /-- its namespace and directory, and the overlay of a root -/
  | prepare
  | lock (parentId : BranchId)
  | acquire (parentId : BranchId) (lock : Nat)
  | inspect (parentId : BranchId) (lock : Nat) (lockedAt : Instant)
  /-- the parent has no live handle -/
  | reuse (parentId : BranchId) (lock : Nat) (lockedAt : Instant)
  | capture (capture : Capture) (phase : CapturePhase)
  | linkMem (handed : Handed)
  | linkState (handed : Handed)
  | launch (handed : Option Handed)
  /-- in `boot` or `restore` -/
  | start (vm : Vmm) (handed : Option Handed)
  | install (vm : Vmm)
  | reseed (vm : Vmm)
  /-- in the `except` -/
  | abort (vm : Vmm)
  | reap (vm : Vmm)
  | discard (fault : Fault)
  /-- before the `finally` -/
  | settle (outcome : Except Fault Unit)
  | finished (outcome : Except Fault Unit)

structure SpawnTask where
  branchId : BranchId
  parentId : Option BranchId
  phase : SpawnPhase

/-- A jailed child needs the files in its jail. -/
def SpawnPhase.staging (config : Config) (handed : Handed) : SpawnPhase :=
  if config.jailed then .linkMem handed else .launch (some handed)

/-- `_fork_source`, between the look at the parent and what follows from it -/
def inspectParent (config : Config) (sandbox : Sandbox) (parentId : BranchId) (lock : Nat)
    (lockedAt : Instant) : Sandbox × SpawnPhase :=
  match sandbox.vms.get? parentId with
  | none => (sandbox, .reuse parentId lock lockedAt)
  | some vm =>
    let stale := sandbox.stale parentId
    let capture : Capture :=
      ⟨parentId, lock, lockedAt, vm, sandbox.genOf parentId, stale, config.overlays, none⟩
    if stale && config.overlays && config.vsock then (sandbox, .capture capture .sync)
    else if stale || config.overlays then (sandbox, .capture capture .pause)
    else (sandbox.release lock, .staging config ⟨parentId, lockedAt, true, none, none, none⟩)

def CaptureResult.forked (config : Config) : CaptureResult → SpawnPhase
  | .goes capture phase => .capture capture phase
  | .returned capture =>
    .staging config ⟨capture.branchId, capture.lockedAt, true, capture.overlay, none, none⟩
  | .raised => .discard .raised

def spawnStep (config : Config) (env : Env) (now : Instant) (sandbox : Sandbox) (task : SpawnTask) :
    Option (Sandbox × SpawnPhase) :=
  match task.phase with
  | .admission =>
    if task.branchId ∈ sandbox.vms ∨ task.branchId ∈ sandbox.pending then
      some (sandbox, .refused (.valueError s!"branch exists: {task.branchId}"))
    else some (sandbox.enter task.branchId task.parentId, .prepare)
  | .refused _ => none
  | .prepare =>
    match env.reply with
    | .returned => some (sandbox, (task.parentId.map SpawnPhase.lock).getD (.launch none))
    | .raised _ => some (sandbox, .discard .raised)
  | .lock parentId => some ((sandbox.parentLock parentId).2, .acquire parentId (sandbox.parentLock parentId).1)
  | .acquire parentId lock =>
    (sandbox.acquire lock).map fun sandbox => (sandbox, .inspect parentId lock now)
  | .inspect parentId lock lockedAt => some (inspectParent config sandbox parentId lock lockedAt)
  | .reuse parentId lock lockedAt =>
    if (sandbox.disk.lookup (parentId, .mem)).isSome ∧ (sandbox.disk.lookup (parentId, .state)).isSome then
      match env.reply with
      | .returned => some (sandbox.release lock,
          .staging config ⟨parentId, lockedAt, false, none, none, none⟩)
      -- the copy of the overlay has raised
      | .raised _ => some (sandbox.release lock, .discard .raised)
    else some (sandbox.release lock,
      .discard (.keyError s!"no snapshot for parent: {parentId}"))
  | .capture capture phase =>
    let (sandbox, result) := captureStep env now sandbox capture phase
    some (sandbox, result.forked config)
  | .linkMem handed =>
    match env.reply, sandbox.linkInto env.linked (handed.parentId, .mem) with
    | .returned, some (staged, sandbox) => some (sandbox, .linkState { handed with mem := some staged })
    | _, _ => some (sandbox, .discard .raised)
  | .linkState handed =>
    match env.reply, sandbox.linkInto env.linked (handed.parentId, .state) with
    | .returned, some (staged, sandbox) => some (sandbox, .launch (some { handed with state := some staged }))
    | _, _ => some (sandbox, .discard .raised)
  | .launch handed =>
    match env.reply with
    | .returned => some ((sandbox.launch task.branchId).2, .start (sandbox.launch task.branchId).1 handed)
    | .raised _ => some (sandbox, .discard .raised)
  | .start vm handed =>
    match env.answer vm sandbox, handed with
    | .returned, none => some (sandbox, .install vm)
    | .returned, some handed => match sandbox.restore vm handed with
      | some sandbox => some (sandbox, .install vm)
      | none => some (sandbox, .abort vm)
    | .raised _, _ => some (sandbox, .abort vm)
  | .install vm =>
    match env.reply with
    | .returned => some (sandbox.track task.branchId vm, .reseed vm)
    -- the pid record could not be written
    | .raised _ => some (sandbox, .abort vm)
  | .reseed vm =>
    match task.parentId, env.reply with
    | some _, .raised _ => some (sandbox, .abort vm)
    | _, _ => some (sandbox, .settle (.ok ()))
  | .abort vm => some (sandbox.untrack task.branchId, .reap vm)
  | .reap vm => some (sandbox.exit vm now, .discard .raised)
  | .discard fault => some (sandbox.cleanupArtifacts task.branchId env.removed, .settle (.error fault))
  | .settle outcome => some (sandbox.leave task.branchId task.parentId, .finished outcome)
  | .finished _ => none

/-! ## Exec -/

inductive ExecPhase where
  | lock
  | acquire (lock : Nat)
  | inspect (lock : Nat)
  /-- the guest command -/
  | run (lock : Nat)
  /-- before the `finally` -/
  | bump (lock : Nat) (outcome : Except Fault Unit)
  | refused (fault : Fault)
  | finished (outcome : Except Fault Unit) (returnedAt : Instant)

/-- A call of `exec` or `exec_detached`, which differ in what the guest does only. -/
structure ExecTask where
  branchId : BranchId
  detached : Bool
  phase : ExecPhase

def execStep (env : Env) (now : Instant) (sandbox : Sandbox) (task : ExecTask) :
    Option (Sandbox × ExecPhase) :=
  match task.phase with
  | .lock => some ((sandbox.parentLock task.branchId).2, .acquire (sandbox.parentLock task.branchId).1)
  | .acquire lock => (sandbox.acquire lock).map fun sandbox => (sandbox, .inspect lock)
  | .inspect lock =>
    if task.branchId ∈ sandbox.vms then some (sandbox, .run lock)
    else some (sandbox.release lock, .refused (.keyError s!"no such branch: {task.branchId}"))
  | .run lock =>
    match env.reply with
    | .returned => some (sandbox, .bump lock (.ok ()))
    | .raised _ => some (sandbox, .bump lock (.error .raised))
  -- the generation, then the lock
  | .bump lock outcome => some ((sandbox.bump task.branchId).release lock, .finished outcome now)
  | .refused _ => none
  | .finished _ _ => none

/-! ## Checkpoint -/

inductive CheckpointPhase where
  | lock
  | acquire (lock : Nat)
  | inspect (lock : Nat) (lockedAt : Instant)
  | capture (capture : Capture) (phase : CapturePhase)
  | finished (outcome : Except Fault Unit)

structure CheckpointTask where
  branchId : BranchId
  phase : CheckpointPhase

def CaptureResult.checkpointed : CaptureResult → CheckpointPhase
  | .goes capture phase => .capture capture phase
  | .returned _ => .finished (.ok ())
  | .raised => .finished (.error .raised)

def checkpointStep (config : Config) (env : Env) (now : Instant) (sandbox : Sandbox)
    (task : CheckpointTask) : Option (Sandbox × CheckpointPhase) :=
  match task.phase with
  | .lock => some ((sandbox.parentLock task.branchId).2, .acquire (sandbox.parentLock task.branchId).1)
  | .acquire lock => (sandbox.acquire lock).map fun sandbox => (sandbox, .inspect lock now)
  | .inspect lock lockedAt =>
    match sandbox.vms.get? task.branchId with
    | none => some (sandbox.release lock, .finished (.error (.keyError s!"no live branch: {task.branchId}")))
    | some vm => some (sandbox, .capture
        ⟨task.branchId, lock, lockedAt, vm, sandbox.genOf task.branchId, true, false, none⟩
        (if config.vsock then .sync else .pause))
  | .capture capture phase =>
    let (sandbox, result) := captureStep env now sandbox capture phase
    some (sandbox, result.checkpointed)
  | .finished _ => none

/-! ## Kill -/

inductive KillPhase where
  /-- waits for forks from the branch and for its own spawn -/
  | wait
  | reap (vm : Vmm)
  /-- there is no handle -/
  | recover
  | cleanup (dropsLock : Bool)
  | dropLock
  | finished (outcome : Except Fault Unit)

structure KillTask where
  branchId : BranchId
  phase : KillPhase

def killStep (env : Env) (now : Instant) (sandbox : Sandbox) (task : KillTask) :
    Option (Sandbox × KillPhase) :=
  match task.phase with
  | .wait =>
    if sandbox.forksOf task.branchId ≠ 0 ∨ task.branchId ∈ sandbox.pending then none
    else match sandbox.vms.get? task.branchId with
      | some vm => some (sandbox.forget task.branchId, .reap vm)
      | none => some (sandbox.forget task.branchId, .recover)
  | .reap vm => some (sandbox.exit vm now, .cleanup true)
  | .recover =>
    match env.reply with
    | .returned => some (sandbox, .cleanup env.signals)
    | .raised _ => some (sandbox, .finished (.error .raised))
  | .cleanup dropsLock =>
    let sandbox := sandbox.cleanupArtifacts task.branchId env.removed
    match env.reply with
    | .returned => some (sandbox, if dropsLock then .dropLock else .finished (.ok ()))
    | .raised _ => some (sandbox, .finished (.error .raised))
  | .dropLock => some (sandbox.dropLock task.branchId, .finished (.ok ()))
  | .finished _ => none

/-! ## The system -/

inductive Call where
  | spawn (task : SpawnTask)
  | exec (task : ExecTask)
  | checkpoint (task : CheckpointTask)
  | kill (task : KillTask)

def Call.step (config : Config) (env : Env) (now : Instant) (sandbox : Sandbox) :
    Call → Option (Sandbox × Call)
  | .spawn task => (spawnStep config env now sandbox task).map fun (sandbox, phase) =>
      (sandbox, .spawn { task with phase := phase })
  | .exec task => (execStep env now sandbox task).map fun (sandbox, phase) =>
      (sandbox, .exec { task with phase := phase })
  | .checkpoint task => (checkpointStep config env now sandbox task).map fun (sandbox, phase) =>
      (sandbox, .checkpoint { task with phase := phase })
  | .kill task => (killStep env now sandbox task).map fun (sandbox, phase) =>
      (sandbox, .kill { task with phase := phase })

inductive Op where
  | spawn (branchId : BranchId) (parentId : Option BranchId)
  | exec (branchId : BranchId)
  | execDetached (branchId : BranchId)
  | checkpoint (branchId : BranchId)
  | kill (branchId : BranchId)
  deriving DecidableEq, Repr

def Op.call : Op → Call
  | .spawn branchId parentId => .spawn ⟨branchId, parentId, .admission⟩
  | .exec branchId => .exec ⟨branchId, false, .lock⟩
  | .execDetached branchId => .exec ⟨branchId, true, .lock⟩
  | .checkpoint branchId => .checkpoint ⟨branchId, .lock⟩
  | .kill branchId => .kill ⟨branchId, .wait⟩

structure State where
  sandbox : Sandbox
  calls : List Call
  /-- the number of steps made so far -/
  clock : Instant

inductive Action where
  | invoke (op : Op)
  | step (call : Nat) (env : Env)
  /-- a guest that is not stopped changes its memory or its overlay -/
  | guest (vm : Vmm)
  /-- a VMM ends by itself -/
  | exit (vm : Vmm)
  deriving DecidableEq

namespace State

def step (config : Config) (state : State) : Action → Option State
  | .invoke op => some ⟨state.sandbox, state.calls ++ [op.call], state.clock + 1⟩
  | .step c env => (state.calls[c]?).bind fun call =>
      (call.step config env state.clock state.sandbox).map fun (sandbox, call) =>
        ⟨sandbox, state.calls.set c call, state.clock + 1⟩
  | .guest vm =>
    if (state.sandbox.machines.get? vm).any fun machine => machine.running && machine.stoppedAt.isNone
    then some { state with clock := state.clock + 1 } else none
  | .exit vm => some ⟨state.sandbox.exit vm state.clock, state.calls, state.clock + 1⟩

/-- A new sandbox; the branch directories may hold what an earlier one has left. -/
def fresh (disk : Disk Path Image) : State where
  sandbox := ⟨.empty, ∅, .empty, .empty, .empty, .empty, .empty, ∅, 0, .empty, 0, disk⟩
  calls := []
  clock := 0

def Step (config : Config) (before : State) (action : Action) (after : State) : Prop :=
  before.step config action = some after

end State

end Agentfork.Firecracker.Snapshots

import Agentfork.Orchestrator.Registry

/-! # One branch at a time: the bodies of create_parent, spawn_one and _kill

A task is one run of `create_parent`'s body, of `fork`'s `spawn_one` or of
`_kill`. It advances by steps: a step is one section under the lock, or what
happens inside a backend call, and a task in the phase of a backend call is
inside that call. Between two steps any other task may run, since the lock is
never held across a backend call. -/

namespace Agentfork.Orchestrator

/-! ## What the surroundings decide -/

/-- What a backend call does next: take effect and go on, return, or raise. One
that returns has taken effect, one that raises may have. -/
inductive Reply where
  | working
  | returned
  | raised (fault : Fault) (tookEffect : Bool)
  deriving DecidableEq, Repr

def Reply.effect : Reply → Bool
  | .working | .returned => true
  | .raised _ tookEffect => tookEffect

/-- The answers of the surroundings in one step. -/
structure Env where
  reply : Reply
  /-- the failure of a registry write -/
  persist : Option Fault
  now : Int
  /-- the number of tokens that `kv.kill` returns -/
  freed : Nat
  /-- the order in which a set is iterated -/
  order : List BranchId
  deriving DecidableEq

namespace Shared

def holdKv (branchId : BranchId) (shared : Shared) : Shared :=
  { shared with kv := insert branchId shared.kv }

def dropKv (branchId : BranchId) (shared : Shared) : Shared :=
  { shared with kv := shared.kv.erase branchId }

def holdSandbox (branchId : BranchId) (shared : Shared) : Shared :=
  { shared with sandbox := insert branchId shared.sandbox }

def dropSandbox (branchId : BranchId) (shared : Shared) : Shared :=
  { shared with sandbox := shared.sandbox.erase branchId }

/-- `self._spawning.discard(branch_id)` -/
def doneSpawning (branchId : BranchId) (shared : Shared) : Shared :=
  { shared with spawning := shared.spawning.erase branchId }

/-- `self._killing.add(branch_id)` -/
def markKilling (branchId : BranchId) (shared : Shared) : Shared :=
  { shared with killing := insert branchId shared.killing }

/-- `self._killing.discard(branch_id)` -/
def doneKilling (branchId : BranchId) (shared : Shared) : Shared :=
  { shared with killing := shared.killing.erase branchId }

end Shared

/-! ## Starting a branch -/

inductive StartPhase where
  /-- marked by `fork`, not yet taken up -/
  | queued
  /-- in `kv.create_tree` or `kv.fork_branch` -/
  | kvStart
  | sandboxSpawn
  | waitReady
  | kvExtend
  /-- before the section that makes the record live -/
  | goLive
  /-- in `_rollback_branch`, first cleanup -/
  | rollbackKv (fault : Fault)
  /-- second cleanup; the first one failed or not -/
  | rollbackSandbox (fault : Fault) (failed : Bool)
  | rollbackForget (fault : Fault)
  /-- before the `finally` that clears the mark -/
  | settle (outcome : Except Fault Branch)
  | finished (outcome : Except Fault Branch)

structure StartTask where
  branchId : BranchId
  parentId : Option BranchId
  tokens : List Nat
  phase : StartPhase

/-- `if tokens: self.kv.extend(branch_id, tokens)` -/
def StartTask.afterReady (task : StartTask) : StartPhase :=
  if task.tokens = [] then .goLive else .kvExtend

/-- A child neither waits nor gets tokens. -/
def StartTask.afterSpawn (config : Config) (task : StartTask) : StartPhase :=
  match task.parentId with
  | some _ => .goLive
  | none => if config.waitReady then .waitReady else task.afterReady

/-- The section that makes the record live. -/
def goLive (config : Config) (failure : Option Fault) (task : StartTask) (shared : Shared) :
    Except Fault Branch × Shared :=
  match task.parentId with
  | none => shared.replaceBranch config failure task.branchId (Shared.setState .live)
  | some parentId =>
    if shared.isLive parentId then
      shared.replaceBranch config failure task.branchId (Shared.setState .live)
    else (.error (.runtimeError s!"parent {parentId} died while forking {task.branchId}"), shared)

def startStep (config : Config) (env : Env) (shared : Shared) (task : StartTask) :
    Option (Shared × StartPhase) :=
  match task.phase with
  | .queued => some (shared, .kvStart)
  | .kvStart =>
    let shared := if env.reply.effect then shared.holdKv task.branchId else shared
    match env.reply with
    | .working => some (shared, .kvStart)
    | .returned => some (shared, .sandboxSpawn)
    | .raised fault _ => some (shared, .rollbackKv fault)
  | .sandboxSpawn =>
    let shared := if env.reply.effect then shared.holdSandbox task.branchId else shared
    match env.reply with
    | .working => some (shared, .sandboxSpawn)
    | .returned => some (shared, task.afterSpawn config)
    | .raised fault _ => some (shared, .rollbackKv fault)
  | .waitReady =>
    match env.reply with
    | .working => some (shared, .waitReady)
    | .returned => some (shared, task.afterReady)
    | .raised fault _ => some (shared, .rollbackKv fault)
  | .kvExtend =>
    match env.reply with
    | .working => some (shared, .kvExtend)
    | .returned => some (shared, .goLive)
    | .raised fault _ => some (shared, .rollbackKv fault)
  | .goLive =>
    match goLive config env.persist task shared with
    | (.ok branch, shared) => some (shared, .settle (.ok branch))
    | (.error fault, shared) => some (shared, .rollbackKv fault)
  | .rollbackKv fault =>
    let shared := if env.reply.effect then shared.dropKv task.branchId else shared
    match env.reply with
    | .working => some (shared, .rollbackKv fault)
    | .returned => some (shared, .rollbackSandbox fault false)
    | .raised _ _ => some (shared, .rollbackSandbox fault true)
  | .rollbackSandbox fault failed =>
    let shared := if env.reply.effect then shared.dropSandbox task.branchId else shared
    match env.reply with
    | .working => some (shared, .rollbackSandbox fault failed)
    | .returned => some (shared, if failed then .settle (.error fault) else .rollbackForget fault)
    | .raised _ _ => some (shared, .settle (.error fault))
  | .rollbackForget fault =>
    match shared.forget config env.persist task.branchId with
    | (.ok (), shared) => some (shared, .settle (.error fault))
    -- an exception out of `_forget` takes the place of the one that caused the rollback
    | (.error raised, shared) => some (shared, .settle (.error raised))
  | .settle outcome => some (shared.doneSpawning task.branchId, .finished outcome)
  | .finished _ => none

/-! ## Killing a branch -/

inductive KillPhase where
  /-- before the section that journals the intent -/
  | queued
  | sandboxKill
  | kvKill
  /-- a backend call has raised -/
  | failed (fault : Fault)
  /-- before the section that forgets the record -/
  | forget (freed : Nat)
  | finished (outcome : Except Fault KillReceipt)

structure KillTask where
  branchId : BranchId
  allowClosing : Bool
  phase : KillPhase

/-- The first section of `_kill`. -/
def admitKill (config : Config) (failure : Option Fault) (task : KillTask) (shared : Shared) :
    Shared × KillPhase :=
  match shared.ensureOpen task.allowClosing with
  | .error fault => (shared, .finished (.error fault))
  | .ok () =>
    if task.branchId ∉ shared.branches ∨ task.branchId ∈ shared.killing ∨
        task.branchId ∈ shared.spawning then
      (shared, .finished (.ok ⟨task.branchId, 0, false⟩))
    else
      match (shared.markKilling task.branchId).replaceBranch config failure task.branchId
        (Shared.setState .killing) with
      | (.ok _, shared) => (shared, .sandboxKill)
      | (.error fault, shared) => (shared.doneKilling task.branchId, .finished (.error fault))

/-- The last section of a `_kill` whose backend calls have returned. -/
def forgetKilled (config : Config) (failure : Option Fault) (branchId : BranchId) (freed : Nat)
    (shared : Shared) : Shared × KillPhase :=
  match (shared.doneKilling branchId).forget config failure branchId with
  | (.ok (), shared) =>
    ({ shared with metrics := { shared.metrics with kills := shared.metrics.kills + 1 } },
      .finished (.ok ⟨branchId, freed, true⟩))
  | (.error fault, shared) => (shared, .finished (.error fault))

def killStep (config : Config) (env : Env) (shared : Shared) (task : KillTask) :
    Option (Shared × KillPhase) :=
  match task.phase with
  | .queued => some (admitKill config env.persist task shared)
  | .sandboxKill =>
    let shared := if env.reply.effect then shared.dropSandbox task.branchId else shared
    match env.reply with
    | .working => some (shared, .sandboxKill)
    | .returned => some (shared, .kvKill)
    | .raised fault _ => some (shared, .failed fault)
  | .kvKill =>
    let shared := if env.reply.effect then shared.dropKv task.branchId else shared
    match env.reply with
    | .working => some (shared, .kvKill)
    | .returned => some (shared, .forget env.freed)
    | .raised fault _ => some (shared, .failed fault)
  | .failed fault =>
    let shared := shared.doneKilling task.branchId
    some ({ shared with metrics := { shared.metrics with killFailures := shared.metrics.killFailures + 1 } },
      .finished (.error fault))
  | .forget freed => some (forgetKilled config env.persist task.branchId freed shared)
  | .finished _ => none

/-! ## Tasks -/

inductive Task where
  | start (task : StartTask)
  | kill (task : KillTask)

namespace Task

def branchId : Task → BranchId
  | .start task => task.branchId
  | .kill task => task.branchId

def queued : Task → Bool
  | .start ⟨_, _, _, .queued⟩ => true
  | .kill ⟨_, _, .queued⟩ => true
  | _ => false

def finished : Task → Bool
  | .start ⟨_, _, _, .finished _⟩ => true
  | .kill ⟨_, _, .finished _⟩ => true
  | _ => false

/-- The task stands for a running operation on its branch: a child of a fork
from the moment it is marked, a kill from the moment its intent is journaled. -/
def active : Task → Bool
  | .start ⟨_, _, _, .finished _⟩ => false
  | .start _ => true
  | .kill ⟨_, _, .queued⟩ => false
  | .kill ⟨_, _, .finished _⟩ => false
  | .kill _ => true

def step (config : Config) (env : Env) (shared : Shared) : Task → Option (Shared × Task)
  | .start task => (startStep config env shared task).map fun (shared, phase) =>
      (shared, .start { task with phase := phase })
  | .kill task => (killStep config env shared task).map fun (shared, phase) =>
      (shared, .kill { task with phase := phase })

end Task

end Agentfork.Orchestrator

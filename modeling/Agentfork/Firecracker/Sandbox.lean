import Mathlib.Data.Finset.Basic
import Agentfork.Library.Dict

/-! # The Firecracker sandbox and the processes of its host

The state that the sandbox's lock protects, the pid records in the branch
directories and the processes of the host, with the functions on them that
`spawn`, `restart` and `kill` are made of.

A handle names its process for good, while the host may give the pid of a process
that is gone to another one. -/

namespace Agentfork.Firecracker

abbrev BranchId := String

structure Process where
  pid : Nat
  startTime : Nat
  exe : String
  /-- the name in `/proc/<pid>/comm` -/
  comm : String
  /-- the branch that this sandbox has started it for; no function reads it -/
  vmmOf : Option BranchId
  deriving DecidableEq, Repr

/-- A `MicroVM` as far as its process goes. -/
structure MicroVM where
  proc : Nat
  pid : Nat
  deriving DecidableEq, Repr

/-- The body of `fc.pid`; a record of an older version has the pid alone. -/
structure PidRecord where
  pid : Nat
  startTime : Option Nat
  exe : Option String
  deriving DecidableEq, Repr

inductive Fault where
  | valueError (message : String)
  | runtimeError (message : String)
  /-- what a step of the host or of the VMM raises -/
  | raised
  deriving DecidableEq, Repr

structure Sandbox where
  vms : Dict BranchId MicroVM
  pending : Finset BranchId
  parentForks : Dict BranchId Nat
  /-- the pid files, `none` for one whose body is no record -/
  records : Dict BranchId (Option PidRecord)
  /-- the processes that are running -/
  processes : Dict Nat Process
  /-- the number of processes started so far -/
  started : Nat

namespace Sandbox

/-! ## Processes -/

def withPid (pid : Nat) (sandbox : Sandbox) : Option (Nat × Process) :=
  sandbox.processes.entries.find? fun entry => entry.2.pid = pid

/-- The host starts a process under a pid that is free. -/
def launch (process : Process) (sandbox : Sandbox) : Option (MicroVM × Sandbox) :=
  if (sandbox.withPid process.pid).isSome then none
  else some (⟨sandbox.started, process.pid⟩, { sandbox with
    processes := sandbox.processes.insert sandbox.started process
    started := sandbox.started + 1 })

/-- The process is gone: it has exited or was killed. -/
def exit (proc : Nat) (sandbox : Sandbox) : Sandbox :=
  { sandbox with processes := sandbox.processes.erase proc }

/-- SIGKILL by pid -/
def signal (pid : Nat) (sandbox : Sandbox) : Sandbox :=
  match sandbox.withPid pid with
  | some (proc, _) => sandbox.exit proc
  | none => sandbox

/-- `vm.proc.poll() is None` -/
def polls (vm : MicroVM) (sandbox : Sandbox) : Bool := decide (vm.proc ∈ sandbox.processes)

/-! ## Pid records -/

/-- `_process_identity`; `/proc` may be unreadable. -/
def processIdentity (readable : Bool) (pid : Nat) (sandbox : Sandbox) : Option PidRecord :=
  if readable then
    (sandbox.withPid pid).map fun (_, process) => ⟨pid, some process.startTime, some process.exe⟩
  else none

/-- `_pid_is_our_vmm` -/
def pidIsOurVmm (vmmComm : String) (readable : Bool) (pid : Nat) (sandbox : Sandbox) : Option Bool :=
  if readable then (sandbox.withPid pid).map fun (_, process) => decide (process.comm = vmmComm) else none

/-- `_write_pid_record` -/
def writePidRecord (readable : Bool) (branchId : BranchId) (pid : Nat) (sandbox : Sandbox) : Sandbox :=
  let record := (sandbox.processIdentity readable pid).getD ⟨pid, none, none⟩
  { sandbox with records := sandbox.records.insert branchId (some record) }

def removePidRecord (branchId : BranchId) (sandbox : Sandbox) : Sandbox :=
  { sandbox with records := sandbox.records.erase branchId }

/-- `kill` leaves the recorded pid alone: there is no such process, or it is not
the one that was recorded. -/
def recycled (vmmComm : String) (readable : Bool) (record : PidRecord) (sandbox : Sandbox) : Bool :=
  match sandbox.processIdentity readable record.pid with
  | none => true
  | some current =>
    if record.startTime.isSome && record.exe.isSome then decide (current ≠ record)
    else decide (sandbox.pidIsOurVmm vmmComm readable record.pid = some false)

/-! ## Bookkeeping -/

def track (branchId : BranchId) (vm : MicroVM) (sandbox : Sandbox) : Sandbox :=
  { sandbox with vms := sandbox.vms.insert branchId vm }

def untrack (branchId : BranchId) (sandbox : Sandbox) : Sandbox :=
  { sandbox with vms := sandbox.vms.erase branchId }

/-- The forks of a parent that are in flight. -/
def forksOf (parentId : BranchId) (sandbox : Sandbox) : Nat := (sandbox.parentForks.get? parentId).getD 0

/-- The first section of `spawn`, once it has found the id free. -/
def enter (branchId : BranchId) (parentId : Option BranchId) (sandbox : Sandbox) : Sandbox :=
  { sandbox with
    pending := insert branchId sandbox.pending
    parentForks := match parentId with
      | some parentId => sandbox.parentForks.insert parentId (sandbox.forksOf parentId + 1)
      | none => sandbox.parentForks }

/-- The `finally` of `spawn`. -/
def leave (branchId : BranchId) (parentId : Option BranchId) (sandbox : Sandbox) : Sandbox :=
  { sandbox with
    pending := sandbox.pending.erase branchId
    parentForks := match parentId with
      | some parentId =>
        let remaining := sandbox.forksOf parentId - 1
        if remaining ≠ 0 then sandbox.parentForks.insert parentId remaining
        else sandbox.parentForks.erase parentId
      | none => sandbox.parentForks }

/-- `sweep_dead` -/
def sweepDead (sandbox : Sandbox) : List BranchId :=
  (sandbox.vms.entries.filter fun entry => !sandbox.polls entry.2).map Prod.fst

end Sandbox

end Agentfork.Firecracker

import Agentfork.Library.Disk
import Agentfork.Firecracker.Sandbox

/-! # Snapshots, generations and per-branch locks

The part of the sandbox that decides from which snapshot a child is restored: the
handles, the generation counters, the lock of each branch, the snapshot files of
the branch directories and the guests of the VMMs.

An instant is a point of a run. A guest that is not stopped may change its memory
and its overlay from one instant to the next, so what is captured of it is named
by the instant from which it has stood still. -/

namespace Agentfork.Firecracker.Snapshots

abbrev Instant := Nat

/-- The handle of a VMM: the branch whose directory it runs in and its number. -/
structure Vmm where
  branchId : BranchId
  number : Nat
  deriving DecidableEq, Repr

inductive SnapshotFile where
  | mem
  | state
  deriving DecidableEq, Repr

/-- A snapshot file of a branch directory. -/
abbrev Path := BranchId × SnapshotFile

/-- What a snapshot writes into its two files. -/
structure Image where
  takenAt : Instant
  /-- since when the guest had stood still -/
  guest : Instant
  deriving DecidableEq, Repr

/-- What `_fork_source` hands to the spawn of a child. -/
structure Handed where
  parentId : BranchId
  /-- when the spawn took the parent's lock -/
  lockedAt : Instant
  /-- the parent had a live handle -/
  live : Bool
  /-- the instant of a live parent that the child's overlay is a copy of -/
  overlay : Option Instant
  /-- `pmem` in the child's jail -/
  mem : Option (Handle Path)
  /-- `pstate` in the child's jail -/
  state : Option (Handle Path)
  deriving DecidableEq, Repr

/-- A guest that was restored: its memory is read from `mem` as it is touched. -/
structure Restored where
  handed : Handed
  mem : Handle Path
  /-- what `mem` held at the restore -/
  memory : Image
  /-- what the state file held -/
  device : Image
  deriving DecidableEq, Repr

structure Machine where
  restored : Option Restored
  running : Bool
  /-- since when the guest has been paused, or its VMM gone -/
  stoppedAt : Option Instant
  deriving DecidableEq, Repr

/-- The guest of the VMM stands still from now on, or has done so before. -/
def Machine.stop (now : Instant) (machine : Machine) : Machine :=
  { machine with stoppedAt := some (machine.stoppedAt.getD now) }

/-- The settings the code below depends on. -/
structure Config where
  jailed : Bool
  vsock : Bool
  overlays : Bool
  deriving DecidableEq, Repr

structure Sandbox where
  vms : Dict BranchId Vmm
  pending : Finset BranchId
  parentForks : Dict BranchId Nat
  /-- the branches with a recorded snapshot; its paths are those of the branch -/
  snapshots : Finset BranchId
  gen : Dict BranchId Nat
  snapGen : Dict BranchId Nat
  parentLocks : Dict BranchId Nat
  /-- the lock objects that somebody holds -/
  held : Finset Nat
  /-- the number of lock objects made so far -/
  locks : Nat
  machines : Dict Vmm Machine
  /-- the number of VMMs started so far -/
  started : Nat
  disk : Disk Path Image

namespace Sandbox

/-! ## VMMs -/

def runs (vm : Vmm) (sandbox : Sandbox) : Bool := (sandbox.machines.get? vm).any Machine.running

def alter (vm : Vmm) (update : Machine → Machine) (sandbox : Sandbox) : Sandbox :=
  match sandbox.machines.get? vm with
  | some machine => { sandbox with machines := sandbox.machines.insert vm (update machine) }
  | none => sandbox

/-- Start a VMM in the directory of the branch. -/
def launch (branchId : BranchId) (sandbox : Sandbox) : Vmm × Sandbox :=
  let vm : Vmm := ⟨branchId, sandbox.started⟩
  (vm, { sandbox with
    machines := sandbox.machines.insert vm ⟨none, true, none⟩
    started := sandbox.started + 1 })

def pause (vm : Vmm) (now : Instant) (sandbox : Sandbox) : Sandbox := sandbox.alter vm (Machine.stop now)

def resume (vm : Vmm) (sandbox : Sandbox) : Sandbox :=
  sandbox.alter vm fun machine => if machine.running then { machine with stoppedAt := none } else machine

/-- The VMM is gone: it was killed or has exited. -/
def exit (vm : Vmm) (now : Instant) (sandbox : Sandbox) : Sandbox :=
  sandbox.alter vm fun machine => { Machine.stop now machine with running := false }

def stoppedAt (vm : Vmm) (sandbox : Sandbox) : Option Instant :=
  (sandbox.machines.get? vm).bind Machine.stoppedAt

/-- The instant of the guest that a capture made now is one of. -/
def instantOf (vm : Vmm) (now : Instant) (sandbox : Sandbox) : Instant := (sandbox.stoppedAt vm).getD now

/-! ## Snapshot files -/

/-- `MicroVM.snapshot`, as far as it has written the files. -/
def snapshot (branchId : BranchId) (vm : Vmm) (written : Finset SnapshotFile) (now : Instant)
    (sandbox : Sandbox) : Sandbox :=
  let image : Image := ⟨now, sandbox.instantOf vm now⟩
  let disk := sandbox.disk
  let disk := if .mem ∈ written then disk.write (branchId, .mem) image else disk
  let disk := if .state ∈ written then disk.write (branchId, .state) image else disk
  { sandbox with disk := disk }

/-- `_cleanup_artifacts`, as far as it has removed the files. -/
def cleanupArtifacts (branchId : BranchId) (removed : Finset SnapshotFile) (sandbox : Sandbox) : Sandbox :=
  let disk := sandbox.disk
  let disk := if .mem ∈ removed then disk.remove (branchId, .mem) else disk
  let disk := if .state ∈ removed then disk.remove (branchId, .state) else disk
  { sandbox with disk := disk }

/-- `_link_into`: a hard link, or a copy where the filesystem has none -/
def linkInto (linked : Bool) (path : Path) (sandbox : Sandbox) : Option (Handle Path × Sandbox) :=
  (sandbox.disk.lookup path).map fun source =>
    if linked then (source, sandbox)
    else ((sandbox.disk.copy source).1, { sandbox with disk := (sandbox.disk.copy source).2 })

/-- `MicroVM.restore`: from the files in the child's jail, else from those of the parent -/
def restore (vm : Vmm) (handed : Handed) (sandbox : Sandbox) : Option Sandbox :=
  match handed.mem.or (sandbox.disk.lookup (handed.parentId, .mem)),
    handed.state.or (sandbox.disk.lookup (handed.parentId, .state)) with
  | some mem, some state => some <| sandbox.alter vm fun machine => { machine with
      restored := some ⟨handed, mem, sandbox.disk.read mem, sandbox.disk.read state⟩ }
  | _, _ => none

/-! ## Generations -/

def genOf (branchId : BranchId) (sandbox : Sandbox) : Nat := (sandbox.gen.get? branchId).getD 0

/-- `stale` in `_fork_source` -/
def stale (parentId : BranchId) (sandbox : Sandbox) : Bool :=
  decide (parentId ∉ sandbox.snapshots) || decide (sandbox.snapGen.get? parentId ≠ some (sandbox.genOf parentId))

/-- The `finally` of an exec. -/
def bump (branchId : BranchId) (sandbox : Sandbox) : Sandbox :=
  if branchId ∈ sandbox.vms then
    { sandbox with gen := sandbox.gen.insert branchId (sandbox.genOf branchId + 1) }
  else sandbox

/-- A snapshot of the branch has been taken at the generation. -/
def record (branchId : BranchId) (gen : Nat) (sandbox : Sandbox) : Sandbox :=
  { sandbox with
    snapshots := insert branchId sandbox.snapshots
    snapGen := sandbox.snapGen.insert branchId gen }

/-! ## Locks -/

/-- `_parent_lock` -/
def parentLock (parentId : BranchId) (sandbox : Sandbox) : Nat × Sandbox :=
  match sandbox.parentLocks.get? parentId with
  | some lock => (lock, sandbox)
  | none => (sandbox.locks, { sandbox with
      parentLocks := sandbox.parentLocks.insert parentId sandbox.locks
      locks := sandbox.locks + 1 })

/-- Waits while somebody holds the lock. -/
def acquire (lock : Nat) (sandbox : Sandbox) : Option Sandbox :=
  if lock ∈ sandbox.held then none else some { sandbox with held := insert lock sandbox.held }

def release (lock : Nat) (sandbox : Sandbox) : Sandbox :=
  { sandbox with held := sandbox.held.erase lock }

def dropLock (branchId : BranchId) (sandbox : Sandbox) : Sandbox :=
  { sandbox with parentLocks := sandbox.parentLocks.erase branchId }

/-! ## Bookkeeping -/

def track (branchId : BranchId) (vm : Vmm) (sandbox : Sandbox) : Sandbox :=
  { sandbox with vms := sandbox.vms.insert branchId vm }

def untrack (branchId : BranchId) (sandbox : Sandbox) : Sandbox :=
  { sandbox with vms := sandbox.vms.erase branchId }

def forksOf (parentId : BranchId) (sandbox : Sandbox) : Nat := (sandbox.parentForks.get? parentId).getD 0

/-- The first section of `spawn`, once it has found the id free. -/
def enter (branchId : BranchId) (parentId : Option BranchId) (sandbox : Sandbox) : Sandbox :=
  { sandbox with
    pending := insert branchId sandbox.pending
    parentForks := match parentId with
      | some parentId => sandbox.parentForks.insert parentId (sandbox.forksOf parentId + 1)
      | none => sandbox.parentForks }

/-- The `finally` of `spawn`. -/
def leave (branchId : BranchId) (parentId : Option BranchId) (sandbox : Sandbox) : Sandbox :=
  { sandbox with
    pending := sandbox.pending.erase branchId
    parentForks := match parentId with
      | some parentId =>
        let remaining := sandbox.forksOf parentId - 1
        if remaining ≠ 0 then sandbox.parentForks.insert parentId remaining
        else sandbox.parentForks.erase parentId
      | none => sandbox.parentForks }

/-- What `kill` takes out of the tables. -/
def forget (branchId : BranchId) (sandbox : Sandbox) : Sandbox :=
  { sandbox with
    vms := sandbox.vms.erase branchId
    snapshots := sandbox.snapshots.erase branchId
    gen := sandbox.gen.erase branchId
    snapGen := sandbox.snapGen.erase branchId }

end Sandbox

end Agentfork.Firecracker.Snapshots

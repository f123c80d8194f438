import Agentfork.Firecracker.SnapshotSteps

/-! # What a write to a memory file can reach

A restored guest reads the memory it has not touched yet from the inode it was
restored from. That inode is its parent's memory file, by its name or by a hard
link in the child's jail, and the next snapshot of the parent overwrites it.

Handles are grounded in every run: whatever a guest or a spawn holds is named by
the path it comes from or by none. So a write reaches the memory of a guest only
through the memory file of the branch it was forked from. -/

namespace Agentfork.Firecracker.Snapshots

open Transition

/-! ## Grounded handles -/

/-- The files that were staged were opened in the parent's directory. -/
def Handed.Grounded (disk : Disk Path Image) (handed : Handed) : Prop :=
  ∀ file handle, handed.staged file = some handle → disk.Opened (handed.parentId, file) handle

structure Grounded (state : State) : Prop where
  guests : ∀ vm machine restored, state.sandbox.machines.get? vm = some machine →
    machine.restored = some restored →
    state.sandbox.disk.Opened (restored.handed.parentId, .mem) restored.mem
  staged : ∀ call ∈ state.calls, ∀ handed, call.handed = some handed →
    handed.Grounded state.sandbox.disk

/-- A restore reads the staged file, or the one in the parent's directory. -/
theorem Handed.Grounded.resolved {disk : Disk Path Image} {handed : Handed} (grounded : handed.Grounded disk)
    {file : SnapshotFile} {handle : Handle Path}
    (resolved : (handed.staged file).or (disk.lookup (handed.parentId, file)) = some handle) :
    disk.Opened (handed.parentId, file) handle := by
  cases isStaged : handed.staged file with
  | some staged =>
    rw [isStaged, Option.some_or] at resolved
    cases resolved
    exact grounded file handle isStaged
  | none =>
    rw [isStaged, Option.none_or] at resolved
    exact .of_lookup resolved

namespace Grounded

variable {config : Config} {state after : State} {action : Action}

theorem call (grounded : Grounded state) {c : Nat} {env : Env} {before next : Call} {sandbox : Sandbox}
    (found : state.calls[c]? = some before)
    (move : CallMove config env state.clock state.sandbox before sandbox next) :
    Grounded ⟨sandbox, state.calls.set c next, state.clock + 1⟩ := by
  have beforeStaged := grounded.staged before (List.mem_of_getElem? found)
  have changes := move.disk
  refine ⟨fun vm machine restored isMachine isRestored => ?_, fun one member handed isHanded => ?_⟩
  · obtain keeps | ⟨child, handed, mem, device, isHanded, isMem, _, rfl⟩ := move.guests
    · obtain isNone | ⟨old, isOld, same, _⟩ := keeps vm machine isMachine
      · rw [isNone] at isRestored
        cases isRestored
      · exact changes.opened (grounded.guests vm old restored isOld (same ▸ isRestored))
    · rw [Sandbox.get?_alter] at isMachine
      split at isMachine
      · obtain ⟨old, _, rfl⟩ := Option.map_eq_some_iff.1 isMachine
        cases isRestored
        exact changes.opened ((beforeStaged handed isHanded).resolved isMem)
      · exact changes.opened (grounded.guests vm machine restored isMachine isRestored)
  · obtain old | rfl := List.mem_or_eq_of_mem_set member
    · exact fun file handle isStaged => changes.opened (grounded.staged one old handed isHanded file handle isStaged)
    · obtain same | ⟨noMem, noState⟩ | ⟨file, staged, old, staging, wasHanded, rfl⟩ := move.staged isHanded
      · exact fun file handle isStaged => changes.opened (beforeStaged handed same file handle isStaged)
      · intro file handle isStaged
        cases file
        · exact absurd (noMem.symm.trans isStaged) (fun same => by cases same)
        · exact absurd (noState.symm.trans isStaged) nofun
      · intro other handle isStaged
        rw [Handed.staged_stage] at isStaged
        rw [Handed.parentId_stage]
        split at isStaged
        · next same =>
          cases isStaged
          rw [same]
          exact Sandbox.linkInto_opened staging
        · exact changes.opened (beforeStaged old wasHanded other handle isStaged)

theorem step (grounded : Grounded state) (taken : state.Step config action after) : Grounded after := by
  cases action with
  | invoke op =>
    cases taken
    refine ⟨grounded.guests, fun one member => ?_⟩
    obtain old | new := List.mem_append.1 member
    · exact grounded.staged one old
    · rw [List.mem_singleton.1 new]
      cases op <;> exact fun _ same => by cases same
  | step c env =>
    obtain ⟨call, found, taken⟩ := Option.bind_eq_some_iff.1 taken
    obtain ⟨⟨sandbox, next⟩, stepped, rfl⟩ := Option.map_eq_some_iff.1 taken
    exact grounded.call found (Call.step_moves stepped)
  | guest vm =>
    obtain ⟨_, equal⟩ := Option.ite_none_right_eq_some.1 taken
    cases equal
    exact ⟨grounded.guests, grounded.staged⟩
  | exit vm =>
    cases taken
    have sameDisk : (state.sandbox.exit vm state.clock).disk = state.sandbox.disk :=
      Sandbox.disk_alter ..
    refine ⟨fun other machine restored isMachine isRestored => ?_, by rw [sameDisk]; exact grounded.staged⟩
    rw [sameDisk]
    obtain isNone | ⟨old, isOld, same, _⟩ := keeps_exit vm other machine isMachine
    · rw [isNone] at isRestored
      cases isRestored
    · exact grounded.guests other old restored isOld (same ▸ isRestored)

end Grounded

theorem grounded_fresh (disk : Disk Path Image) : Grounded (State.fresh disk) where
  guests vm machine restored found := by cases found
  staged call member := by cases member

/-! ## Memory that backs a guest -/

/-- The guest reads its memory from what is the branch's memory file now. -/
def Restored.reads (disk : Disk Path Image) (branchId : BranchId) (restored : Restored) : Prop :=
  disk.inode? (branchId, .mem) = some restored.mem.inode

instance (disk : Disk Path Image) (branchId : BranchId) (restored : Restored) :
    Decidable (restored.reads disk branchId) := by
  unfold Restored.reads
  infer_instance

namespace State

/-- What backs the memory of every running guest is what it was restored from. -/
def Intact (state : State) : Prop :=
  ∀ vm machine restored, state.sandbox.machines.get? vm = some machine → machine.running = true →
    machine.restored = some restored → state.sandbox.disk.read restored.mem = restored.memory

end State

section Isolation

variable {config : Config} {state after : State} {action : Action}

end Isolation

/-! ## Runs of one sandbox -/

def emptyDisk : Disk Path Image where
  inodes := .empty
  contents _ := ⟨0, 0⟩
  made := 0
  removals _ := 0
  fresh := nofun
  apart := nofun

def works : Env := ⟨.returned, ∅, {.mem, .state}, true, false⟩

def sandboxRun (config : Config) (actions : List Action) : State :=
  runFrom (State.step config) (State.fresh emptyDisk) actions

theorem sandboxRun_reachable {config : Config} {guard : State → Action → Prop} {actions : List Action}
    (enabled : (run (State.step config) (State.fresh emptyDisk) actions).isSome = true)
    (meets : Meets (State.step config) guard (State.fresh emptyDisk) actions) :
    Reachable (State.Step config) guard (State.fresh emptyDisk) (sandboxRun config actions) :=
  reachable_runFrom enabled meets

/-- Call `c` is made and takes its steps with nothing in between. -/
def alone (c : Nat) (op : Op) (steps : Nat) : List Action :=
  .invoke op :: List.replicate steps (.step c works)

/-- Neither a jail nor overlays. -/
def plain : Config := ⟨false, true, false⟩

end Agentfork.Firecracker.Snapshots

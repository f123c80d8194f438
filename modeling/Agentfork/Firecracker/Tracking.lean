import Agentfork.Library.Ownership
import Agentfork.Firecracker.Lifecycle

/-! # Who owns a VMM

Of one branch id this looks at the handle, the spawn mark and the VMMs running
for it. A spawn that is admitted, a restart that has found its checkpoint and a
kill that has taken a handle own their branch: as long as they are alone on it,
no VMM runs for it that neither they nor the table hold. -/

namespace Agentfork.Firecracker

open Sandbox

/-! ## Views -/

structure View where
  tracked : Option Nat
  pending : Prop
  running : Nat → Prop

namespace View

/-- Every VMM that runs for the branch is the one tracked. -/
def Tracked (view : View) : Prop := ∀ proc, view.running proc → view.tracked = some proc

def Only (view : View) (vm : MicroVM) : Prop := ∀ proc, view.running proc → proc = vm.proc

def Silent (view : View) : Prop := ∀ proc, ¬ view.running proc

/-- VMMs have ended, and the handle of one that has ended may be gone. -/
structure Shrinks (before after : View) : Prop where
  pending : after.pending = before.pending
  running : ∀ proc, after.running proc → before.running proc
  tracked : after.tracked = before.tracked ∨
    after.tracked = none ∧ ∀ proc, before.tracked = some proc → ¬ after.running proc

namespace Shrinks

variable {before after : View} {vm : MicroVM}

theorem refl (view : View) : view.Shrinks view := ⟨rfl, fun _ running => running, .inl rfl⟩

theorem keepsTracked (shrinks : before.Shrinks after) (tracked : before.Tracked) : after.Tracked := by
  intro proc running
  have wasTracked := tracked proc (shrinks.running proc running)
  obtain same | ⟨_, ended⟩ := shrinks.tracked
  · exact same.trans wasTracked
  · exact absurd running (ended proc wasTracked)

theorem keepsOnly (shrinks : before.Shrinks after) (only : before.Only vm) : after.Only vm :=
  fun proc running => only proc (shrinks.running proc running)

theorem keepsSilent (shrinks : before.Shrinks after) (silent : before.Silent) : after.Silent :=
  fun proc running => silent proc (shrinks.running proc running)

theorem keepsNone (shrinks : before.Shrinks after) (untracked : before.tracked = none) :
    after.tracked = none := by
  obtain same | ⟨gone, _⟩ := shrinks.tracked
  · exact same.trans untracked
  · exact gone

end Shrinks

end View

namespace Sandbox

def view (sandbox : Sandbox) (branchId : BranchId) : View where
  tracked := (sandbox.vms.get? branchId).map MicroVM.proc
  pending := branchId ∈ sandbox.pending
  running proc := ∃ process, sandbox.processes.get? proc = some process ∧ process.vmmOf = some branchId

variable (sandbox : Sandbox) (branchId other : BranchId)

@[simp] theorem view_writePidRecord (readable : Bool) (pid : Nat) :
    (sandbox.writePidRecord readable branchId pid).view other = sandbox.view other := rfl

@[simp] theorem view_removePidRecord :
    (sandbox.removePidRecord branchId).view other = sandbox.view other := rfl

@[simp] theorem view_track (vm : MicroVM) : (sandbox.track branchId vm).view other =
    if other = branchId then { sandbox.view other with tracked := some vm.proc } else sandbox.view other := by
  by_cases here : other = branchId <;> simp [view, track, here]

@[simp] theorem view_untrack : (sandbox.untrack branchId).view other =
    if other = branchId then { sandbox.view other with tracked := none } else sandbox.view other := by
  by_cases here : other = branchId <;> simp [view, untrack, here]

@[simp] theorem view_enter (parentId : Option BranchId) : (sandbox.enter branchId parentId).view other =
    if other = branchId then { sandbox.view other with pending := True } else sandbox.view other := by
  by_cases here : other = branchId <;> simp [view, enter, here]

@[simp] theorem view_leave (parentId : Option BranchId) : (sandbox.leave branchId parentId).view other =
    if other = branchId then { sandbox.view other with pending := False } else sandbox.view other := by
  by_cases here : other = branchId <;> simp [view, leave, here]

@[simp] theorem view_exit (proc : Nat) : (sandbox.exit proc).view other =
    { sandbox.view other with running := fun one => one ≠ proc ∧ (sandbox.view other).running one } := by
  unfold view exit
  congr 1
  funext one
  by_cases same : one = proc <;> simp [same]

theorem shrinks_exit (proc : Nat) : (sandbox.view other).Shrinks ((sandbox.exit proc).view other) := by
  rw [view_exit]
  exact ⟨rfl, fun _ running => running.2, .inl rfl⟩

/-- The VMM that an operation holds is the only one, so none is left. -/
theorem silent_exit {vm : MicroVM} (only : (sandbox.view other).Only vm) :
    ((sandbox.exit vm.proc).view other).Silent := by
  intro proc running
  rw [view_exit] at running
  exact running.1 (only proc running.2)

theorem shrinks_signal (pid : Nat) : (sandbox.view other).Shrinks ((sandbox.signal pid).view other) := by
  unfold signal
  split
  · exact shrinks_exit sandbox other _
  · exact View.Shrinks.refl _

variable {sandbox branchId other} {process : Process} {vm : MicroVM} {after : Sandbox}

theorem launch_some (launched : sandbox.launch process = some (vm, after)) :
    vm.proc = sandbox.started ∧ after = { sandbox with
      processes := sandbox.processes.insert sandbox.started process
      started := sandbox.started + 1 } := by
  unfold launch at launched
  split at launched
  · cases launched
  · cases launched
    exact ⟨rfl, rfl⟩

theorem running_launch (launched : sandbox.launch process = some (vm, after)) {proc : Nat}
    (running : (after.view other).running proc) :
    proc = vm.proc ∧ process.vmmOf = some other ∨ (sandbox.view other).running proc := by
  obtain ⟨isProc, rfl⟩ := launch_some launched
  obtain ⟨found, stored, isVmm⟩ := running
  rw [Dict.get?_insert] at stored
  split at stored
  · next here =>
    cases stored
    exact .inl ⟨here.trans isProc.symm, isVmm⟩
  · exact .inr ⟨found, stored, isVmm⟩

/-- A process started for no or another branch is none of this one. -/
theorem shrinks_launch (launched : sandbox.launch process = some (vm, after))
    (differs : process.vmmOf ≠ some other) : (sandbox.view other).Shrinks (after.view other) := by
  obtain ⟨_, rfl⟩ := launch_some launched
  refine ⟨rfl, fun proc running => ?_, .inl rfl⟩
  obtain ⟨_, isVmm⟩ | before := running_launch launched running
  · exact absurd isVmm differs
  · exact before

theorem only_launch (launched : sandbox.launch process = some (vm, after))
    (silent : (sandbox.view other).Silent) : (after.view other).Only vm := by
  intro proc running
  obtain ⟨isProc, _⟩ | before := running_launch launched running
  · exact isProc
  · exact absurd before (silent proc)

theorem tracked_launch (launched : sandbox.launch process = some (vm, after)) :
    (after.view other).tracked = (sandbox.view other).tracked ∧
      (after.view other).pending = (sandbox.view other).pending := by
  obtain ⟨_, rfl⟩ := launch_some launched
  exact ⟨rfl, rfl⟩

theorem view_tracked_none : (sandbox.view branchId).tracked = none ↔ branchId ∉ sandbox.vms := by
  rw [view, Option.map_eq_none_iff, Dict.get?_eq_none]

theorem view_tracked_some {vm : MicroVM} (held : sandbox.vms.get? branchId = some vm) :
    (sandbox.view branchId).tracked = some vm.proc :=
  Option.map_eq_some_iff.2 ⟨vm, held, rfl⟩

end Sandbox

/-! ## The discipline -/

/-- What a spawn may rely on in each phase, and what it leaves behind. -/
def SpawnPhase.Owns (view : View) : SpawnPhase → Prop
  | .admission => False
  | .prepare | .launch | .discard => view.tracked = none ∧ view.Silent
  | .connect vm | .boot vm | .record vm | .install vm | .reap vm => view.tracked = none ∧ view.Only vm
  | .reseed vm => view.Only vm ∧ view.Tracked
  | .abort vm => view.Only vm
  | .settle _ | .finished _ => view.Tracked

def RestartPhase.Owns (view : View) : RestartPhase → Prop
  | .lookup | .paths => False
  | .clean | .netns | .launch => view.tracked = none ∧ view.Silent
  | .connect vm | .restore vm | .record vm | .install vm => view.tracked = none ∧ view.Only vm
  | .finished _ => view.Tracked

def KillPhase.Owns (view : View) : KillPhase → Prop
  | .reap vm => view.tracked = none ∧ view.Only vm
  | _ => True

namespace Call

/-- The kill has taken the handle of a VMM and not yet ended it. -/
def reaping : Call → Bool
  | .kill ⟨_, .reap _⟩ => true
  | _ => false

def active (call : Call) : Bool := call.spawning || call.restarting || call.reaping

def Owns (view : View) : Call → Prop
  | .spawn task => view.pending ∧ task.phase.Owns view
  | .restart task => task.phase.Owns view
  | .kill task => task.phase.Owns view

end Call

def supervision : Discipline BranchId View Call where
  key := Call.branchId
  active call := call.active = true
  owns := Call.Owns
  idle := View.Tracked

theorem View.Shrinks.keeps {before after : View} (shrinks : before.Shrinks after) :
    supervision.Keeps before after := by
  refine ⟨fun call owns => ?_, shrinks.keepsTracked⟩
  cases call with
  | spawn task =>
    obtain ⟨branchId, parentId, phase⟩ := task
    refine ⟨shrinks.pending ▸ owns.1, ?_⟩
    have here := owns.2
    cases phase with
    | admission => exact here
    | prepare | launch | discard => exact ⟨shrinks.keepsNone here.1, shrinks.keepsSilent here.2⟩
    | connect | boot | record | install | reap => exact ⟨shrinks.keepsNone here.1, shrinks.keepsOnly here.2⟩
    | reseed => exact ⟨shrinks.keepsOnly here.1, shrinks.keepsTracked here.2⟩
    | abort => exact shrinks.keepsOnly here
    | settle | finished => exact shrinks.keepsTracked here
  | restart task =>
    obtain ⟨branchId, phase⟩ := task
    have here : phase.Owns before := owns
    show phase.Owns after
    cases phase with
    | lookup | paths => exact here
    | clean | netns | launch => exact ⟨shrinks.keepsNone here.1, shrinks.keepsSilent here.2⟩
    | connect | restore | record | install => exact ⟨shrinks.keepsNone here.1, shrinks.keepsOnly here.2⟩
    | finished => exact shrinks.keepsTracked here
  | kill task =>
    obtain ⟨branchId, phase⟩ := task
    have here : phase.Owns before := owns
    show phase.Owns after
    cases phase with
    | reap => exact ⟨shrinks.keepsNone here.1, shrinks.keepsOnly here.2⟩
    | wait | readRecord | signal | cleanup | finished => trivial

/-! ## Steps -/

section Steps

variable {vmmComm : String} {env : Env} {sandbox after : Sandbox}

theorem spawnStep_phase {task : SpawnTask} {phase : SpawnPhase}
    (here : task.phase.Owns (sandbox.view task.branchId))
    (taken : spawnStep env sandbox task = some (after, phase)) :
    phase.Owns (after.view task.branchId) := by
  unfold spawnStep at taken
  cases atPhase : task.phase with
  | admission =>
    rw [atPhase] at here
    exact here.elim
  | prepare =>
    rw [atPhase] at here
    simp only [atPhase] at taken
    cases replied : env.reply <;> simp only [replied] at taken <;> cases taken <;> exact here
  | launch =>
    rw [atPhase] at here
    simp only [atPhase] at taken
    cases replied : env.reply with
    | returned =>
      simp only [replied] at taken
      obtain ⟨⟨vm, launchedSandbox⟩, launched, equal⟩ := Option.map_eq_some_iff.1 taken
      cases equal
      exact ⟨(tracked_launch launched).1.trans here.1, only_launch launched here.2⟩
    | raised tookEffect =>
      simp only [replied] at taken
      cases taken
      exact here
  | connect vm =>
    rw [atPhase] at here
    simp only [atPhase] at taken
    cases replied : env.reply with
    | returned =>
      simp only [replied] at taken
      cases taken
      exact here
    | raised tookEffect =>
      simp only [replied] at taken
      cases taken
      exact ⟨(shrinks_exit sandbox task.branchId vm.proc).keepsNone here.1, silent_exit sandbox _ here.2⟩
  | boot vm =>
    rw [atPhase] at here
    simp only [atPhase] at taken
    cases replied : env.reply <;> simp only [replied] at taken <;> cases taken
    · exact here
    · exact here.2
  | record vm =>
    rw [atPhase] at here
    simp only [atPhase] at taken
    cases replied : env.reply <;> simp only [replied] at taken <;> cases taken
    · exact here
    · exact here.2
  | install vm =>
    rw [atPhase] at here
    simp only [atPhase] at taken
    cases taken
    rw [view_track, if_pos rfl]
    exact ⟨here.2, fun proc running => congrArg some (here.2 proc running).symm⟩
  | reseed vm =>
    rw [atPhase] at here
    simp only [atPhase] at taken
    split at taken
    · cases taken
      exact here.1
    · cases taken
      exact here.2
  | abort vm =>
    rw [atPhase] at here
    simp only [atPhase] at taken
    cases taken
    rw [view_untrack, if_pos rfl]
    exact ⟨rfl, here⟩
  | reap vm =>
    rw [atPhase] at here
    simp only [atPhase] at taken
    cases taken
    exact ⟨(shrinks_exit sandbox task.branchId vm.proc).keepsNone here.1, silent_exit sandbox _ here.2⟩
  | discard =>
    rw [atPhase] at here
    simp only [atPhase] at taken
    cases taken
    split <;> exact fun proc running => absurd running (here.2 proc)
  | settle outcome =>
    rw [atPhase] at here
    simp only [atPhase] at taken
    cases taken
    rw [view_leave, if_pos rfl]
    exact here
  | finished outcome =>
    simp only [atPhase] at taken
    cases taken

/-- A restart whose VMM answers and is recorded keeps its branch to itself. -/
theorem restartStep_phase {task : RestartTask} {phase : RestartPhase}
    (attempts : ∀ vm, task.phase = .restore vm ∨ task.phase = .record vm → env.reply = .returned)
    (here : task.phase.Owns (sandbox.view task.branchId))
    (taken : restartStep env sandbox task = some (after, phase)) :
    phase.Owns (after.view task.branchId) := by
  have tracked_of_silent : ∀ view : View, view.Silent → view.Tracked :=
    fun view silent proc running => absurd running (silent proc)
  unfold restartStep at taken
  cases atPhase : task.phase with
  | lookup | paths =>
    rw [atPhase] at here
    exact here.elim
  | clean | netns =>
    rw [atPhase] at here
    simp only [atPhase] at taken
    cases replied : env.reply <;> simp only [replied] at taken <;> cases taken
    · exact here
    · first
      | exact tracked_of_silent _ here.2
      | split <;> exact tracked_of_silent _ here.2
  | launch =>
    rw [atPhase] at here
    simp only [atPhase] at taken
    cases replied : env.reply with
    | returned =>
      simp only [replied] at taken
      obtain ⟨⟨vm, launchedSandbox⟩, launched, equal⟩ := Option.map_eq_some_iff.1 taken
      cases equal
      exact ⟨(tracked_launch launched).1.trans here.1, only_launch launched here.2⟩
    | raised tookEffect =>
      simp only [replied] at taken
      cases taken
      exact tracked_of_silent _ here.2
  | connect vm =>
    rw [atPhase] at here
    simp only [atPhase] at taken
    cases replied : env.reply with
    | returned =>
      simp only [replied] at taken
      cases taken
      exact here
    | raised tookEffect =>
      simp only [replied] at taken
      cases taken
      exact tracked_of_silent _ (silent_exit sandbox _ here.2)
  | restore vm =>
    rw [atPhase] at here
    simp only [atPhase, attempts vm (.inl atPhase)] at taken
    cases taken
    exact here
  | record vm =>
    rw [atPhase] at here
    simp only [atPhase, attempts vm (.inr atPhase)] at taken
    cases taken
    exact here
  | install vm =>
    rw [atPhase] at here
    simp only [atPhase] at taken
    cases taken
    rw [view_track, if_pos rfl]
    exact fun proc running => congrArg some (here.2 proc running).symm
  | finished outcome =>
    simp only [atPhase] at taken
    cases taken

/-! ## The other branches, and the other calls of a branch -/

theorem launch_elsewhere {branchId other : BranchId} {process : Process} {vm : MicroVM}
    (launched : sandbox.launch { process with vmmOf := some branchId } = some (vm, after))
    (differs : other ≠ branchId) : (sandbox.view other).Shrinks (after.view other) := by
  refine shrinks_launch launched fun same => differs ?_
  exact (Option.some.inj same).symm

theorem spawnStep_elsewhere {task : SpawnTask} {phase : SpawnPhase}
    (taken : spawnStep env sandbox task = some (after, phase)) {other : BranchId}
    (differs : other ≠ task.branchId) : (sandbox.view other).Shrinks (after.view other) := by
  have unchanged : ∀ changed : Sandbox, changed.view other = sandbox.view other →
      (sandbox.view other).Shrinks (changed.view other) :=
    fun changed same => same ▸ View.Shrinks.refl _
  unfold spawnStep at taken
  cases atPhase : task.phase with
  | admission =>
    simp only [atPhase] at taken
    split at taken
    · cases taken
      exact View.Shrinks.refl _
    · cases taken
      refine unchanged _ ?_
      rw [view_enter, if_neg differs]
  | prepare | boot =>
    simp only [atPhase] at taken
    cases replied : env.reply <;> simp only [replied] at taken <;> cases taken <;> exact View.Shrinks.refl _
  | launch =>
    simp only [atPhase] at taken
    cases replied : env.reply with
    | returned =>
      simp only [replied] at taken
      obtain ⟨⟨vm, launchedSandbox⟩, launched, equal⟩ := Option.map_eq_some_iff.1 taken
      cases equal
      exact launch_elsewhere launched differs
    | raised tookEffect =>
      simp only [replied] at taken
      cases taken
      exact View.Shrinks.refl _
  | connect vm =>
    simp only [atPhase] at taken
    cases replied : env.reply <;> simp only [replied] at taken <;> cases taken
    · exact View.Shrinks.refl _
    · exact shrinks_exit sandbox other vm.proc
  | record vm =>
    simp only [atPhase] at taken
    cases replied : env.reply <;> simp only [replied] at taken <;> cases taken <;> exact View.Shrinks.refl _
  | install vm =>
    simp only [atPhase] at taken
    cases taken
    refine unchanged _ ?_
    rw [view_track, if_neg differs]
  | reseed vm =>
    simp only [atPhase] at taken
    split at taken <;> cases taken <;> exact View.Shrinks.refl _
  | abort vm =>
    simp only [atPhase] at taken
    cases taken
    refine unchanged _ ?_
    rw [view_untrack, if_neg differs]
  | reap vm =>
    simp only [atPhase] at taken
    cases taken
    exact shrinks_exit sandbox other vm.proc
  | discard =>
    simp only [atPhase] at taken
    cases taken
    split <;> exact View.Shrinks.refl _
  | settle outcome =>
    simp only [atPhase] at taken
    cases taken
    refine unchanged _ ?_
    rw [view_leave, if_neg differs]
  | finished outcome =>
    simp only [atPhase] at taken
    cases taken

theorem restartStep_elsewhere {task : RestartTask} {phase : RestartPhase}
    (taken : restartStep env sandbox task = some (after, phase)) {other : BranchId}
    (differs : other ≠ task.branchId) : (sandbox.view other).Shrinks (after.view other) := by
  have unchanged : ∀ changed : Sandbox, changed.view other = sandbox.view other →
      (sandbox.view other).Shrinks (changed.view other) :=
    fun changed same => same ▸ View.Shrinks.refl _
  unfold restartStep at taken
  cases atPhase : task.phase with
  | lookup =>
    simp only [atPhase] at taken
    split at taken
    · cases taken
      exact View.Shrinks.refl _
    · cases taken
      refine unchanged _ ?_
      rw [view_untrack, if_neg differs]
  | paths | netns | restore | record =>
    simp only [atPhase] at taken
    cases replied : env.reply <;> simp only [replied] at taken <;> cases taken <;> exact View.Shrinks.refl _
  | clean =>
    simp only [atPhase] at taken
    cases replied : env.reply <;> simp only [replied] at taken <;> cases taken <;> split <;>
      exact View.Shrinks.refl _
  | launch =>
    simp only [atPhase] at taken
    cases replied : env.reply with
    | returned =>
      simp only [replied] at taken
      obtain ⟨⟨vm, launchedSandbox⟩, launched, equal⟩ := Option.map_eq_some_iff.1 taken
      cases equal
      exact launch_elsewhere launched differs
    | raised tookEffect =>
      simp only [replied] at taken
      cases taken
      exact View.Shrinks.refl _
  | connect vm =>
    simp only [atPhase] at taken
    cases replied : env.reply <;> simp only [replied] at taken <;> cases taken
    · exact View.Shrinks.refl _
    · exact shrinks_exit sandbox other vm.proc
  | install vm =>
    simp only [atPhase] at taken
    cases taken
    refine unchanged _ ?_
    rw [view_track, if_neg differs]
  | finished outcome =>
    simp only [atPhase] at taken
    cases taken

/-- A kill that takes no handle only ends VMMs, of its branch or of another one. -/
theorem killStep_shrinks {task : KillTask} {phase : KillPhase}
    (taken : killStep vmmComm env sandbox task = some (after, phase)) {other : BranchId}
    (quiet : other ≠ task.branchId ∨ task.phase ≠ .wait ∨ sandbox.vms.get? task.branchId = none) :
    (sandbox.view other).Shrinks (after.view other) := by
  unfold killStep at taken
  cases atPhase : task.phase with
  | wait =>
    simp only [atPhase] at taken
    split at taken
    · cases taken
    · cases held : sandbox.vms.get? task.branchId with
      | none =>
        simp only [held] at taken
        cases taken
        exact View.Shrinks.refl _
      | some vm =>
        simp only [held] at taken
        cases taken
        obtain differs | begun | absent := quiet
        · rw [view_untrack, if_neg differs]
          exact View.Shrinks.refl _
        · exact absurd atPhase begun
        · rw [held] at absent
          cases absent
  | reap vm =>
    simp only [atPhase] at taken
    cases taken
    exact shrinks_exit sandbox other vm.proc
  | readRecord =>
    simp only [atPhase] at taken
    split at taken <;> cases taken <;> exact View.Shrinks.refl _
  | signal record =>
    simp only [atPhase] at taken
    split at taken
    · cases taken
      exact View.Shrinks.refl _
    · split at taken <;> cases taken <;> split <;>
        first | exact shrinks_signal sandbox other _ | exact View.Shrinks.refl _
  | cleanup =>
    simp only [atPhase] at taken
    split at taken <;> cases taken <;> split <;> exact View.Shrinks.refl _
  | finished outcome =>
    simp only [atPhase] at taken
    cases taken

end Steps

end Agentfork.Firecracker

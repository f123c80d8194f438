import Agentfork.Firecracker.BranchLocks
import Agentfork.Firecracker.SnapshotIsolation

/-! # Do the memory and the disk of a child belong together?

A fork copies the parent's overlay each time, but takes a new snapshot of its
memory only if an exec has bumped the parent's generation since the last one. A
guest runs on without execs. And a snapshot that is handed out is read later, when
the child is restored, by which time another one may have replaced it.

Apart from that the two do agree: between the pause and the copy nobody else
resumes the parent, because a fork, a checkpoint and an exec exclude each other. -/

namespace Agentfork.Firecracker.Snapshots

open Transition

/-! ## Who lets a guest run on -/

section Rests

variable {config : Config} {env : Env} {now : Instant} {sandbox after : Sandbox} {call next : Call}

/-- A guest that stands still does so in the second sandbox too. -/
def Rests (vm : Vmm) (before after : Sandbox) : Prop :=
  ∀ instant, before.stoppedAt vm = some instant → after.stoppedAt vm = some instant

theorem Rests.of_eq {vm : Vmm} {before after : Sandbox} (same : after.machines = before.machines) :
    Rests vm before after := fun _ stopped => by rwa [Sandbox.stoppedAt, same]

theorem rests_alter {vm other : Vmm} {update : Machine → Machine}
    (rests : vm = other → ∀ machine instant, machine.stoppedAt = some instant →
      (update machine).stoppedAt = some instant) : Rests vm sandbox (sandbox.alter other update) := by
  intro instant stopped
  obtain ⟨machine, found, isStopped⟩ := Option.bind_eq_some_iff.1 stopped
  refine Option.bind_eq_some_iff.2 ?_
  rw [Sandbox.get?_alter]
  split
  · next here =>
    rw [← here, found]
    exact ⟨update machine, rfl, rests here machine instant isStopped⟩
  · exact ⟨machine, found, isStopped⟩

theorem stop_rests (machine : Machine) (instant : Instant) (stopped : machine.stoppedAt = some instant) :
    (machine.stop now).stoppedAt = some instant := by
  rw [Machine.stop, stopped, Option.getD_some]

theorem rests_exit (vm other : Vmm) : Rests vm sandbox (sandbox.exit other now) :=
  rests_alter fun _ => stop_rests

theorem rests_resume (sandbox : Sandbox) {vm other : Vmm} (differs : other ≠ vm) :
    Rests vm sandbox (sandbox.resume other) := rests_alter fun same => absurd same.symm differs

theorem rests_pause (sandbox : Sandbox) {vm other : Vmm} : Rests vm sandbox (sandbox.pause other now) :=
  rests_alter fun _ => stop_rests

theorem CaptureMove.rests {capture : Capture} {phase : CapturePhase} {result : CaptureResult} {vm : Vmm}
    (move : CaptureMove env now sandbox capture phase after result) (differs : capture.vm ≠ vm) :
    Rests vm sandbox after := by
  cases move with
  | paused => exact rests_pause sandbox
  | returned => exact rests_resume sandbox differs
  | raised isMiddle =>
    obtain rfl | rfl | rfl := isMiddle
    · exact .of_eq rfl
    · exact rests_pause sandbox
    · exact rests_resume sandbox differs
  | _ => exact .of_eq rfl

/-- Only the capture of a VMM lets its guest run on. -/
theorem CallMove.rests (move : CallMove config env now sandbox call after next) {vm : Vmm}
    (old : vm.number < sandbox.started)
    (others : ∀ capture work, call.capturing = some (capture, work) → capture.vm ≠ vm) :
    Rests vm sandbox after := by
  cases move with
  | @spawn branchId _ _ _ _ move =>
    cases move with
    | locks => exact .of_eq (Sandbox.machines_parentLock ..)
    | acquires acquired =>
      obtain ⟨_, rfl⟩ := Sandbox.acquire_some acquired
      exact .of_eq rfl
    | captured move => exact move.rests (others _ _ rfl)
    | linksMem staging | linksState staging =>
      rw [Sandbox.linkInto_machines staging]
      exact .of_eq rfl
    | launches =>
      have differs : vm ≠ ⟨branchId, sandbox.started⟩ := by
        rintro rfl
        exact absurd old (Nat.lt_irrefl _)
      intro instant stopped
      show (Dict.get? (sandbox.machines.insert _ _) vm).bind Machine.stoppedAt = some instant
      rw [Dict.get?_insert, if_neg differs]
      exact stopped
    | restored _ restored =>
      obtain ⟨_, _, _, _, rfl⟩ := Sandbox.restore_some restored
      exact rests_alter fun _ _ _ stopped => stopped
    | reaps => exact rests_exit _ _
    | _ => exact .of_eq rfl
  | exec move =>
    cases move with
    | locks => exact .of_eq (Sandbox.machines_parentLock ..)
    | acquires acquired =>
      obtain ⟨_, rfl⟩ := Sandbox.acquire_some acquired
      exact .of_eq rfl
    | bumps => exact .of_eq (Sandbox.machines_bump ..)
    | _ => exact .of_eq rfl
  | checkpoint move =>
    cases move with
    | locks => exact .of_eq (Sandbox.machines_parentLock ..)
    | acquires acquired =>
      obtain ⟨_, rfl⟩ := Sandbox.acquire_some acquired
      exact .of_eq rfl
    | captured move => exact move.rests (others _ _ rfl)
    | _ => exact .of_eq rfl
  | kill move =>
    cases move with
    | reaps => exact rests_exit _ _
    | _ => exact .of_eq rfl

end Rests

/-! ## What belongs together -/

/-- What the memory file of the branch holds was captured at the instant. -/
def Holds (disk : Disk Path Image) (branchId : BranchId) (instant : Instant) : Prop :=
  ∀ inode, disk.inode? (branchId, .mem) = some inode → (disk.contents inode).guest = instant

/-- A fork that takes a snapshot, as far as it has got. -/
def Capture.Coherent (sandbox : Sandbox) (capture : Capture) : CapturePhase → Prop
  | .sync | .pause | .resume true => True
  | .snapshot => ∃ instant, sandbox.stoppedAt capture.vm = some instant
  | .record | .copyOverlay => ∃ instant, sandbox.stoppedAt capture.vm = some instant ∧
      Holds sandbox.disk capture.branchId instant
  | .resume false => ∃ instant, capture.overlay = some instant ∧ Holds sandbox.disk capture.branchId instant

/-- What a live parent has handed out: the child's overlay and the memory image it
is going to be restored from are of one instant. -/
def Handed.Coherent (disk : Disk Path Image) (handed : Handed) : Prop :=
  handed.live = true → ∃ instant, handed.overlay = some instant ∧
    match handed.mem with
    | some staged => (disk.read staged).guest = instant
    | none => Holds disk handed.parentId instant

structure SpawnPhase.Coherent (sandbox : Sandbox) (phase : SpawnPhase) : Prop where
  capture : ∀ capture work, phase = .capture capture work →
    capture.takes = true ∧ capture.copies = true ∧ capture.Coherent sandbox work
  handed : ∀ handed, phase.handed = some handed → handed.Coherent sandbox.disk
  unstaged : ∀ handed, phase = .linkMem handed → handed.mem = none

/-- The call holds the paths of the branch's snapshot, and what they name now is
what its child will be restored from. -/
def Call.awaits (branchId : BranchId) (sandbox : Sandbox) (call : Call) : Bool :=
  call.handed.any fun handed => handed.live && decide (handed.parentId = branchId) &&
    handed.mem.all fun staged =>
      decide (staged.origin = some ((branchId, .mem), sandbox.disk.removals (branchId, .mem)))

/-- The parent that a fork is about to look at. -/
def Call.inspecting : Call → Option BranchId
  | .spawn ⟨_, _, .inspect parentId _ _⟩ => some parentId
  | _ => none

namespace State

/-- The memory of every child of a live parent is of the instant of its overlay. -/
def Agree (state : State) : Prop :=
  ∀ vm machine restored, state.sandbox.machines.get? vm = some machine → machine.restored = some restored →
    restored.handed.live = true → restored.handed.overlay = some restored.memory.guest

/-- A fork from a live parent finds the last snapshot stale, and no snapshot of a
branch is taken while a fork from it has yet to restore its child from the last. -/
def Prompt (state : State) : Action → Prop
  | .step c env => match state.calls[c]? with
    | some (.spawn ⟨_, _, .inspect parentId _ _⟩) =>
      parentId ∈ state.sandbox.vms → state.sandbox.stale parentId = true
    | some call => match call.capturing with
      | some (capture, .snapshot) => .mem ∈ env.written capture.vm state.sandbox →
        ∀ other ∈ state.calls, other.awaits capture.branchId state.sandbox = false
      | _ => True
    | none => True
  | _ => True

theorem prompt_iff {state : State} {c : Nat} {env : Env} :
    (∀ call ∈ state.calls[c]?,
      (∀ parentId ∈ call.inspecting, parentId ∈ state.sandbox.vms → state.sandbox.stale parentId = true) ∧
      ∀ work ∈ call.capturing, work.2 = .snapshot → .mem ∈ env.written work.1.vm state.sandbox →
        ∀ other ∈ state.calls, other.awaits work.1.branchId state.sandbox = false) ↔
    state.Prompt (.step c env) := by
  cases found : state.calls[c]? with
  | none => simp [Prompt, found]
  | some call =>
    simp only [Prompt, found, Option.mem_some_iff, forall_eq']
    cases call with
    | spawn task =>
      obtain ⟨branchId, parentId, phase⟩ := task
      cases phase with
      | capture capture work => cases work <;> simp [Call.inspecting, Call.capturing]
      | _ => simp [Call.inspecting, Call.capturing]
    | checkpoint task =>
      obtain ⟨branchId, phase⟩ := task
      cases phase with
      | capture capture work => cases work <;> simp [Call.inspecting, Call.capturing]
      | _ => simp [Call.inspecting, Call.capturing]
    | exec | kill => simp [Call.inspecting, Call.capturing]

instance (state : State) : (action : Action) → Decidable (state.Prompt action)
  | .step _ _ => decidable_of_iff _ prompt_iff
  | .invoke _ | .guest _ | .exit _ => instDecidableTrue

end State

/-! ## Steps -/

section Steps

variable {config : Config} {env : Env} {now : Instant} {sandbox after : Sandbox} {call next : Call}

theorem Holds.changes {before after : Disk Path Image} {touched : Path → Prop} {content : Image}
    {branchId : BranchId} {instant : Instant} (holds : Holds before branchId instant)
    (changes : before.Changes after touched content) (untouched : ¬ touched (branchId, .mem)) :
    Holds after branchId instant := by
  intro inode stored
  obtain ⟨stored, same⟩ | ⟨isTouched, _⟩ := changes.named _ inode stored
  · rw [same]
    exact holds inode stored
  · exact absurd isTouched untouched

theorem Capture.Coherent.keeps {capture : Capture} {work : CapturePhase} (coherent : capture.Coherent sandbox work)
    (rests : Rests capture.vm sandbox after)
    (holds : ∀ instant, Holds sandbox.disk capture.branchId instant → Holds after.disk capture.branchId instant) :
    capture.Coherent after work := by
  cases work with
  | sync | pause => trivial
  | snapshot =>
    obtain ⟨instant, stopped⟩ := coherent
    exact ⟨instant, rests instant stopped⟩
  | record | copyOverlay =>
    obtain ⟨instant, stopped, held⟩ := coherent
    exact ⟨instant, rests instant stopped, holds instant held⟩
  | resume failed =>
    cases failed with
    | true => trivial
    | false =>
      obtain ⟨instant, copied, held⟩ := coherent
      exact ⟨instant, copied, holds instant held⟩

theorem CaptureMove.coherent {capture : Capture} {work : CapturePhase} {result : CaptureResult}
    (move : CaptureMove env now sandbox capture work after result) (takes : capture.takes = true)
    (copies : capture.copies = true) (coherent : capture.Coherent sandbox work) :
    match result with
    | .goes later work => later.takes = true ∧ later.copies = true ∧ later.Coherent after work
    | .returned later => ∃ instant, later.overlay = some instant ∧ Holds after.disk later.branchId instant
    | .raised => True := by
  cases move with
  | synced => exact ⟨takes, copies, trivial⟩
  | paused runs =>
    refine ⟨takes, copies, ?_⟩
    rw [if_pos takes]
    obtain ⟨machine, found, _⟩ := (Option.any_eq_true _ _).1 runs
    refine ⟨machine.stoppedAt.getD now, ?_⟩
    simp [Sandbox.stoppedAt, Sandbox.pause, found, Machine.stop]
  | taken _ written =>
    obtain ⟨instant, stopped⟩ := coherent
    refine ⟨takes, copies, instant, stopped, fun inode stored => ?_⟩
    rw [written] at stored ⊢
    rw [Sandbox.snapshot_holds capture.vm now stored]
    show sandbox.instantOf capture.vm now = instant
    rw [Sandbox.instantOf, stopped, Option.getD_some]
  | torn => exact ⟨takes, copies, trivial⟩
  | recorded =>
    refine ⟨takes, copies, ?_⟩
    rw [if_pos copies]
    exact coherent
  | copied =>
    obtain ⟨instant, stopped, held⟩ := coherent
    refine ⟨takes, copies, instant, ?_, held⟩
    rw [Sandbox.instantOf, stopped, Option.getD_some]
  | uncopied => exact ⟨takes, copies, trivial⟩
  | returned =>
    obtain ⟨instant, copied, held⟩ := coherent
    exact ⟨instant, copied, by simpa [Sandbox.resume] using held⟩
  | raised => trivial

theorem SpawnPhase.Coherent.of_idle {phase : SpawnPhase}
    (captures : ∀ capture work, phase ≠ .capture capture work) (hands : phase.handed = none) :
    phase.Coherent sandbox := by
  refine ⟨fun capture work same => absurd same (captures capture work), fun handed same => ?_,
    fun handed same => ?_⟩
  · rw [hands] at same
    cases same
  · rw [same] at hands
    cases hands

theorem coherent_staging {handed : Handed} (coherent : handed.Coherent sandbox.disk) (unstaged : handed.mem = none) :
    (SpawnPhase.staging config handed).Coherent sandbox := by
  refine ⟨fun capture work same => ?_, fun other isHanded => ?_, fun other same => ?_⟩
  · unfold SpawnPhase.staging at same
    split at same <;> cases same
  · rw [handed_staging] at isHanded
    cases isHanded
    exact coherent
  · unfold SpawnPhase.staging at same
    split at same <;> cases same
    exact unstaged

theorem coherent_capture {capture : Capture} {work : CapturePhase}
    (coherent : capture.takes = true ∧ capture.copies = true ∧ capture.Coherent sandbox work) :
    (SpawnPhase.capture capture work).Coherent sandbox where
  capture _ _ same := by
    cases same
    exact coherent
  handed _ isHanded := by cases isHanded
  unstaged _ same := by cases same

theorem SpawnMove.coherent {branchId : BranchId} {parentId : Option BranchId} {before phase : SpawnPhase}
    (move : SpawnMove config env now sandbox branchId parentId before after phase)
    (overlays : config.overlays = true)
    (prompt : ∀ source lock lockedAt, before = .inspect source lock lockedAt → source ∈ sandbox.vms →
      sandbox.stale source = true)
    (grounded : ∀ handed, before.handed = some handed → handed.Grounded sandbox.disk)
    (coherent : before.Coherent sandbox) : phase.Coherent after := by
  cases move with
  | captures found isFirst =>
    have stale := prompt _ _ _ rfl (Dict.mem_of_get? found)
    refine coherent_capture ⟨stale, overlays, ?_⟩
    obtain rfl | rfl := isFirst <;> trivial
  | finds _ _ off =>
    rw [overlays] at off
    cases off
  | reuses => exact coherent_staging nofun rfl
  | @captured capture work after result move =>
    obtain ⟨takes, copies, here⟩ := coherent.capture capture work rfl
    have done := move.coherent takes copies here
    cases result with
    | goes later work => exact coherent_capture done
    | returned later => exact coherent_staging (fun _ => done) rfl
    | raised => exact .of_idle nofun rfl
  | @linksMem handed staged after staging =>
    refine ⟨(fun _ _ same => by cases same), fun other same live => ?_, fun _ same => by cases same⟩
    cases same
    obtain ⟨instant, copied, held⟩ := coherent.handed handed rfl live
    refine ⟨instant, copied, ?_⟩
    obtain ⟨inode, stored, same⟩ := Sandbox.linkInto_read staging
    show (after.disk.read staged).guest = instant
    rw [same]
    rw [coherent.unstaged handed rfl] at held
    exact held inode stored
  | @linksState handed staged after staging =>
    refine ⟨(fun _ _ same => by cases same), fun other same live => ?_, fun _ same => by cases same⟩
    cases same
    obtain ⟨instant, copied, held⟩ := coherent.handed handed rfl live
    refine ⟨instant, copied, ?_⟩
    have changes := Sandbox.linkInto_changes ⟨0, 0⟩ staging
    show match handed.mem with
      | some staged => (after.disk.read staged).guest = instant
      | none => Holds after.disk handed.parentId instant
    cases isStaged : handed.mem with
    | none =>
      rw [isStaged] at held
      exact held.changes changes id
    | some first =>
      rw [isStaged] at held
      have follows := (grounded handed rfl .mem first isStaged).follows
      obtain same | ⟨_, _, none, _⟩ := changes.read first follows
      · show (after.disk.read first).guest = instant
        rw [same]
        exact held
      · exact none.elim
  | launches =>
    exact ⟨(fun _ _ same => by cases same), fun other same => coherent.handed other same, fun _ same => by cases same⟩
  | _ => exact .of_idle (fun _ _ same => by cases same) rfl

/-- A spawn that another call's step passes by. -/
theorem SpawnPhase.Coherent.passes {phase : SpawnPhase} {touched : Path → Prop} {content : Image}
    (coherent : phase.Coherent sandbox) (changes : sandbox.disk.Changes after.disk touched content)
    (grounded : ∀ handed, phase.handed = some handed → handed.Grounded sandbox.disk)
    (excluded : ∀ capture work, phase = .capture capture work →
      Rests capture.vm sandbox after ∧ ¬ touched (capture.branchId, .mem))
    (unwritten : ∀ handed, phase.handed = some handed → handed.live = true →
      touched (handed.parentId, .mem) → ∃ staged, handed.mem = some staged ∧
        staged.origin ≠ some ((handed.parentId, .mem), sandbox.disk.removals (handed.parentId, .mem))) :
    phase.Coherent after := by
  refine ⟨fun capture work same => ?_, fun handed isHanded live => ?_, coherent.unstaged⟩
  · obtain ⟨takes, copies, here⟩ := coherent.capture capture work same
    obtain ⟨rests, untouched⟩ := excluded capture work same
    exact ⟨takes, copies, here.keeps rests fun _ holds => holds.changes changes untouched⟩
  · obtain ⟨instant, copied, held⟩ := coherent.handed handed isHanded live
    refine ⟨instant, copied, ?_⟩
    cases isStaged : handed.mem with
    | none =>
      rw [isStaged] at held
      refine Holds.changes held changes fun touches => ?_
      obtain ⟨_, absurd, _⟩ := unwritten handed isHanded live touches
      rw [isStaged] at absurd
      cases absurd
    | some staged =>
      rw [isStaged] at held
      have opened := grounded handed isHanded .mem staged isStaged
      obtain same | ⟨_, path, touches, isOrigin⟩ := changes.read staged opened.follows
      · show (after.disk.read staged).guest = instant
        rw [same]
        exact held
      · have isMemory : path = (handed.parentId, .mem) := opened.origin _ isOrigin
        subst isMemory
        obtain ⟨other, isOther, differs⟩ := unwritten handed isHanded live touches
        rw [isStaged] at isOther
        cases isOther
        exact absurd isOrigin differs

/-- What a restore reads is of the instant of the overlay. -/
theorem Handed.Coherent.restored {disk : Disk Path Image} {handed : Handed} {mem : Handle Path}
    (coherent : handed.Coherent disk) (live : handed.live = true)
    (resolved : handed.mem.or (disk.lookup (handed.parentId, .mem)) = some mem) :
    handed.overlay = some (disk.read mem).guest := by
  obtain ⟨instant, copied, held⟩ := coherent live
  rw [copied, Option.some.injEq]
  cases isStaged : handed.mem with
  | none =>
    rw [isStaged] at held
    rw [isStaged, Option.none_or] at resolved
    exact (held mem.inode (Disk.lookup_some resolved).1).symm
  | some staged =>
    rw [isStaged] at held
    rw [isStaged, Option.some_or] at resolved
    cases resolved
    exact held.symm

end Steps

/-! ## Runs -/

structure Coherent (state : State) : Prop where
  grounded : Grounded state
  locked : Locked state
  registered : Registered state
  spawns : ∀ (i : Nat) (task : SpawnTask), state.calls[i]? = some (.spawn task) →
    task.phase.Coherent state.sandbox
  agree : state.Agree

theorem prompt_snapshot {env : Env} {state : State} {c : Nat} {call : Call} {capture : Capture}
    (prompt : state.Prompt (.step c env)) (found : state.calls[c]? = some call)
    (captures : call.capturing = some (capture, .snapshot))
    (written : .mem ∈ env.written capture.vm state.sandbox) :
    ∀ other ∈ state.calls, other.awaits capture.branchId state.sandbox = false := by
  unfold Call.capturing at captures
  split at captures
  · cases captures
    simp only [State.Prompt, found, Call.capturing] at prompt
    exact prompt written
  · cases captures
    simp only [State.Prompt, found, Call.capturing] at prompt
    exact prompt written
  · cases captures

/-- A spawn that does not await the branch has staged a file of its own. -/
theorem staged_of_not_awaits {sandbox : Sandbox} {call : Call} {handed : Handed} (isHanded : call.handed = some handed)
    (live : handed.live = true) (idle : call.awaits handed.parentId sandbox = false) :
    ∃ staged, handed.mem = some staged ∧
      staged.origin ≠ some ((handed.parentId, .mem), sandbox.disk.removals (handed.parentId, .mem)) := by
  simp only [Call.awaits, isHanded, Option.any_some, live, decide_true, Bool.and_true, Bool.true_and] at idle
  cases isStaged : handed.mem with
  | none =>
    rw [isStaged] at idle
    cases idle
  | some staged =>
    rw [isStaged, Option.all_some] at idle
    exact ⟨staged, rfl, of_decide_eq_false idle⟩

namespace Coherent

variable {config : Config} {state after : State} {action : Action}

section Call

variable {c : Nat} {env : Env} {before next : Call} {sandbox : Sandbox}

/-- The step of one call, as a spawn sees it that is another call. -/
theorem others (coherent : Coherent state) (found : state.calls[c]? = some before)
    (prompt : state.Prompt (.step c env))
    (move : CallMove config env state.clock state.sandbox before sandbox next) {i : Nat} {task : SpawnTask}
    (differs : c ≠ i) (isTask : state.calls[i]? = some (.spawn task)) : task.phase.Coherent sandbox := by
  have member := List.mem_of_getElem? isTask
  -- two captures of one branch are one call
  have alone : ∀ capture work, task.phase = .capture capture work → ∀ other otherWork,
      before.capturing = some (other, otherWork) → other.branchId ≠ capture.branchId := by
    intro capture work isCapture other otherWork captures sameBranch
    have holds : (Call.spawn task).holding = some (capture.branchId, capture.lock) := by
      show task.phase.holding = _
      rw [isCapture]
      rfl
    have otherHolds := Call.holding_of_capturing captures
    rw [sameBranch] at otherHolds
    exact differs (coherent.locked.same_call found isTask otherHolds holds)
  refine (coherent.spawns i task isTask).passes move.disk
    (fun handed isHanded => coherent.grounded.staged _ member handed isHanded)
    (fun capture work isCapture => ⟨?_, ?_⟩) fun handed isHanded live touches => ?_
  · have captures : (Call.spawn task).capturing = some (capture, work) := by
      obtain ⟨branchId, parentId, phase⟩ := task
      cases isCapture
      rfl
    obtain ⟨atBranch, known⟩ := coherent.registered.capturing _ member capture work captures
    refine move.rests known fun other otherWork otherCaptures sameVm => ?_
    have otherAt := (coherent.registered.capturing before (List.mem_of_getElem? found) _ _ otherCaptures).1
    rw [sameVm, atBranch] at otherAt
    exact alone capture work isCapture other otherWork otherCaptures otherAt.symm
  · intro touches
    obtain ⟨other, captures, sameBranch, _⟩ := touches
    exact alone capture work isCapture other _ captures sameBranch.symm
  · obtain ⟨capture, captures, sameBranch, written⟩ := touches
    have idle := prompt_snapshot prompt found captures written _ member
    have sameBranch : handed.parentId = capture.branchId := sameBranch
    rw [← sameBranch] at idle
    have isHanded : (Call.spawn task).handed = some handed := isHanded
    exact staged_of_not_awaits isHanded live idle

theorem call (coherent : Coherent state) (overlays : config.overlays = true)
    (found : state.calls[c]? = some before) (prompt : state.Prompt (.step c env))
    (move : CallMove config env state.clock state.sandbox before sandbox next) :
    (∀ (i : Nat) (task : SpawnTask), (state.calls.set c next)[i]? = some (.spawn task) →
      task.phase.Coherent sandbox) ∧
      State.Agree ⟨sandbox, state.calls.set c next, state.clock + 1⟩ := by
  have member := List.mem_of_getElem? found
  refine ⟨fun i task isTask => ?_, fun vm machine restored isMachine isRestored live => ?_⟩
  · by_cases here : c = i
    · subst here
      rw [List.getElem?_set_self (List.getElem?_eq_some_iff.1 found).1, Option.some.injEq] at isTask
      cases move with
      | @spawn branchId parentId phase later sandbox move =>
        cases isTask
        refine move.coherent overlays (fun source lock lockedAt same live => ?_)
          (fun handed isHanded => coherent.grounded.staged _ member handed isHanded)
          (coherent.spawns c _ found)
        subst same
        simp only [State.Prompt, found] at prompt
        exact prompt live
      | exec => cases isTask
      | checkpoint => cases isTask
      | kill => cases isTask
    · rw [List.getElem?_set_ne here] at isTask
      exact coherent.others found prompt move here isTask
  · show restored.handed.overlay = some restored.memory.guest
    obtain keeps | ⟨child, handed, mem, device, isHanded, isMem, _, rfl⟩ := move.guests
    · obtain isNone | ⟨old, isOld, same, _⟩ := keeps vm machine isMachine
      · rw [isNone] at isRestored
        cases isRestored
      · exact coherent.agree vm old restored isOld (same ▸ isRestored) live
    · rw [Sandbox.get?_alter] at isMachine
      split at isMachine
      · obtain ⟨old, _, rfl⟩ := Option.map_eq_some_iff.1 isMachine
        cases isRestored
        cases before with
        | spawn task => exact ((coherent.spawns c task found).handed handed isHanded).restored live isMem
        | exec | checkpoint | kill => cases isHanded
      · exact coherent.agree vm machine restored isMachine isRestored live

end Call

theorem step (coherent : Coherent state) (overlays : config.overlays = true) (spares : Spares state action)
    (prompt : state.Prompt action) (taken : state.Step config action after) : Coherent after := by
  have grounded := coherent.grounded.step taken
  have locked := coherent.locked.step spares taken
  have registered := coherent.registered.step taken
  cases action with
  | invoke op =>
    cases taken
    refine ⟨grounded, locked, registered, fun i task isTask => ?_, coherent.agree⟩
    obtain inside | outside := Nat.lt_or_ge i state.calls.length
    · rw [List.getElem?_append_left inside] at isTask
      exact coherent.spawns i task isTask
    · rw [List.getElem?_append_right outside] at isTask
      have isNew := List.mem_singleton.1 (List.mem_of_getElem? isTask)
      cases op <;> cases isNew
      exact .of_idle (fun _ _ same => by cases same) rfl
  | step c env =>
    obtain ⟨call, found, applied⟩ := Option.bind_eq_some_iff.1 taken
    obtain ⟨⟨sandbox, next⟩, stepped, rfl⟩ := Option.map_eq_some_iff.1 applied
    obtain ⟨spawns, agree⟩ := coherent.call overlays found prompt (Call.step_moves stepped)
    exact ⟨grounded, locked, registered, spawns, agree⟩
  | guest vm =>
    obtain ⟨_, equal⟩ := Option.ite_none_right_eq_some.1 taken
    cases equal
    exact ⟨grounded, locked, registered, coherent.spawns, coherent.agree⟩
  | exit vm =>
    cases taken
    have sameDisk : (state.sandbox.exit vm state.clock).disk = state.sandbox.disk := Sandbox.disk_alter ..
    refine ⟨grounded, locked, registered, fun i task isTask => ?_, fun other machine restored isMachine isRestored => ?_⟩
    · have changes : state.sandbox.disk.Changes (state.sandbox.exit vm state.clock).disk (fun _ => False) ⟨0, 0⟩ := by
        rw [sameDisk]
        exact .refl _
      exact (coherent.spawns i task isTask).passes changes
        (fun handed isHanded => coherent.grounded.staged _ (List.mem_of_getElem? isTask) handed isHanded)
        (fun capture _ _ => ⟨rests_exit _ _, id⟩) fun _ _ _ none => none.elim
    · obtain isNone | ⟨old, isOld, same, _⟩ := keeps_exit vm other machine isMachine
      · rw [isNone] at isRestored
        cases isRestored
      · exact coherent.agree other old restored isOld (same ▸ isRestored)

end Coherent

theorem coherent_fresh (disk : Disk Path Image) : Coherent (State.fresh disk) where
  grounded := grounded_fresh disk
  locked := locked_fresh disk
  registered := registered_fresh disk
  spawns i task isTask := by cases isTask
  agree vm machine restored found := by cases found

/-- With overlays, in every run without a kill whose forks all find the last
snapshot stale and whose snapshots wait for the children of the last, the memory
and the overlay of every child are of one instant of its parent. -/
theorem memory_and_disk_agree {config : Config} {disk : Disk Path Image} {state : State}
    (overlays : config.overlays = true)
    (reached : Reachable (State.Step config) (fun state action => Spares state action ∧ state.Prompt action)
      (State.fresh disk) state) : state.Agree := by
  have coherent : Coherent state := reached.invariant (coherent_fresh disk)
    fun _ _ _ coherent allowed taken => coherent.step overlays allowed.1 allowed.2 taken
  exact coherent.agree

/-- Overlays and no jail. -/
def overlaid : Config := ⟨false, true, true⟩

/-- A command runs in the root before it is forked again. -/
def refreshedRun : List Action :=
  alone 0 (.spawn "root" none) 7 ++ alone 1 (.spawn "a" (some "root")) 16 ++ [.guest ⟨"root", 0⟩] ++
    alone 2 (.exec "root") 5 ++ alone 3 (.spawn "b" (some "root")) 16

theorem refreshedRun_agrees : (sandboxRun overlaid refreshedRun).Agree :=
  memory_and_disk_agree rfl (sandboxRun_reachable (by decide) (by decide))

/-- The root is forked again while its guest has only run on. -/
def reusedRun : List Action :=
  alone 0 (.spawn "root" none) 7 ++ alone 1 (.spawn "a" (some "root")) 16 ++ [.guest ⟨"root", 0⟩] ++
    alone 2 (.spawn "b" (some "root")) 13

theorem reused_snapshot_disagrees_with_overlay : ¬ ∀ config disk state, config.overlays = true →
    Reachable (State.Step config) Spares (State.fresh disk) state → state.Agree := by
  intro claimed
  have agree := claimed overlaid emptyDisk (sandboxRun overlaid reusedRun) rfl
    (sandboxRun_reachable (by decide) (by decide))
  have differs : ((sandboxRun overlaid reusedRun).sandbox.machines.get? ⟨"b", 2⟩).any (fun machine =>
      machine.restored.any fun restored => restored.handed.live &&
        decide (restored.handed.overlay ≠ some restored.memory.guest)) = true := by
    decide
  obtain ⟨machine, found, broken⟩ := (Option.any_eq_true _ _).1 differs
  obtain ⟨restored, isRestored, broken⟩ := (Option.any_eq_true _ _).1 broken
  obtain ⟨live, broken⟩ := Bool.and_eq_true_iff.1 broken
  exact of_decide_eq_true broken (agree _ machine restored found isRestored live)

end Agentfork.Firecracker.Snapshots

import Agentfork.Firecracker.SnapshotSteps

/-! # The lock of a branch

An exec, a fork from the branch and a checkpoint of it all run under the branch's
lock. As long as nothing is killed no lock object is ever dropped, so two calls
that hold the lock of one branch are the same call. What is tracked under a branch
is a VMM of that branch, so only the holder of its lock resumes it. -/

namespace Agentfork.Firecracker.Snapshots

open Transition

/-! ## Holding -/

def SpawnPhase.holding : SpawnPhase → Option (BranchId × Nat)
  | .inspect parentId held _ | .reuse parentId held _ => some (parentId, held)
  | .capture work _ => some (work.branchId, work.lock)
  | _ => none

namespace Call

/-- The branch whose lock the call holds, and the lock object. -/
def holding : Call → Option (BranchId × Nat)
  | .spawn task => task.phase.holding
  | .exec ⟨branchId, _, .inspect lock⟩ | .exec ⟨branchId, _, .run lock⟩
  | .exec ⟨branchId, _, .bump lock _⟩ => some (branchId, lock)
  | .checkpoint ⟨branchId, .inspect lock _⟩ => some (branchId, lock)
  | .checkpoint ⟨_, .capture capture _⟩ => some (capture.branchId, capture.lock)
  | _ => none

/-- The branch and the lock object that the call waits for. -/
def waiting : Call → Option (BranchId × Nat)
  | .spawn ⟨_, _, .acquire parentId lock⟩ => some (parentId, lock)
  | .exec ⟨branchId, _, .acquire lock⟩ => some (branchId, lock)
  | .checkpoint ⟨branchId, .acquire lock⟩ => some (branchId, lock)
  | _ => none

def kills : Call → Bool
  | .kill _ => true
  | _ => false

theorem holding_of_capturing {call : Call} {capture : Capture} {phase : CapturePhase}
    (isCapturing : call.capturing = some (capture, phase)) :
    call.holding = some (capture.branchId, capture.lock) := by
  unfold capturing at isCapturing
  split at isCapturing <;> cases isCapturing <;> rfl

end Call

/-! ## Steps -/

/-- What a step does to the lock objects that are held. -/
inductive HeldMove (before : Finset Nat) (holding waiting : Option (BranchId × Nat)) :
    Finset Nat → Option (BranchId × Nat) → Prop where
  | keeps : HeldMove before holding waiting before holding
  | acquires {branchId : BranchId} {lock : Nat} : holding = none → waiting = some (branchId, lock) →
      lock ∉ before → HeldMove before holding waiting (insert lock before) (some (branchId, lock))
  | releases {branchId : BranchId} {lock : Nat} : holding = some (branchId, lock) →
      HeldMove before holding waiting (before.erase lock) none

namespace HeldMove

variable {before after : Finset Nat} {holding waiting next : Option (BranchId × Nat)} {lock : Nat}

/-- A lock that the step does not let go of is still held. -/
theorem others (move : HeldMove before holding waiting after next) (wasHeld : lock ∈ before)
    (differs : ∀ branchId, holding ≠ some (branchId, lock)) : lock ∈ after := by
  cases move with
  | keeps => exact wasHeld
  | acquires => exact Finset.mem_insert_of_mem wasHeld
  | @releases branchId released holds =>
    refine Finset.mem_erase.2 ⟨fun same => ?_, wasHeld⟩
    subst same
    exact differs branchId holds

/-- What is held after the step was held before it, or was waited for and free. -/
theorem holds {branchId : BranchId} (move : HeldMove before holding waiting after next)
    (isHolding : next = some (branchId, lock)) : holding = some (branchId, lock) ∧ after = before ∨
      waiting = some (branchId, lock) ∧ lock ∉ before ∧ lock ∈ after := by
  cases move with
  | keeps => exact .inl ⟨isHolding, rfl⟩
  | acquires _ waits free =>
    cases isHolding
    exact .inr ⟨waits, free, Finset.mem_insert_self _ _⟩
  | releases => cases isHolding

end HeldMove

section Steps

variable {config : Config} {env : Env} {now : Instant} {sandbox after : Sandbox}

theorem parentLock_get? (branchId : BranchId) : (sandbox.parentLock branchId).2.parentLocks.get? branchId =
    some (sandbox.parentLock branchId).1 := by
  unfold Sandbox.parentLock
  split
  · assumption
  · simp

theorem parentLock_kept {branchId other : BranchId} {lock : Nat}
    (stored : sandbox.parentLocks.get? other = some lock) :
    (sandbox.parentLock branchId).2.parentLocks.get? other = some lock := by
  unfold Sandbox.parentLock
  split
  · exact stored
  · next absent =>
    rw [Dict.get?_insert]
    split
    · next here =>
      rw [here, absent] at stored
      cases stored
    · exact stored

theorem held_parentLock (branchId : BranchId) : (sandbox.parentLock branchId).2.held = sandbox.held := by
  unfold Sandbox.parentLock
  split <;> rfl

/-- What a capture holds and looks up stays the same until it lets go of its lock. -/
theorem CaptureMove.locks {capture : Capture} {phase : CapturePhase} {result : CaptureResult}
    (move : CaptureMove env now sandbox capture phase after result) :
    after.parentLocks = sandbox.parentLocks ∧
      match result with
      | .goes next _ => next.branchId = capture.branchId ∧ next.lock = capture.lock ∧ after.held = sandbox.held
      | .returned _ | .raised => after.held = sandbox.held.erase capture.lock := by
  cases move with
  | paused => simp [Sandbox.pause]
  | returned => simp [Sandbox.resume, Sandbox.release]
  | raised isMiddle => obtain rfl | rfl | rfl := isMiddle <;> simp [Sandbox.pause, Sandbox.resume, Sandbox.release]
  | _ => exact ⟨rfl, rfl, rfl, rfl⟩

structure LockMove (sandbox : Sandbox) (call : Call) (after : Sandbox) (next : Call) : Prop where
  kept : ∀ branchId lock, sandbox.parentLocks.get? branchId = some lock →
    after.parentLocks.get? branchId = some lock
  waits : ∀ branchId lock, next.waiting = some (branchId, lock) →
    after.parentLocks.get? branchId = some lock
  held : HeldMove sandbox.held call.holding call.waiting after.held next.holding
  spares : next.kills = false

variable {call next : Call}

theorem LockMove.quiet (sameLocks : after.parentLocks = sandbox.parentLocks) (sameHeld : after.held = sandbox.held)
    (sameHolding : next.holding = call.holding) (noWait : next.waiting = none) (spares : next.kills = false) :
    LockMove sandbox call after next := by
  refine ⟨fun _ _ stored => sameLocks ▸ stored, fun _ _ waits => ?_, ?_, spares⟩
  · rw [noWait] at waits
    cases waits
  · rw [sameHeld, sameHolding]
    exact .keeps

theorem LockMove.lets_go {branchId : BranchId} {lock : Nat} (sameLocks : after.parentLocks = sandbox.parentLocks)
    (holds : call.holding = some (branchId, lock)) (released : after.held = sandbox.held.erase lock)
    (free : next.holding = none) (noWait : next.waiting = none) (spares : next.kills = false) :
    LockMove sandbox call after next := by
  refine ⟨fun _ _ stored => sameLocks ▸ stored, fun _ _ waits => ?_, ?_, spares⟩
  · rw [noWait] at waits
    cases waits
  · rw [released, free]
    exact .releases holds

theorem LockMove.looks_up {branchId : BranchId} (isAfter : after = (sandbox.parentLock branchId).2)
    (isWaiting : next.waiting = some (branchId, (sandbox.parentLock branchId).1))
    (sameHolding : next.holding = call.holding) (spares : next.kills = false) :
    LockMove sandbox call after next := by
  subst isAfter
  refine ⟨fun _ _ => parentLock_kept, fun other lock waits => ?_, ?_, spares⟩
  · rw [isWaiting] at waits
    cases waits
    exact parentLock_get? branchId
  · rw [held_parentLock, sameHolding]
    exact .keeps

theorem LockMove.takes {branchId : BranchId} {lock : Nat} (acquired : sandbox.acquire lock = some after)
    (free : call.holding = none) (waits : call.waiting = some (branchId, lock))
    (holds : next.holding = some (branchId, lock)) (noWait : next.waiting = none)
    (spares : next.kills = false) : LockMove sandbox call after next := by
  obtain ⟨unheld, rfl⟩ := Sandbox.acquire_some acquired
  refine ⟨fun _ _ stored => stored, fun _ _ waits => ?_, ?_, spares⟩
  · rw [noWait] at waits
    cases waits
  · rw [holds]
    exact .acquires free waits unheld

/-- The part of a capture in a step of the call that it belongs to. -/
theorem LockMove.captured {capture : Capture} {phase : CapturePhase} {result : CaptureResult}
    (move : CaptureMove env now sandbox capture phase after result)
    (holds : call.holding = some (capture.branchId, capture.lock))
    (goes : ∀ later work, result = .goes later work → next.holding = some (later.branchId, later.lock))
    (ends : (∀ later work, result ≠ .goes later work) → next.holding = none)
    (noWait : next.waiting = none) (spares : next.kills = false) : LockMove sandbox call after next := by
  obtain ⟨sameLocks, held⟩ := move.locks
  cases result with
  | goes later work =>
    obtain ⟨sameBranch, sameLock, sameHeld⟩ := held
    refine .quiet sameLocks sameHeld ?_ noWait spares
    rw [goes later work rfl, holds, sameBranch, sameLock]
  | returned | raised => exact .lets_go sameLocks holds held (ends (fun _ _ same => by cases same)) noWait spares

theorem staging_quiet (config : Config) (handed : Handed) (branchId : BranchId) (parentId : Option BranchId) :
    (Call.spawn ⟨branchId, parentId, .staging config handed⟩).holding = none ∧
      (Call.spawn ⟨branchId, parentId, .staging config handed⟩).waiting = none := by
  unfold SpawnPhase.staging
  split <;> exact ⟨rfl, rfl⟩

/-- What a step of anything but a kill does to the locks. -/
theorem CallMove.locks (move : CallMove config env now sandbox call after next)
    (spares : call.kills = false) : LockMove sandbox call after next := by
  cases move with
  | spawn move =>
    cases move with
    | locks => exact .looks_up rfl rfl rfl rfl
    | acquires acquired => exact .takes acquired rfl rfl rfl rfl rfl
    | finds | reuses => exact .lets_go rfl rfl rfl (staging_quiet ..).1 (staging_quiet ..).2 rfl
    | misses => exact .lets_go rfl rfl rfl rfl rfl rfl
    | @captured capture phase after result move =>
      cases result with
      | goes => exact .captured move rfl (fun _ _ same => by cases same; rfl) (fun none => absurd rfl (none _ _)) rfl rfl
      | returned => exact .captured move rfl nofun (fun _ => (staging_quiet ..).1) (staging_quiet ..).2 rfl
      | raised => exact .captured move rfl (fun _ _ same => by cases same) (fun _ => rfl) rfl rfl
    | linksMem staging | linksState staging =>
      rw [Sandbox.linkInto_machines staging]
      exact .quiet rfl rfl rfl rfl rfl
    | restored _ restored =>
      obtain ⟨_, _, _, _, rfl⟩ := Sandbox.restore_some restored
      exact .quiet (Sandbox.parentLocks_alter ..) (Sandbox.held_alter ..) rfl rfl rfl
    | reaps => exact .quiet (Sandbox.parentLocks_alter ..) (Sandbox.held_alter ..) rfl rfl rfl
    | fails raises => obtain rfl | ⟨_, rfl⟩ | ⟨_, rfl⟩ | ⟨_, rfl⟩ := raises <;> exact .quiet rfl rfl rfl rfl rfl
    | aborts raises => obtain ⟨_, rfl⟩ | rfl | rfl := raises <;> exact .quiet rfl rfl rfl rfl rfl
    | _ => exact .quiet rfl rfl rfl rfl rfl
  | exec move =>
    cases move with
    | locks => exact .looks_up rfl rfl rfl rfl
    | acquires acquired => exact .takes acquired rfl rfl rfl rfl rfl
    | misses => exact .lets_go rfl rfl rfl rfl rfl rfl
    | bumps =>
      refine .lets_go ?_ rfl ?_ rfl rfl rfl <;> unfold Sandbox.bump <;> split <;> rfl
    | _ => exact .quiet rfl rfl rfl rfl rfl
  | checkpoint move =>
    cases move with
    | locks => exact .looks_up rfl rfl rfl rfl
    | acquires acquired => exact .takes acquired rfl rfl rfl rfl rfl
    | misses => exact .lets_go rfl rfl rfl rfl rfl rfl
    | finds => exact .quiet rfl rfl rfl rfl rfl
    | @captured capture phase after result move =>
      cases result with
      | goes => exact .captured move rfl (fun _ _ same => by cases same; rfl) (fun none => absurd rfl (none _ _)) rfl rfl
      | returned | raised => exact .captured move rfl (fun _ _ same => by cases same) (fun _ => rfl) rfl rfl
  | kill => cases spares

end Steps

/-! ## Mutual exclusion -/

structure Locked (state : State) : Prop where
  spares : ∀ call ∈ state.calls, call.kills = false
  owns : ∀ call ∈ state.calls, ∀ branchId lock, call.holding = some (branchId, lock) →
    state.sandbox.parentLocks.get? branchId = some lock ∧ lock ∈ state.sandbox.held
  waits : ∀ call ∈ state.calls, ∀ branchId lock, call.waiting = some (branchId, lock) →
    state.sandbox.parentLocks.get? branchId = some lock
  apart : ∀ (i j : Nat) (first second : Call), state.calls[i]? = some first → state.calls[j]? = some second →
    ∀ one other lock, first.holding = some (one, lock) → second.holding = some (other, lock) → i = j

/-- The action kills nothing. -/
def Spares (_ : State) : Action → Prop
  | .invoke (.kill _) => False
  | _ => True

instance (state : State) (action : Action) : Decidable (Spares state action) := by
  unfold Spares
  split <;> infer_instance

namespace Locked

variable {config : Config} {env : Env} {state after : State} {action : Action}

/-- Two calls that hold the lock of one branch are the same call. -/
theorem same_call (locked : Locked state) {i j : Nat} {first second : Call} {branchId : BranchId}
    {firstLock secondLock : Nat} (isFirst : state.calls[i]? = some first)
    (isSecond : state.calls[j]? = some second) (firstHolds : first.holding = some (branchId, firstLock))
    (secondHolds : second.holding = some (branchId, secondLock)) : i = j := by
  have firstOwns := (locked.owns first (List.mem_of_getElem? isFirst) _ _ firstHolds).1
  have secondOwns := (locked.owns second (List.mem_of_getElem? isSecond) _ _ secondHolds).1
  have sameLock : firstLock = secondLock := Option.some.inj (firstOwns.symm.trans secondOwns)
  subst sameLock
  exact locked.apart i j first second isFirst isSecond _ _ _ firstHolds secondHolds

theorem call (locked : Locked state) {c : Nat} {before next : Call} {sandbox : Sandbox}
    (found : state.calls[c]? = some before)
    (move : CallMove config env state.clock state.sandbox before sandbox next) :
    Locked ⟨sandbox, state.calls.set c next, state.clock + 1⟩ := by
  have member := List.mem_of_getElem? found
  have locks := move.locks (locked.spares before member)
  -- what the call holds after the step is held by nobody else
  have alone : ∀ branchId lock, next.holding = some (branchId, lock) → ∀ i other, i ≠ c →
      state.calls[i]? = some other → ∀ one, other.holding ≠ some (one, lock) := by
    intro branchId lock isHolding i other differs isOther one otherHolds
    obtain ⟨holds, _⟩ | ⟨_, free, _⟩ := locks.held.holds isHolding
    · exact differs (locked.apart i c other before isOther found _ _ _ otherHolds holds)
    · exact free (locked.owns other (List.mem_of_getElem? isOther) _ _ otherHolds).2
  refine ⟨fun one isOne => ?_, fun one isOne branchId lock holds => ?_, fun one isOne branchId lock waits => ?_, ?_⟩
  · obtain old | rfl := List.mem_or_eq_of_mem_set isOne
    · exact locked.spares one old
    · exact locks.spares
  · obtain ⟨i, isOne⟩ := List.mem_iff_getElem?.1 isOne
    by_cases here : c = i
    · subst here
      rw [List.getElem?_set_self (List.getElem?_eq_some_iff.1 found).1] at isOne
      cases isOne
      obtain ⟨wasHolding, sameHeld⟩ | ⟨waited, _, isHeld⟩ := locks.held.holds holds
      · obtain ⟨stored, wasHeld⟩ := locked.owns before member _ _ wasHolding
        have sameHeld : sandbox.held = state.sandbox.held := sameHeld
        exact ⟨locks.kept _ _ stored, sameHeld ▸ wasHeld⟩
      · exact ⟨locks.kept _ _ (locked.waits before member _ _ waited), isHeld⟩
    · rw [List.getElem?_set_ne here] at isOne
      obtain ⟨stored, wasHeld⟩ := locked.owns one (List.mem_of_getElem? isOne) _ _ holds
      refine ⟨locks.kept _ _ stored, locks.held.others wasHeld fun other released => ?_⟩
      exact here (locked.apart c i before one found isOne _ _ _ released holds)
  · obtain old | rfl := List.mem_or_eq_of_mem_set isOne
    · exact locks.kept _ _ (locked.waits one old _ _ waits)
    · exact locks.waits _ _ waits
  · intro i j first second isFirst isSecond one other lock firstHolds secondHolds
    by_cases firstHere : c = i <;> by_cases secondHere : c = j
    · exact firstHere.symm.trans secondHere
    · subst firstHere
      rw [List.getElem?_set_self (List.getElem?_eq_some_iff.1 found).1] at isFirst
      cases isFirst
      rw [List.getElem?_set_ne secondHere] at isSecond
      exact absurd secondHolds (alone _ _ firstHolds j second (Ne.symm secondHere) isSecond _)
    · subst secondHere
      rw [List.getElem?_set_self (List.getElem?_eq_some_iff.1 found).1] at isSecond
      cases isSecond
      rw [List.getElem?_set_ne firstHere] at isFirst
      exact absurd firstHolds (alone _ _ secondHolds i first (Ne.symm firstHere) isFirst _)
    · rw [List.getElem?_set_ne firstHere] at isFirst
      rw [List.getElem?_set_ne secondHere] at isSecond
      exact locked.apart i j first second isFirst isSecond _ _ _ firstHolds secondHolds

theorem invoke (locked : Locked state) {op : Op} (spares : Spares state (.invoke op)) :
    Locked ⟨state.sandbox, state.calls ++ [op.call], state.clock + 1⟩ := by
  have idle : op.call.holding = none ∧ op.call.waiting = none ∧ op.call.kills = false := by
    cases op with
    | kill => cases spares
    | _ => exact ⟨rfl, rfl, rfl⟩
  refine ⟨fun one isOne => ?_, fun one isOne branchId lock holds => ?_, fun one isOne branchId lock waits => ?_, ?_⟩
  · obtain old | new := List.mem_append.1 isOne
    · exact locked.spares one old
    · rw [List.mem_singleton.1 new]
      exact idle.2.2
  · obtain old | new := List.mem_append.1 isOne
    · exact locked.owns one old _ _ holds
    · rw [List.mem_singleton.1 new, idle.1] at holds
      cases holds
  · obtain old | new := List.mem_append.1 isOne
    · exact locked.waits one old _ _ waits
    · rw [List.mem_singleton.1 new, idle.2.1] at waits
      cases waits
  · -- the new call holds nothing
    have isOld : ∀ (i : Nat) (call : Call) branchId lock, (state.calls ++ [op.call])[i]? = some call →
        call.holding = some (branchId, lock) → state.calls[i]? = some call := by
      intro i call branchId lock isCall holds
      obtain inside | outside := Nat.lt_or_ge i state.calls.length
      · rwa [List.getElem?_append_left inside] at isCall
      · rw [List.getElem?_append_right outside] at isCall
        have isNew : call = op.call := List.mem_singleton.1 (List.mem_of_getElem? isCall)
        rw [isNew, idle.1] at holds
        cases holds
    intro i j first second isFirst isSecond one other lock firstHolds secondHolds
    exact locked.apart i j first second (isOld i first _ _ isFirst firstHolds)
      (isOld j second _ _ isSecond secondHolds) _ _ _ firstHolds secondHolds

theorem step (locked : Locked state) (spares : Spares state action)
    (taken : state.Step config action after) : Locked after := by
  cases action with
  | invoke op =>
    cases taken
    exact locked.invoke spares
  | step c env =>
    obtain ⟨call, found, taken⟩ := Option.bind_eq_some_iff.1 taken
    obtain ⟨⟨sandbox, next⟩, stepped, rfl⟩ := Option.map_eq_some_iff.1 taken
    exact locked.call found (Call.step_moves stepped)
  | guest vm =>
    obtain ⟨_, equal⟩ := Option.ite_none_right_eq_some.1 taken
    cases equal
    exact ⟨locked.spares, locked.owns, locked.waits, locked.apart⟩
  | exit vm =>
    cases taken
    refine ⟨locked.spares, fun one isOne branchId lock holds => ?_, fun one isOne branchId lock waits => ?_,
      locked.apart⟩
    · simpa [Sandbox.exit] using locked.owns one isOne branchId lock holds
    · simpa [Sandbox.exit] using locked.waits one isOne branchId lock waits

end Locked

theorem locked_fresh (disk : Disk Path Image) : Locked (State.fresh disk) where
  spares call member := by cases member
  owns call member := by cases member
  waits call member := by cases member
  apart i j first second isFirst := by cases isFirst

/-! ## Handles and the branches they are tracked under -/

/-- The branch and the VMM of a spawn that has not tracked it yet. -/
def Call.starting : Call → Option (BranchId × Vmm)
  | .spawn ⟨branchId, _, .start vm _⟩ | .spawn ⟨branchId, _, .install vm⟩ => some (branchId, vm)
  | _ => none

structure Registered (state : State) : Prop where
  tracked : ∀ branchId vm, state.sandbox.vms.get? branchId = some vm →
    vm.branchId = branchId ∧ vm.number < state.sandbox.started
  starting : ∀ call ∈ state.calls, ∀ branchId vm, call.starting = some (branchId, vm) →
    vm.branchId = branchId ∧ vm.number < state.sandbox.started
  capturing : ∀ call ∈ state.calls, ∀ capture phase, call.capturing = some (capture, phase) →
    capture.vm.branchId = capture.branchId ∧ capture.vm.number < state.sandbox.started

section Handles

variable {config : Config} {env : Env} {now : Instant} {sandbox after : Sandbox} {call next : Call}

/-- What a step does to the handles. -/
structure HandleMove (sandbox : Sandbox) (call : Call) (after : Sandbox) (next : Call) : Prop where
  started : sandbox.started ≤ after.started
  tracked : ∀ branchId vm, after.vms.get? branchId = some vm →
    sandbox.vms.get? branchId = some vm ∨ call.starting = some (branchId, vm)
  starting : ∀ branchId vm, next.starting = some (branchId, vm) →
    call.starting = some (branchId, vm) ∨ vm = ⟨branchId, sandbox.started⟩ ∧ sandbox.started < after.started
  capturing : ∀ capture phase, next.capturing = some (capture, phase) →
    sandbox.vms.get? capture.branchId = some capture.vm ∨
      ∃ old work, call.capturing = some (old, work) ∧ old.vm = capture.vm ∧ old.branchId = capture.branchId

theorem HandleMove.quiet (sameStarted : after.started = sandbox.started) (sameVms : after.vms = sandbox.vms)
    (starts : next.starting = none) (captures : next.capturing = none) :
    HandleMove sandbox call after next := by
  refine ⟨Nat.le_of_eq sameStarted.symm, fun _ _ stored => .inl (sameVms ▸ stored), ?_, ?_⟩
  · rw [starts]
    exact nofun
  · rw [captures]
    exact nofun

theorem CaptureMove.handles {capture : Capture} {phase : CapturePhase} {result : CaptureResult}
    (move : CaptureMove env now sandbox capture phase after result) :
    after.started = sandbox.started ∧ after.vms = sandbox.vms ∧
      ∀ later work, result = .goes later work → later.vm = capture.vm ∧ later.branchId = capture.branchId := by
  cases move with
  | paused => exact ⟨Sandbox.started_alter .., Sandbox.vms_alter .., fun _ _ same => by cases same; exact ⟨rfl, rfl⟩⟩
  | returned => exact ⟨Sandbox.started_alter .., Sandbox.vms_alter .., nofun⟩
  | raised isMiddle =>
    obtain rfl | rfl | rfl := isMiddle
    · exact ⟨rfl, rfl, nofun⟩
    · exact ⟨Sandbox.started_alter .., Sandbox.vms_alter .., nofun⟩
    · exact ⟨Sandbox.started_alter .., Sandbox.vms_alter .., nofun⟩
  | _ => exact ⟨rfl, rfl, fun _ _ same => by cases same; exact ⟨rfl, rfl⟩⟩

theorem staging_idle (config : Config) (handed : Handed) (branchId : BranchId) (parentId : Option BranchId) :
    (Call.spawn ⟨branchId, parentId, .staging config handed⟩).starting = none ∧
      (Call.spawn ⟨branchId, parentId, .staging config handed⟩).capturing = none := by
  unfold SpawnPhase.staging
  split <;> exact ⟨rfl, rfl⟩

theorem forked_returned_idle (config : Config) (capture : Capture) (branchId : BranchId) (parentId : Option BranchId) :
    (Call.spawn ⟨branchId, parentId, (CaptureResult.returned capture).forked config⟩).capturing = none :=
  (staging_idle ..).2

theorem HandleMove.captured {capture : Capture} {phase : CapturePhase} {result : CaptureResult}
    (move : CaptureMove env now sandbox capture phase after result)
    (isCapturing : call.capturing = some (capture, phase)) (starts : next.starting = none)
    (goes : ∀ later work, next.capturing = some (later, work) → result = .goes later work) :
    HandleMove sandbox call after next := by
  obtain ⟨sameStarted, sameVms, sameVm⟩ := move.handles
  refine ⟨Nat.le_of_eq sameStarted.symm, fun _ _ stored => .inl (sameVms ▸ stored), ?_, ?_⟩
  · rw [starts]
    exact nofun
  · intro later work captures
    obtain ⟨vmSame, branchSame⟩ := sameVm later work (goes later work captures)
    exact .inr ⟨capture, phase, isCapturing, vmSame.symm, branchSame.symm⟩

theorem get?_of_erase {dict : Dict BranchId Vmm} {branchId other : BranchId} {vm : Vmm}
    (stored : (dict.erase branchId).get? other = some vm) : dict.get? other = some vm := by
  rw [Dict.get?_erase] at stored
  split at stored
  · cases stored
  · exact stored

theorem started_parentLock (branchId : BranchId) : (sandbox.parentLock branchId).2.started = sandbox.started ∧
    (sandbox.parentLock branchId).2.vms = sandbox.vms := by
  unfold Sandbox.parentLock
  split <;> exact ⟨rfl, rfl⟩

theorem CallMove.handles (move : CallMove config env now sandbox call after next) :
    HandleMove sandbox call after next := by
  cases move with
  | spawn move =>
    cases move with
    | locks => exact .quiet (started_parentLock _).1 (started_parentLock _).2 rfl rfl
    | acquires acquired =>
      obtain ⟨_, rfl⟩ := Sandbox.acquire_some acquired
      exact .quiet rfl rfl rfl rfl
    | captures found =>
      refine ⟨Nat.le_refl _, fun _ _ stored => .inl stored, nofun, ?_⟩
      rintro capture work ⟨⟩
      exact .inl found
    | finds | reuses => exact .quiet rfl rfl (staging_idle ..).1 (staging_idle ..).2
    | @captured capture work after result move =>
      cases result with
      | goes => exact .captured move rfl rfl fun _ _ same => by cases same; rfl
      | returned =>
        refine .captured move rfl (staging_idle ..).1 fun _ _ captures => ?_
        rw [forked_returned_idle] at captures
        cases captures
      | raised => exact .captured move rfl rfl nofun
    | linksMem staging | linksState staging =>
      rw [Sandbox.linkInto_machines staging]
      exact .quiet rfl rfl rfl rfl
    | launches =>
      refine ⟨Nat.le_succ _, fun _ _ stored => .inl stored, ?_, nofun⟩
      rintro branchId vm ⟨⟩
      exact .inr ⟨rfl, Nat.lt_succ_self _⟩
    | booted =>
      refine ⟨Nat.le_refl _, fun _ _ stored => .inl stored, ?_, nofun⟩
      rintro branchId vm ⟨⟩
      exact .inl rfl
    | restored _ restored =>
      obtain ⟨_, _, _, _, rfl⟩ := Sandbox.restore_some restored
      refine ⟨Nat.le_of_eq (Sandbox.started_alter ..).symm,
        fun _ _ stored => .inl (by rwa [Sandbox.vms_alter] at stored), ?_, nofun⟩
      rintro branchId vm ⟨⟩
      exact .inl rfl
    | @installs vm =>
      refine ⟨Nat.le_refl _, fun other found stored => ?_, nofun, nofun⟩
      rw [Sandbox.track, Dict.get?_insert] at stored
      split at stored
      · next here =>
        cases stored
        rw [here]
        exact .inr rfl
      · exact .inl stored
    | untracks => exact ⟨Nat.le_refl _, fun _ _ stored => .inl (get?_of_erase stored), nofun, nofun⟩
    | reaps => exact .quiet (Sandbox.started_alter ..) (Sandbox.vms_alter ..) rfl rfl
    | _ => exact .quiet rfl rfl rfl rfl
  | exec move =>
    cases move with
    | locks => exact .quiet (started_parentLock _).1 (started_parentLock _).2 rfl rfl
    | acquires acquired =>
      obtain ⟨_, rfl⟩ := Sandbox.acquire_some acquired
      exact .quiet rfl rfl rfl rfl
    | bumps => refine .quiet ?_ ?_ rfl rfl <;> unfold Sandbox.bump <;> split <;> rfl
    | _ => exact .quiet rfl rfl rfl rfl
  | checkpoint move =>
    cases move with
    | locks => exact .quiet (started_parentLock _).1 (started_parentLock _).2 rfl rfl
    | acquires acquired =>
      obtain ⟨_, rfl⟩ := Sandbox.acquire_some acquired
      exact .quiet rfl rfl rfl rfl
    | misses => exact .quiet rfl rfl rfl rfl
    | finds found =>
      refine ⟨Nat.le_refl _, fun _ _ stored => .inl stored, nofun, ?_⟩
      rintro capture work ⟨⟩
      exact .inl found
    | @captured capture work after result move =>
      cases result with
      | goes => exact .captured move rfl rfl fun _ _ same => by cases same; rfl
      | returned | raised => exact .captured move rfl rfl (fun _ _ same => by cases same)
  | kill move =>
    cases move with
    | takes | misses =>
      exact ⟨Nat.le_refl _, fun _ _ stored => .inl (get?_of_erase stored), nofun, fun _ _ same => by cases same⟩
    | reaps => exact .quiet (Sandbox.started_alter ..) (Sandbox.vms_alter ..) rfl rfl
    | _ => exact .quiet rfl rfl rfl rfl

end Handles

namespace Registered

variable {config : Config} {state after : State} {action : Action}

theorem step (registered : Registered state) (taken : state.Step config action after) : Registered after := by
  cases action with
  | invoke op =>
    cases taken
    refine ⟨registered.tracked, fun one isOne branchId vm starts => ?_, fun one isOne capture work captures => ?_⟩
    · obtain old | new := List.mem_append.1 isOne
      · exact registered.starting one old _ _ starts
      · rw [List.mem_singleton.1 new] at starts
        cases op <;> cases starts
    · obtain old | new := List.mem_append.1 isOne
      · exact registered.capturing one old _ _ captures
      · rw [List.mem_singleton.1 new] at captures
        cases op <;> cases captures
  | guest vm =>
    obtain ⟨_, equal⟩ := Option.ite_none_right_eq_some.1 taken
    cases equal
    exact ⟨registered.tracked, registered.starting, registered.capturing⟩
  | exit vm =>
    cases taken
    have sameStarted : (state.sandbox.exit vm state.clock).started = state.sandbox.started :=
      Sandbox.started_alter ..
    have sameVms : (state.sandbox.exit vm state.clock).vms = state.sandbox.vms := Sandbox.vms_alter ..
    refine ⟨?_, ?_, ?_⟩ <;> rw [sameStarted]
    · rw [sameVms]
      exact registered.tracked
    · exact registered.starting
    · exact registered.capturing
  | step c env =>
    obtain ⟨call, found, taken⟩ := Option.bind_eq_some_iff.1 taken
    obtain ⟨⟨sandbox, next⟩, stepped, rfl⟩ := Option.map_eq_some_iff.1 taken
    have member := List.mem_of_getElem? found
    have handles := (Call.step_moves stepped).handles
    have later : ∀ {vm : Vmm} {branchId : BranchId},
        vm.branchId = branchId ∧ vm.number < state.sandbox.started →
        vm.branchId = branchId ∧ vm.number < sandbox.started :=
      fun known => ⟨known.1, Nat.lt_of_lt_of_le known.2 handles.started⟩
    refine ⟨fun branchId vm stored => ?_, fun one isOne branchId vm starts => ?_,
      fun one isOne capture work captures => ?_⟩
    · obtain before | starting := handles.tracked branchId vm stored
      · exact later (registered.tracked branchId vm before)
      · exact later (registered.starting call member branchId vm starting)
    · obtain old | rfl := List.mem_or_eq_of_mem_set isOne
      · exact later (registered.starting one old branchId vm starts)
      · obtain before | ⟨rfl, grows⟩ := handles.starting branchId vm starts
        · exact later (registered.starting call member branchId vm before)
        · exact ⟨rfl, grows⟩
    · obtain old | rfl := List.mem_or_eq_of_mem_set isOne
      · exact later (registered.capturing one old capture work captures)
      · obtain tracked | ⟨before, beforeWork, was, sameVm, sameBranch⟩ := handles.capturing capture work captures
        · exact later (registered.tracked _ _ tracked)
        · have known := registered.capturing call member before beforeWork was
          rw [sameVm, sameBranch] at known
          exact later known

end Registered

theorem registered_fresh (disk : Disk Path Image) : Registered (State.fresh disk) where
  tracked branchId vm stored := by cases stored
  starting call member := by cases member
  capturing call member := by cases member

end Agentfork.Firecracker.Snapshots

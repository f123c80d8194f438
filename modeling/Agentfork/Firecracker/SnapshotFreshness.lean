import Agentfork.Firecracker.BranchLocks
import Agentfork.Firecracker.SnapshotIsolation

/-! # No completed exec is lost by a fork

Every exec bumps the generation of its branch after the guest command, and a
snapshot is recorded under the generation that was read before it. So whenever the
two agree, no exec has returned since the snapshot was taken, whatever ran in
between: an exec that returns between the reading and the record makes them
differ. A fork that finds them equal may reuse the files, and one that does not
writes them anew. -/

namespace Agentfork.Firecracker.Snapshots

open Transition

/-! ## Returned execs -/

namespace Call

def returned : Call → Option (BranchId × Instant)
  | .exec ⟨branchId, _, .finished _ returnedAt⟩ => some (branchId, returnedAt)
  | _ => none

/-- An exec between the start of its guest command and its return. -/
def executing : Call → Option BranchId
  | .exec ⟨branchId, _, .run _⟩ | .exec ⟨branchId, _, .bump _ _⟩ => some branchId
  | _ => none

theorem executing_of_capturing {call : Call} {capture : Capture} {work : CapturePhase}
    (captures : call.capturing = some (capture, work)) : call.executing = none := by
  unfold capturing at captures
  split at captures <;> cases captures <;> rfl

end Call

namespace State

/-- An exec on the branch has returned at the instant. -/
def Returned (state : State) (branchId : BranchId) (instant : Instant) : Prop :=
  ∃ call ∈ state.calls, call.returned = some (branchId, instant)

structure NoLostExec (state : State) : Prop where
  /-- what a child of a live parent is restored from was taken after every exec that
  had returned when its spawn took the parent's lock -/
  fresh : ∀ vm machine restored, state.sandbox.machines.get? vm = some machine →
    machine.restored = some restored → restored.handed.live = true →
    ∀ instant, state.Returned restored.handed.parentId instant → instant < restored.handed.lockedAt →
      instant < restored.memory.takenAt ∧ instant < restored.device.takenAt
  /-- no snapshot of a branch is taken while an exec on it is in flight -/
  exclusive : ∀ snap ∈ state.calls, ∀ exec ∈ state.calls, ∀ capture branchId,
    snap.capturing = some (capture, .snapshot) → exec.executing = some branchId → capture.branchId ≠ branchId

end State

/-! ## Branch ids -/

namespace Call

/-- The branch of a spawn that has been admitted. -/
def admitted : Call → Option BranchId
  | .spawn ⟨_, _, .admission⟩ | .spawn ⟨_, _, .refused _⟩ => none
  | .spawn ⟨branchId, _, _⟩ => some branchId
  | _ => none

/-- The branch of a spawn that has tracked its VMM, or has failed. -/
def established : Call → Option BranchId
  | .spawn ⟨branchId, _, .reseed _⟩ | .spawn ⟨branchId, _, .abort _⟩ | .spawn ⟨branchId, _, .reap _⟩
  | .spawn ⟨branchId, _, .discard _⟩ | .spawn ⟨branchId, _, .settle _⟩
  | .spawn ⟨branchId, _, .finished _⟩ => some branchId
  | _ => none

/-- The branch of a spawn that asks for its admission. -/
def admitting : Call → Option BranchId
  | .spawn ⟨branchId, _, .admission⟩ => some branchId
  | _ => none

theorem admitted_of_established {call : Call} {branchId : BranchId} (isEstablished : call.established = some branchId) :
    call.admitted = some branchId := by
  unfold established at isEstablished
  split at isEstablished <;> cases isEstablished <;> rfl

theorem admitted_of_starting {call : Call} {branchId : BranchId} {vm : Vmm}
    (isStarting : call.starting = some (branchId, vm)) :
    call.admitted = some branchId ∧ call.established = none := by
  unfold starting at isStarting
  split at isStarting <;> cases isStarting <;> exact ⟨rfl, rfl⟩

end Call

namespace State

/-- No branch id is reused: a spawn that is admitted is the first with its id. -/
def Renews (state : State) : Action → Prop
  | .step c _ => match state.calls[c]? with
    | some (.spawn ⟨branchId, _, .admission⟩) =>
      branchId ∈ state.sandbox.vms ∨ branchId ∈ state.sandbox.pending ∨
        ∀ call ∈ state.calls, call.admitted ≠ some branchId
    | _ => True
  | _ => True

theorem renews_iff {state : State} {c : Nat} {env : Env} :
    (∀ branchId ∈ (state.calls[c]?).bind Call.admitting, branchId ∈ state.sandbox.vms ∨
      branchId ∈ state.sandbox.pending ∨ ∀ call ∈ state.calls, call.admitted ≠ some branchId) ↔
    state.Renews (.step c env) := by
  cases found : state.calls[c]? with
  | none => simp [Renews, found]
  | some call =>
    cases call with
    | spawn task =>
      obtain ⟨branchId, parentId, phase⟩ := task
      cases phase <;> simp [Renews, found, Call.admitting]
    | exec | checkpoint | kill => simp [Renews, found, Call.admitting]

instance (state : State) : (action : Action) → Decidable (state.Renews action)
  | .step _ _ => decidable_of_iff _ renews_iff
  | .invoke _ | .guest _ | .exit _ => instDecidableTrue

end State

section Steps

variable {config : Config} {env : Env} {now : Instant} {sandbox after : Sandbox} {call next : Call}

theorem staging_admitted (config : Config) (handed : Handed) (branchId : BranchId) (parentId : Option BranchId) :
    (Call.spawn ⟨branchId, parentId, .staging config handed⟩).admitted = some branchId := by
  unfold SpawnPhase.staging
  split <;> rfl

/-- A step admits a spawn, or admits none; what is established stays so. -/
theorem CallMove.admits (move : CallMove config env now sandbox call after next) :
    (next.admitted = call.admitted ∨ call.admitted = none ∧
      ∃ branchId parentId, call = .spawn ⟨branchId, parentId, .admission⟩ ∧
        ¬ (branchId ∈ sandbox.vms ∨ branchId ∈ sandbox.pending) ∧ next.admitted = some branchId) ∧
      (∀ branchId, call.established = some branchId → next.established = some branchId) := by
  cases move with
  | spawn move =>
    cases move with
    | admitted free => exact ⟨.inr ⟨rfl, _, _, rfl, free, rfl⟩, nofun⟩
    | refused => exact ⟨.inl rfl, nofun⟩
    | finds | reuses => exact ⟨.inl (staging_admitted ..), nofun⟩
    | misses | installs => exact ⟨.inl rfl, nofun⟩
    | @captured capture work after result move =>
      cases result with
      | goes | raised => exact ⟨.inl rfl, fun _ same => by cases same⟩
      | returned => exact ⟨.inl (staging_admitted ..), nofun⟩
    | fails raises => obtain rfl | ⟨_, rfl⟩ | ⟨_, rfl⟩ | ⟨_, rfl⟩ := raises <;> exact ⟨.inl rfl, nofun⟩
    | aborts raises =>
      obtain ⟨_, rfl⟩ | rfl | rfl := raises
      · exact ⟨.inl rfl, nofun⟩
      · exact ⟨.inl rfl, nofun⟩
      · exact ⟨.inl rfl, fun _ same => same⟩
    | _ => exact ⟨.inl rfl, fun _ same => same⟩
  | exec | checkpoint | kill => exact ⟨.inl rfl, nofun⟩

/-- Only the spawn of a branch tracks a VMM under it. -/
theorem CallMove.tracks (move : CallMove config env now sandbox call after next) {branchId : BranchId}
    (live : branchId ∈ after.vms) : branchId ∈ sandbox.vms ∨ next.established = some branchId := by
  obtain ⟨vm, stored⟩ := Dict.mem_iff_get?.1 live
  obtain before | starts := move.handles.tracked branchId vm stored
  · exact .inl (Dict.mem_of_get? before)
  · unfold Call.starting at starts
    split at starts
    · cases starts
      cases move with
      | spawn move =>
        cases move with
        | booted => exact .inl live
        | restored _ restored =>
          obtain ⟨_, _, _, _, rfl⟩ := Sandbox.restore_some restored
          rw [Sandbox.vms_alter] at live
          exact .inl live
        | _ => exact .inr rfl
    · cases starts
      cases move with
      | spawn move => cases move <;> exact .inr rfl
    · cases starts

/-! ## Generations -/

/-- What a step does to the generations and to the record of the last snapshot. -/
inductive GenMove (sandbox : Sandbox) (call : Call) (now : Instant) (after : Sandbox) (next : Call) : Prop where
  | keeps : after.gen = sandbox.gen → after.snapGen = sandbox.snapGen →
      after.snapshots = sandbox.snapshots → next.returned = call.returned →
      GenMove sandbox call now after next
  | records {capture : Capture} : call.capturing = some (capture, .record) →
      after = sandbox.record capture.branchId capture.gen → call.returned = none → next.returned = none →
      GenMove sandbox call now after next
  | bumps {branchId : BranchId} {lock : Nat} : call.executing = some branchId →
      after = (sandbox.bump branchId).release lock → next.returned = some (branchId, now) →
      call.returned = none → GenMove sandbox call now after next

theorem CaptureMove.gens {capture : Capture} {work : CapturePhase} {result : CaptureResult}
    (move : CaptureMove env now sandbox capture work after result) :
    (after.gen = sandbox.gen ∧ after.snapGen = sandbox.snapGen ∧ after.snapshots = sandbox.snapshots) ∨
      work = .record ∧ after = sandbox.record capture.branchId capture.gen := by
  cases move with
  | recorded => exact .inr ⟨rfl, rfl⟩
  | paused => exact .inl (by simp [Sandbox.pause])
  | returned => exact .inl (by simp [Sandbox.resume, Sandbox.release])
  | raised isMiddle =>
    refine .inl ?_
    obtain rfl | rfl | rfl := isMiddle <;> simp [Sandbox.pause, Sandbox.resume, Sandbox.release]
  | _ => exact .inl ⟨rfl, rfl, rfl⟩

theorem parentLock_gens (branchId : BranchId) : (sandbox.parentLock branchId).2.gen = sandbox.gen ∧
    (sandbox.parentLock branchId).2.snapGen = sandbox.snapGen ∧
    (sandbox.parentLock branchId).2.snapshots = sandbox.snapshots := by
  unfold Sandbox.parentLock
  split <;> exact ⟨rfl, rfl, rfl⟩

theorem CallMove.gens (move : CallMove config env now sandbox call after next) (spares : call.kills = false) :
    GenMove sandbox call now after next := by
  cases move with
  | spawn move =>
    cases move with
    | locks =>
      obtain ⟨sameGen, sameSnapGen, same⟩ := @parentLock_gens sandbox _
      exact .keeps sameGen sameSnapGen same rfl
    | acquires acquired =>
      obtain ⟨_, rfl⟩ := Sandbox.acquire_some acquired
      exact .keeps rfl rfl rfl rfl
    | @captured capture work after result move =>
      obtain ⟨sameGen, sameSnapGen, same⟩ | ⟨rfl, isAfter⟩ := move.gens
      · exact .keeps sameGen sameSnapGen same rfl
      · exact .records rfl isAfter rfl rfl
    | linksMem staging | linksState staging =>
      rw [Sandbox.linkInto_machines staging]
      exact .keeps rfl rfl rfl rfl
    | restored _ restored =>
      obtain ⟨_, _, _, _, rfl⟩ := Sandbox.restore_some restored
      exact .keeps (Sandbox.gen_alter ..) (Sandbox.snapGen_alter ..) (Sandbox.snapshots_alter ..) rfl
    | reaps => exact .keeps (Sandbox.gen_alter ..) (Sandbox.snapGen_alter ..) (Sandbox.snapshots_alter ..) rfl
    | _ => exact .keeps rfl rfl rfl rfl
  | exec move =>
    cases move with
    | locks =>
      obtain ⟨sameGen, sameSnapGen, same⟩ := @parentLock_gens sandbox _
      exact .keeps sameGen sameSnapGen same rfl
    | acquires acquired =>
      obtain ⟨_, rfl⟩ := Sandbox.acquire_some acquired
      exact .keeps rfl rfl rfl rfl
    | bumps => exact .bumps rfl rfl rfl rfl
    | _ => exact .keeps rfl rfl rfl rfl
  | checkpoint move =>
    cases move with
    | locks =>
      obtain ⟨sameGen, sameSnapGen, same⟩ := @parentLock_gens sandbox _
      exact .keeps sameGen sameSnapGen same rfl
    | acquires acquired =>
      obtain ⟨_, rfl⟩ := Sandbox.acquire_some acquired
      exact .keeps rfl rfl rfl rfl
    | @captured capture work after result move =>
      obtain ⟨sameGen, sameSnapGen, same⟩ | ⟨rfl, isAfter⟩ := move.gens
      · exact .keeps sameGen sameSnapGen same rfl
      · exact .records rfl isAfter rfl rfl
    | _ => exact .keeps rfl rfl rfl rfl
  | kill => cases spares

end Steps

/-! ## What is newer than the execs that have returned -/

/-- The branch's snapshot files, where there are any, were written after the instants. -/
def Newer (disk : Disk Path Image) (branchId : BranchId) (instants : Instant → Prop) : Prop :=
  ∀ file handle, disk.lookup (branchId, file) = some handle → ∀ instant, instants instant →
    instant < (disk.read handle).takenAt

/-- A capture past its snapshot, or one that takes none, leaves files that are newer
than the execs before it; and if it is about to record them under the generation
the branch still has, they are newer than every exec. -/
structure Capture.Fresh (state : State) (capture : Capture) (work : CapturePhase) : Prop where
  lockedAt : capture.lockedAt ≤ state.clock
  gen : capture.gen ≤ state.sandbox.genOf capture.branchId
  written : capture.takes = false ∨ work = .record ∨ work = .copyOverlay ∨ work = .resume false →
    Newer state.sandbox.disk capture.branchId fun instant =>
      state.Returned capture.branchId instant ∧ instant < capture.lockedAt
  recorded : work = .record → capture.branchId ∈ state.sandbox.vms →
    capture.gen = state.sandbox.genOf capture.branchId →
    Newer state.sandbox.disk capture.branchId (state.Returned capture.branchId)

/-- What a live parent has handed out is newer than the execs before the fork. -/
structure Handed.Fresh (state : State) (handed : Handed) : Prop where
  lockedAt : handed.lockedAt ≤ state.clock
  named : handed.live = true → Newer state.sandbox.disk handed.parentId fun instant =>
    state.Returned handed.parentId instant ∧ instant < handed.lockedAt
  staged : handed.live = true → ∀ file handle, handed.staged file = some handle → ∀ instant,
    state.Returned handed.parentId instant → instant < handed.lockedAt →
      instant < (state.sandbox.disk.read handle).takenAt

/-- Whatever a restore reads of it, staged or by its path, is newer too. -/
theorem Handed.Fresh.resolved {state : State} {handed : Handed} (fresh : handed.Fresh state)
    (live : handed.live = true) {file : SnapshotFile} {handle : Handle Path}
    (resolved : (handed.staged file).or (state.sandbox.disk.lookup (handed.parentId, file)) = some handle)
    {instant : Instant} (returned : state.Returned handed.parentId instant) (early : instant < handed.lockedAt) :
    instant < (state.sandbox.disk.read handle).takenAt := by
  cases isStaged : handed.staged file with
  | some staged =>
    rw [isStaged, Option.some_or] at resolved
    cases resolved
    exact fresh.staged live file handle isStaged instant returned early
  | none =>
    rw [isStaged, Option.none_or] at resolved
    exact fresh.named live file handle resolved instant ⟨returned, early⟩

/-- The instant at which a spawn took the lock it holds. -/
def Call.lockedSince : Call → Option Instant
  | .spawn ⟨_, _, .inspect _ _ lockedAt⟩ | .spawn ⟨_, _, .reuse _ _ lockedAt⟩ => some lockedAt
  | .checkpoint ⟨_, .inspect _ lockedAt⟩ => some lockedAt
  | _ => none

theorem staging_unlocked (config : Config) (handed : Handed) (branchId : BranchId) (parentId : Option BranchId) :
    (Call.spawn ⟨branchId, parentId, .staging config handed⟩).lockedSince = none := by
  unfold SpawnPhase.staging
  split <;> rfl

structure Fresh (state : State) : Prop where
  locked : Locked state
  grounded : Grounded state
  /-- no two spawns with one id have been admitted -/
  admitted : ∀ (i j : Nat) (first second : Call), state.calls[i]? = some first → state.calls[j]? = some second →
    ∀ branchId, first.admitted = some branchId → second.admitted = some branchId → i = j
  /-- what there is of a branch comes from a spawn that has tracked its VMM -/
  established : ∀ branchId, branchId ∈ state.sandbox.vms ∨ branchId ∈ state.sandbox.snapshots ∨
    (∃ call ∈ state.calls, ∃ capture work, call.capturing = some (capture, work) ∧
      capture.branchId = branchId) → ∃ call ∈ state.calls, call.established = some branchId
  times : ∀ branchId instant, state.Returned branchId instant → instant < state.clock
  since : ∀ call ∈ state.calls, ∀ instant, call.lockedSince = some instant → instant ≤ state.clock
  gens : ∀ branchId gen, state.sandbox.snapGen.get? branchId = some gen → gen ≤ state.sandbox.genOf branchId
  /-- a recorded snapshot of the branch's generation is newer than every exec -/
  current : ∀ branchId, branchId ∈ state.sandbox.vms → branchId ∈ state.sandbox.snapshots →
    state.sandbox.snapGen.get? branchId = some (state.sandbox.genOf branchId) →
    Newer state.sandbox.disk branchId (state.Returned branchId)
  captures : ∀ call ∈ state.calls, ∀ capture work, call.capturing = some (capture, work) →
    capture.Fresh state work
  handed : ∀ call ∈ state.calls, ∀ handed, call.handed = some handed → handed.Fresh state
  guests : ∀ vm machine restored, state.sandbox.machines.get? vm = some machine →
    machine.restored = some restored → restored.handed.lockedAt ≤ state.clock ∧
      (restored.handed.live = true → ∀ instant, state.Returned restored.handed.parentId instant →
        instant < restored.handed.lockedAt →
          instant < restored.memory.takenAt ∧ instant < restored.device.takenAt)

section Newer

variable {before after : Disk Path Image} {touched : Path → Prop} {content : Image} {branchId : BranchId}
  {instants fewer : Instant → Prop}

theorem Newer.mono (newer : Newer before branchId instants) (fewest : ∀ instant, fewer instant → instants instant) :
    Newer before branchId fewer :=
  fun file handle found instant isOne => newer file handle found instant (fewest instant isOne)

theorem Newer.changes (newer : Newer before branchId instants) (changes : before.Changes after touched content)
    (later : ∀ instant, instants instant → instant < content.takenAt) : Newer after branchId instants := by
  intro file handle found instant isOne
  obtain ⟨stored, same⟩ | ⟨_, written⟩ := changes.named _ _ (Disk.lookup_some found).1
  · have old := newer file _ (Disk.lookup_of_inode stored) instant isOne
    show instant < (after.contents handle.inode).takenAt
    rw [same]
    exact old
  · show instant < (after.contents handle.inode).takenAt
    rw [written]
    exact later instant isOne

end Newer

/-! ## One step of a call -/

section Step

variable {config : Config} {env : Env} {state : State} {c : Nat} {call next : Call} {after : Sandbox}

/-- The state after a step of call `c`. -/
def State.stepped (state : State) (c : Nat) (next : Call) (after : Sandbox) : State :=
  ⟨after, state.calls.set c next, state.clock + 1⟩

/-- What has returned after a step had returned before, or returns in the step. -/
theorem returned_before (found : state.calls[c]? = some call)
    (gens : GenMove state.sandbox call state.clock after next) {branchId : BranchId} {instant : Instant}
    (returned : (state.stepped c next after).Returned branchId instant) : state.Returned branchId instant ∨
      instant = state.clock ∧ ∃ lock, call.executing = some branchId ∧
        after = (state.sandbox.bump branchId).release lock := by
  obtain ⟨one, member, isReturned⟩ := returned
  obtain old | rfl := List.mem_or_eq_of_mem_set member
  · exact .inl ⟨one, old, isReturned⟩
  · cases gens with
    | keeps _ _ _ same => exact .inl ⟨call, List.mem_of_getElem? found, same ▸ isReturned⟩
    | records _ _ _ nothing =>
      rw [nothing] at isReturned
      cases isReturned
    | bumps executes isAfter isNow =>
      rw [isNow] at isReturned
      cases isReturned
      exact .inr ⟨rfl, _, executes, isAfter⟩

theorem Sandbox.snapshots_bump (sandbox : Sandbox) (branchId : BranchId) :
    (sandbox.bump branchId).snapshots = sandbox.snapshots := by
  unfold Sandbox.bump
  split <;> rfl

theorem Sandbox.snapGen_bump (sandbox : Sandbox) (branchId : BranchId) :
    (sandbox.bump branchId).snapGen = sandbox.snapGen := by
  unfold Sandbox.bump
  split <;> rfl

theorem genOf_bump (sandbox : Sandbox) (branchId other : BranchId) : (sandbox.bump branchId).genOf other =
    if other = branchId ∧ branchId ∈ sandbox.vms then sandbox.genOf other + 1 else sandbox.genOf other := by
  unfold Sandbox.bump
  by_cases live : branchId ∈ sandbox.vms
  · by_cases here : other = branchId
    · simp [Sandbox.genOf, live, here]
    · simp [Sandbox.genOf, live, here]
  · simp [live]

theorem GenMove.genOf_le {sandbox : Sandbox} {now : Instant} (gens : GenMove sandbox call now after next)
    (branchId : BranchId) : sandbox.genOf branchId ≤ after.genOf branchId := by
  cases gens with
  | keeps same => exact Nat.le_of_eq (by rw [Sandbox.genOf, Sandbox.genOf, same])
  | records _ isAfter => exact Nat.le_of_eq (by rw [isAfter]; rfl)
  | @bumps bumped lock _ isAfter =>
    have released : after.genOf branchId = (sandbox.bump bumped).genOf branchId := by
      rw [isAfter]
      rfl
    rw [released, genOf_bump]
    split
    · exact Nat.le_succ _
    · exact Nat.le_refl _

/-- A live branch that an exec has just returned on has a new generation. -/
theorem genOf_bumped {lock : Nat} {branchId : BranchId} (live : branchId ∈ state.sandbox.vms)
    (isAfter : after = (state.sandbox.bump branchId).release lock) :
    after.genOf branchId = state.sandbox.genOf branchId + 1 := by
  have released : after.genOf branchId = (state.sandbox.bump branchId).genOf branchId := by
    rw [isAfter]
    rfl
  rw [released, genOf_bump, if_pos ⟨rfl, live⟩]

end Step

namespace Fresh

section Call

variable {config : Config} {env : Env} {state : State} {c : Nat} {call next : Call} {after : Sandbox}
  {branchId : BranchId}

/-- There is nothing yet of a branch whose VMM is starting. -/
theorem clean (fresh : Fresh state) (found : state.calls[c]? = some call) {vm : Vmm}
    (starts : call.starting = some (branchId, vm)) : ¬ (branchId ∈ state.sandbox.vms ∨
      branchId ∈ state.sandbox.snapshots ∨ ∃ one ∈ state.calls, ∃ capture work,
        one.capturing = some (capture, work) ∧ capture.branchId = branchId) := by
  intro present
  obtain ⟨other, member, isEstablished⟩ := fresh.established branchId present
  obtain ⟨i, isOther⟩ := List.mem_iff_getElem?.1 member
  obtain ⟨isAdmitted, notEstablished⟩ := Call.admitted_of_starting starts
  have same : c = i := fresh.admitted c i call other found isOther branchId isAdmitted
    (Call.admitted_of_established isEstablished)
  subst same
  rw [found] at isOther
  cases isOther
  rw [notEstablished] at isEstablished
  cases isEstablished

/-- A branch that has a snapshot, or is being captured, was live before a step if it is
after it. -/
theorem live_before (fresh : Fresh state) (found : state.calls[c]? = some call)
    (handles : HandleMove state.sandbox call after next) (live : branchId ∈ after.vms)
    (present : branchId ∈ state.sandbox.snapshots ∨ ∃ one ∈ state.calls, ∃ capture work,
      one.capturing = some (capture, work) ∧ capture.branchId = branchId) : branchId ∈ state.sandbox.vms := by
  obtain ⟨vm, stored⟩ := Dict.mem_iff_get?.1 live
  obtain before | starts := handles.tracked branchId vm stored
  · exact Dict.mem_of_get? before
  · exact absurd (.inr present) (fresh.clean found starts)

/-- What is newer than the execs before an instant stays so. -/
theorem newer_before (fresh : Fresh state) (found : state.calls[c]? = some call)
    (move : CallMove config env state.clock state.sandbox call after next) {lockedAt : Instant}
    (bound : lockedAt ≤ state.clock) (newer : Newer state.sandbox.disk branchId fun instant =>
      state.Returned branchId instant ∧ instant < lockedAt) :
    Newer after.disk branchId fun instant =>
      (state.stepped c next after).Returned branchId instant ∧ instant < lockedAt := by
  have gens := move.gens (fresh.locked.spares call (List.mem_of_getElem? found))
  refine (newer.changes move.disk fun instant isOne => fresh.times branchId instant isOne.1).mono ?_
  intro instant isOne
  obtain before | ⟨isNow, _⟩ := returned_before found gens isOne.1
  · exact ⟨before, isOne.2⟩
  · have early : instant < state.clock := Nat.lt_of_lt_of_le isOne.2 bound
    exact absurd isNow (Nat.ne_of_lt early)

/-- What is newer than every exec stays so, unless one returns. -/
theorem newer_all (fresh : Fresh state) (found : state.calls[c]? = some call)
    (move : CallMove config env state.clock state.sandbox call after next)
    (unbumped : ∀ lock, call.executing = some branchId → after ≠ (state.sandbox.bump branchId).release lock)
    (newer : Newer state.sandbox.disk branchId (state.Returned branchId)) :
    Newer after.disk branchId ((state.stepped c next after).Returned branchId) := by
  have gens := move.gens (fresh.locked.spares call (List.mem_of_getElem? found))
  refine (newer.changes move.disk fun instant isOne => fresh.times branchId instant isOne).mono ?_
  intro instant isOne
  obtain before | ⟨_, lock, executes, isAfter⟩ := returned_before found gens isOne
  · exact before
  · exact absurd isAfter (unbumped lock executes)

/-- A capture that the step of a call leaves alone. -/
theorem other_capture (fresh : Fresh state) (found : state.calls[c]? = some call)
    (move : CallMove config env state.clock state.sandbox call after next) {one : Call}
    (member : one ∈ state.calls) {capture : Capture} {work : CapturePhase}
    (captures : one.capturing = some (capture, work)) : capture.Fresh (state.stepped c next after) work := by
  have here := fresh.captures one member capture work captures
  have gens := move.gens (fresh.locked.spares call (List.mem_of_getElem? found))
  have grows := gens.genOf_le capture.branchId
  refine ⟨Nat.le_succ_of_le here.lockedAt, Nat.le_trans here.gen grows,
    fun past => fresh.newer_before found move here.lockedAt (here.written past), fun isRecord live sameGen => ?_⟩
  have sameGen : capture.gen = after.genOf capture.branchId := sameGen
  have wasLive := fresh.live_before found move.handles live (.inr ⟨one, member, capture, work, captures, rfl⟩)
  have wasGen : capture.gen = state.sandbox.genOf capture.branchId :=
    Nat.le_antisymm here.gen (sameGen ▸ grows)
  refine fresh.newer_all found move (fun lock _ isAfter => ?_) (here.recorded isRecord wasLive wasGen)
  have bumped := genOf_bumped wasLive isAfter
  omega

/-- A recorded snapshot of the branch's generation is newer than every exec, after a
step as before it. -/
theorem current_step (fresh : Fresh state) (found : state.calls[c]? = some call)
    (move : CallMove config env state.clock state.sandbox call after next) (live : branchId ∈ after.vms)
    (known : branchId ∈ after.snapshots) (same : after.snapGen.get? branchId = some (after.genOf branchId)) :
    Newer after.disk branchId ((state.stepped c next after).Returned branchId) := by
  have member := List.mem_of_getElem? found
  have gens := move.gens (fresh.locked.spares call member)
  cases gens with
  | keeps sameGen sameSnapGen sameSnapshots =>
    rw [sameSnapshots] at known
    have wasLive := fresh.live_before found move.handles live (.inl known)
    have wasSame : state.sandbox.snapGen.get? branchId = some (state.sandbox.genOf branchId) := by
      rw [← sameSnapGen, same, Sandbox.genOf, Sandbox.genOf, sameGen]
    refine fresh.newer_all found move (fun lock _ isAfter => ?_) (fresh.current branchId wasLive known wasSame)
    have bumped := genOf_bumped wasLive isAfter
    rw [Sandbox.genOf, Sandbox.genOf, sameGen] at bumped
    omega
  | @records capture captures isAfter =>
    have idle : call.executing = none := Call.executing_of_capturing captures
    refine fresh.newer_all found move (fun lock executes => by rw [idle] at executes; cases executes) ?_
    rw [isAfter] at live known same
    have same : (state.sandbox.snapGen.insert capture.branchId capture.gen).get? branchId =
        some (state.sandbox.genOf branchId) := same
    rw [Dict.get?_insert] at same
    split at same
    · next here =>
      -- the generation that was read is still the branch's
      subst here
      exact (fresh.captures call member capture .record captures).recorded rfl live (Option.some.inj same)
    · next elsewhere =>
      obtain here | wasKnown := Finset.mem_insert.1 known
      · exact absurd here elsewhere
      · exact fresh.current branchId live wasKnown same
  | @bumps bumped lock executes isAfter =>
    have sameSnapshots : after.snapshots = state.sandbox.snapshots := by
      rw [isAfter, Sandbox.release, Sandbox.snapshots_bump]
    have sameSnapGen : after.snapGen = state.sandbox.snapGen := by
      rw [isAfter, Sandbox.release, Sandbox.snapGen_bump]
    rw [sameSnapshots] at known
    rw [sameSnapGen] at same
    have wasLive := fresh.live_before found move.handles live (.inl known)
    by_cases here : branchId = bumped
    · subst here
      rw [genOf_bumped wasLive isAfter] at same
      have bound := fresh.gens branchId _ same
      omega
    · have sameGen : after.genOf branchId = state.sandbox.genOf branchId := by
        have released : after.genOf branchId = (state.sandbox.bump bumped).genOf branchId := by
          rw [isAfter]
          rfl
        rw [released, genOf_bump, if_neg fun both => here both.1]
      rw [sameGen] at same
      refine fresh.newer_all found move (fun _ other => ?_) (fresh.current branchId wasLive known same)
      rw [executes] at other
      exact absurd (Option.some.inj other).symm here

/-- A live branch whose snapshot is not stale has files newer than every exec. -/
theorem newer_of_not_stale (fresh : Fresh state) {vm : Vmm} (live : state.sandbox.vms.get? branchId = some vm)
    (current : state.sandbox.stale branchId = false) :
    Newer state.sandbox.disk branchId (state.Returned branchId) := by
  simp only [Sandbox.stale, Bool.or_eq_false_iff, decide_eq_false_iff_not, not_not] at current
  exact fresh.current branchId (Dict.mem_of_get? live) current.1 current.2

/-- The capture of a call after the step that works on it. -/
theorem capture_move (fresh : Fresh state) (found : state.calls[c]? = some call)
    (move : CallMove config env state.clock state.sandbox call after next) {capture later : Capture}
    {work laterWork : CapturePhase}
    (captures : call.capturing = some (capture, work))
    (step : CaptureMove env state.clock state.sandbox capture work after (.goes later laterWork)) :
    later.Fresh (state.stepped c next after) laterWork := by
  have member := List.mem_of_getElem? found
  have here := fresh.captures call member capture work captures
  have gens := move.gens (fresh.locked.spares call member)
  have grows := gens.genOf_le capture.branchId
  have bound : capture.lockedAt ≤ state.clock + 1 := Nat.le_succ_of_le here.lockedAt
  have written : capture.takes = false ∨ work = .record ∨ work = .copyOverlay ∨ work = .resume false →
      Newer after.disk capture.branchId fun instant =>
        (state.stepped c next after).Returned capture.branchId instant ∧ instant < capture.lockedAt :=
    fun past => fresh.newer_before found move here.lockedAt (here.written past)
  cases step with
  | synced => exact ⟨bound, Nat.le_trans here.gen grows, fun past => written (by simpa using past), nofun⟩
  | paused =>
    refine ⟨bound, Nat.le_trans here.gen grows, fun past => written (.inl ?_), fun isRecord => ?_⟩
    · cases takes : capture.takes with
      | false => rfl
      | true => simp [takes] at past
    · split at isRecord <;> cases isRecord
  | taken _ both =>
    have newest : Newer (state.sandbox.snapshot capture.branchId capture.vm (env.written capture.vm state.sandbox)
        state.clock).disk capture.branchId ((state.stepped c next (state.sandbox.snapshot capture.branchId
          capture.vm (env.written capture.vm state.sandbox) state.clock)).Returned capture.branchId) := by
      intro file handle isHandle instant returned
      rw [both] at isHandle
      have written := Sandbox.snapshot_holds capture.vm state.clock (Disk.lookup_some isHandle).1
      rw [both]
      show instant < ((state.sandbox.snapshot capture.branchId capture.vm {.mem, .state}
        state.clock).disk.contents handle.inode).takenAt
      rw [written]
      obtain before | ⟨_, _, executes, _⟩ := returned_before found gens returned
      · exact fresh.times _ _ before
      · rw [Call.executing_of_capturing captures] at executes
        cases executes
    exact ⟨bound, Nat.le_trans here.gen grows, fun _ => newest.mono fun _ both => both.1, fun _ _ _ => newest⟩
  | torn => exact ⟨bound, Nat.le_trans here.gen grows, fun past => written (by simpa using past), nofun⟩
  | recorded =>
    refine ⟨bound, Nat.le_trans here.gen grows, fun _ => written (.inr (.inl rfl)), fun isRecord => ?_⟩
    split at isRecord <;> cases isRecord
  | copied | uncopied => exact ⟨bound, Nat.le_trans here.gen grows, fun _ => written (.inr (.inr (.inl rfl))), nofun⟩

/-- Every capture after a step. -/
theorem captures_step (fresh : Fresh state) (found : state.calls[c]? = some call)
    (move : CallMove config env state.clock state.sandbox call after next) :
    ∀ one ∈ state.calls.set c next, ∀ capture work, one.capturing = some (capture, work) →
      capture.Fresh (state.stepped c next after) work := by
  have member := List.mem_of_getElem? found
  have handles := move.handles
  have whole := move
  intro one isOne capture work captures
  obtain old | rfl := List.mem_or_eq_of_mem_set isOne
  · exact fresh.other_capture found move old captures
  cases move with
  | spawn move =>
    cases move with
    | @captures source lock lockedAt vm phase isLive isFirst works =>
      cases captures
      refine ⟨Nat.le_succ_of_le (fresh.since _ member _ rfl), Nat.le_refl _, fun past => ?_, fun isRecord => ?_⟩
      · have notStale : state.sandbox.stale source = false := by
          obtain rfl | rfl := isFirst <;> simpa using past
        exact fresh.newer_before found whole (fresh.since _ member _ rfl)
          ((fresh.newer_of_not_stale isLive notStale).mono fun _ both => both.1)
      · obtain rfl | rfl := isFirst <;> cases isRecord
    | finds => rw [(staging_idle ..).2] at captures; cases captures
    | reuses => rw [(staging_idle ..).2] at captures; cases captures
    | @captured before beforeWork after result step =>
      cases result with
      | goes =>
        cases captures
        exact fresh.capture_move found whole rfl step
      | returned =>
        rw [CaptureResult.forked, (staging_idle ..).2] at captures
        cases captures
      | raised => cases captures
    | _ => cases captures
  | checkpoint move =>
    cases move with
    | finds isLive isFirst =>
      cases captures
      refine ⟨Nat.le_succ_of_le (fresh.since _ member _ rfl), Nat.le_refl _, fun past => ?_, fun isRecord => ?_⟩
      · obtain rfl | rfl := isFirst <;> simp at past
      · obtain rfl | rfl := isFirst <;> cases isRecord
    | @captured before beforeWork after result step =>
      cases result with
      | goes =>
        cases captures
        exact fresh.capture_move found whole rfl step
      | returned | raised => cases captures
    | _ => cases captures
  | exec | kill => cases captures

/-- What has been handed out stays newer than the execs before its fork. -/
theorem other_handed (fresh : Fresh state) (found : state.calls[c]? = some call)
    (move : CallMove config env state.clock state.sandbox call after next) {handed : Handed}
    (grounded : handed.Grounded state.sandbox.disk) (here : handed.Fresh state) :
    handed.Fresh (state.stepped c next after) := by
  have gens := move.gens (fresh.locked.spares call (List.mem_of_getElem? found))
  refine ⟨Nat.le_succ_of_le here.lockedAt, fun live => fresh.newer_before found move here.lockedAt (here.named live),
    fun live file handle isStaged instant returned early => ?_⟩
  have before : state.Returned handed.parentId instant := by
    obtain before | ⟨isNow, _⟩ := returned_before found gens returned
    · exact before
    · exact absurd isNow (Nat.ne_of_lt (Nat.lt_of_lt_of_le early here.lockedAt))
  show instant < (after.disk.read handle).takenAt
  obtain same | ⟨written, _⟩ := move.disk.read handle (grounded file handle isStaged).follows
  · rw [same]
    exact here.staged live file handle isStaged instant before early
  · rw [written]
    exact fresh.times _ _ before

/-- A file that is staged is the one the parent's directory has. -/
theorem link_handed (fresh : Fresh state) (found : state.calls[c]? = some call)
    (move : CallMove config env state.clock state.sandbox call after next) {old : Handed}
    (grounded : old.Grounded state.sandbox.disk) (here : old.Fresh state) {linked : Bool} {file : SnapshotFile}
    {staged : Handle Path}
    (staging : state.sandbox.linkInto linked (old.parentId, file) = some (staged, after)) :
    (old.stage file staged).Fresh (state.stepped c next after) := by
  have whole := fresh.other_handed found move grounded here
  have gens := move.gens (fresh.locked.spares call (List.mem_of_getElem? found))
  have sameFork : (old.stage file staged).parentId = old.parentId ∧ (old.stage file staged).live = old.live ∧
      (old.stage file staged).lockedAt = old.lockedAt := by
    cases file <;> exact ⟨rfl, rfl, rfl⟩
  obtain ⟨sameParent, sameLive, sameLocked⟩ := sameFork
  refine ⟨sameLocked ▸ whole.lockedAt, fun live => ?_, fun live other handle isStaged instant returned early => ?_⟩
  · rw [sameParent, sameLocked]
    exact whole.named (sameLive ▸ live)
  · rw [sameParent] at returned
    rw [sameLocked] at early
    rw [sameLive] at live
    rw [Handed.staged_stage] at isStaged
    split at isStaged
    · cases isStaged
      obtain ⟨inode, stored, same⟩ := Sandbox.linkInto_read staging
      show instant < (after.disk.read staged).takenAt
      rw [same]
      obtain before | ⟨isNow, _⟩ := returned_before found gens returned
      · exact here.named live file _ (Disk.lookup_of_inode stored) instant ⟨before, early⟩
      · exact absurd isNow (Nat.ne_of_lt (Nat.lt_of_lt_of_le early here.lockedAt))
    · exact whole.staged live other handle isStaged instant returned early

/-- What is handed out by a step. -/
theorem handed_step (fresh : Fresh state) (found : state.calls[c]? = some call)
    (move : CallMove config env state.clock state.sandbox call after next) :
    ∀ one ∈ state.calls.set c next, ∀ handed, one.handed = some handed →
      handed.Fresh (state.stepped c next after) := by
  have member := List.mem_of_getElem? found
  have gens := move.gens (fresh.locked.spares call member)
  have whole := move
  -- nothing is staged yet when a source is handed out
  have unstaged : ∀ source lockedAt live overlay, lockedAt ≤ state.clock →
      (live = true → Newer state.sandbox.disk source fun instant =>
        state.Returned source instant ∧ instant < lockedAt) →
      Handed.Fresh (state.stepped c next after) ⟨source, lockedAt, live, overlay, none, none⟩ := by
    intro source lockedAt live overlay bound newer
    refine ⟨Nat.le_succ_of_le bound, fun isLive => fresh.newer_before found move bound (newer isLive),
      fun _ file handle isStaged => ?_⟩
    cases file <;> cases isStaged
  intro one isOne handed isHanded
  obtain old | rfl := List.mem_or_eq_of_mem_set isOne
  · exact fresh.other_handed found move (fresh.grounded.staged one old handed isHanded)
      (fresh.handed one old handed isHanded)
  cases move with
  | spawn move =>
    have isHanded : SpawnPhase.handed _ = some handed := isHanded
    cases move with
    | finds isLive notStale =>
      rw [handed_staging] at isHanded
      cases isHanded
      exact unstaged _ _ _ _ (fresh.since _ member _ rfl) fun _ =>
        (fresh.newer_of_not_stale isLive notStale).mono fun _ both => both.1
    | reuses =>
      rw [handed_staging] at isHanded
      cases isHanded
      exact unstaged _ _ _ _ (fresh.since _ member _ rfl) nofun
    | @captured before work after result step =>
      cases step with
      | returned =>
        rw [CaptureResult.forked, handed_staging] at isHanded
        cases isHanded
        have here := fresh.captures _ member before _ rfl
        exact unstaged _ _ _ _ here.lockedAt fun _ => here.written (.inr (.inr (.inr rfl)))
      | _ => cases isHanded
    | @linksMem old staged after staging | @linksState old staged after staging =>
      cases isHanded
      exact fresh.link_handed found whole (fresh.grounded.staged _ member old rfl)
        (fresh.handed _ member old rfl) staging
    | launches =>
      exact fresh.other_handed found whole (fresh.grounded.staged _ member handed isHanded)
        (fresh.handed _ member handed isHanded)
    | _ => cases isHanded
  | exec | checkpoint | kill => cases isHanded

/-- The guests after a step. -/
theorem guests_step (fresh : Fresh state) (found : state.calls[c]? = some call)
    (move : CallMove config env state.clock state.sandbox call after next) :
    ∀ vm machine restored, after.machines.get? vm = some machine → machine.restored = some restored →
      restored.handed.lockedAt ≤ state.clock + 1 ∧ (restored.handed.live = true →
        ∀ instant, (state.stepped c next after).Returned restored.handed.parentId instant →
          instant < restored.handed.lockedAt →
            instant < restored.memory.takenAt ∧ instant < restored.device.takenAt) := by
  have member := List.mem_of_getElem? found
  have gens := move.gens (fresh.locked.spares call member)
  have before : ∀ branchId lockedAt instant, lockedAt ≤ state.clock → instant < lockedAt →
      (state.stepped c next after).Returned branchId instant → state.Returned branchId instant := by
    intro branchId lockedAt instant bound early returned
    obtain before | ⟨isNow, _⟩ := returned_before found gens returned
    · exact before
    · exact absurd isNow (Nat.ne_of_lt (Nat.lt_of_lt_of_le early bound))
  have old : ∀ vm machine restored, state.sandbox.machines.get? vm = some machine →
      machine.restored = some restored → restored.handed.lockedAt ≤ state.clock + 1 ∧
        (restored.handed.live = true → ∀ instant,
          (state.stepped c next after).Returned restored.handed.parentId instant →
          instant < restored.handed.lockedAt →
            instant < restored.memory.takenAt ∧ instant < restored.device.takenAt) := by
    intro vm machine restored isMachine isRestored
    obtain ⟨bound, newer⟩ := fresh.guests vm machine restored isMachine isRestored
    exact ⟨Nat.le_succ_of_le bound, fun live instant returned early =>
      newer live instant (before _ _ _ bound early returned) early⟩
  intro vm machine restored isMachine isRestored
  obtain keeps | ⟨child, handed, mem, device, isHanded, isMem, isDevice, isAfter⟩ := move.guests
  · obtain isNone | ⟨was, isOld, same, _⟩ := keeps vm machine isMachine
    · rw [isNone] at isRestored
      cases isRestored
    · exact old vm was restored isOld (same ▸ isRestored)
  · rw [isAfter, Sandbox.get?_alter] at isMachine
    split at isMachine
    · obtain ⟨was, _, rfl⟩ := Option.map_eq_some_iff.1 isMachine
      cases isRestored
      have here := fresh.handed call member handed isHanded
      refine ⟨Nat.le_succ_of_le here.lockedAt, fun live instant returned early => ?_⟩
      have returned := before _ _ _ here.lockedAt early returned
      have isMem : (handed.staged .mem).or (state.sandbox.disk.lookup (handed.parentId, .mem)) = some mem := isMem
      have isDevice : (handed.staged .state).or (state.sandbox.disk.lookup (handed.parentId, .state)) =
        some device := isDevice
      exact ⟨here.resolved live isMem returned early, here.resolved live isDevice returned early⟩
    · exact old vm machine restored isMachine isRestored

/-- No two spawns with one id are admitted. -/
theorem admitted_step (fresh : Fresh state) (found : state.calls[c]? = some call)
    (renews : state.Renews (.step c env))
    (move : CallMove config env state.clock state.sandbox call after next) :
    ∀ (i j : Nat) (first second : Call), (state.calls.set c next)[i]? = some first →
      (state.calls.set c next)[j]? = some second → ∀ branchId, first.admitted = some branchId →
        second.admitted = some branchId → i = j := by
  have inside := (List.getElem?_eq_some_iff.1 found).1
  -- the call that steps, against another one
  have against : ∀ (j : Nat) (second : Call) branchId, c ≠ j → state.calls[j]? = some second →
      next.admitted = some branchId → second.admitted ≠ some branchId := by
    intro j second branchId differs isSecond isAdmitted secondAdmitted
    obtain same | ⟨_, spawned, parentId, rfl, free, isNew⟩ := move.admits.1
    · rw [same] at isAdmitted
      exact differs (fresh.admitted c j call second found isSecond branchId isAdmitted secondAdmitted)
    · rw [isNew] at isAdmitted
      cases isAdmitted
      simp only [State.Renews, found] at renews
      obtain tracked | pending | first := renews
      · exact free (.inl tracked)
      · exact free (.inr pending)
      · exact first second (List.mem_of_getElem? isSecond) secondAdmitted
  intro i j first second isFirst isSecond branchId firstAdmitted secondAdmitted
  by_cases firstHere : c = i <;> by_cases secondHere : c = j
  · exact firstHere.symm.trans secondHere
  · subst firstHere
    rw [List.getElem?_set_self inside] at isFirst
    rw [List.getElem?_set_ne secondHere] at isSecond
    cases isFirst
    exact absurd secondAdmitted (against j second branchId secondHere isSecond firstAdmitted)
  · subst secondHere
    rw [List.getElem?_set_self inside] at isSecond
    rw [List.getElem?_set_ne firstHere] at isFirst
    cases isSecond
    exact absurd firstAdmitted (against i first branchId firstHere isFirst secondAdmitted)
  · rw [List.getElem?_set_ne firstHere] at isFirst
    rw [List.getElem?_set_ne secondHere] at isSecond
    exact fresh.admitted i j first second isFirst isSecond branchId firstAdmitted secondAdmitted

/-- What there is of a branch comes from a spawn that has tracked its VMM. -/
theorem established_step (fresh : Fresh state) (found : state.calls[c]? = some call)
    (move : CallMove config env state.clock state.sandbox call after next) (branchId : BranchId)
    (present : branchId ∈ after.vms ∨ branchId ∈ after.snapshots ∨ ∃ one ∈ state.calls.set c next,
      ∃ capture work, one.capturing = some (capture, work) ∧ capture.branchId = branchId) :
    ∃ one ∈ state.calls.set c next, one.established = some branchId := by
  have member := List.mem_of_getElem? found
  have inside := (List.getElem?_eq_some_iff.1 found).1
  have gens := move.gens (fresh.locked.spares call member)
  have handles := move.handles
  -- what was established still is
  have kept : ∀ {other}, (∃ one ∈ state.calls, one.established = some other) →
      ∃ one ∈ state.calls.set c next, one.established = some other := by
    intro other established
    obtain ⟨one, isOne, isEstablished⟩ := established
    obtain ⟨i, isOne⟩ := List.mem_iff_getElem?.1 isOne
    by_cases here : c = i
    · subst here
      rw [found] at isOne
      cases isOne
      exact ⟨next, List.mem_set inside _, move.admits.2 other isEstablished⟩
    · have still : (state.calls.set c next)[i]? = some one := (List.getElem?_set_ne here).trans isOne
      exact ⟨one, List.mem_of_getElem? still, isEstablished⟩
  obtain live | known | ⟨one, isOne, capture, work, captures, sameBranch⟩ := present
  · obtain wasLive | isEstablished := move.tracks live
    · exact kept (fresh.established branchId (.inl wasLive))
    · exact ⟨next, List.mem_set inside _, isEstablished⟩
  · cases gens with
    | keeps _ _ same => exact kept (fresh.established branchId (.inr (.inl (same ▸ known))))
    | @records capture captures isAfter =>
      rw [isAfter] at known
      obtain here | wasKnown := Finset.mem_insert.1 known
      · exact kept (fresh.established branchId (.inr (.inr ⟨call, member, capture, .record, captures, here.symm⟩)))
      · exact kept (fresh.established branchId (.inr (.inl wasKnown)))
    | bumps _ isAfter =>
      rw [isAfter, Sandbox.release, Sandbox.snapshots_bump] at known
      exact kept (fresh.established branchId (.inr (.inl known)))
  · obtain old | rfl := List.mem_or_eq_of_mem_set isOne
    · exact kept (fresh.established branchId (.inr (.inr ⟨one, old, capture, work, captures, sameBranch⟩)))
    · obtain tracked | ⟨was, wasWork, wasCapturing, _, wasBranch⟩ := handles.capturing capture work captures
      · rw [sameBranch] at tracked
        exact kept (fresh.established branchId (.inl (Dict.mem_of_get? tracked)))
      · exact kept (fresh.established branchId (.inr (.inr
          ⟨call, member, was, wasWork, wasCapturing, wasBranch.trans sameBranch⟩)))

/-- The recorded generations after a step. -/
theorem gens_step (fresh : Fresh state) (found : state.calls[c]? = some call)
    (move : CallMove config env state.clock state.sandbox call after next) {gen : Nat}
    (recorded : after.snapGen.get? branchId = some gen) : gen ≤ after.genOf branchId := by
  have member := List.mem_of_getElem? found
  have gens := move.gens (fresh.locked.spares call member)
  refine Nat.le_trans ?_ (gens.genOf_le branchId)
  cases gens with
  | keeps _ same => exact fresh.gens branchId gen (same ▸ recorded)
  | @records capture captures isAfter =>
    have stored : (state.sandbox.snapGen.insert capture.branchId capture.gen).get? branchId = some gen := by
      rw [isAfter] at recorded
      exact recorded
    rw [Dict.get?_insert] at stored
    split at stored
    · next here =>
      cases stored
      rw [here]
      exact (fresh.captures call member capture .record captures).gen
    · exact fresh.gens branchId gen stored
  | bumps _ isAfter =>
    rw [isAfter, Sandbox.release, Sandbox.snapGen_bump] at recorded
    exact fresh.gens branchId gen recorded

/-- The instants at which the calls have taken their locks lie behind. -/
theorem since_step (fresh : Fresh state) (found : state.calls[c]? = some call) (move : CallMove config env state.clock state.sandbox call after next) :
    ∀ one ∈ state.calls.set c next, ∀ instant, one.lockedSince = some instant → instant ≤ state.clock + 1 := by
  intro one isOne instant since
  obtain old | rfl := List.mem_or_eq_of_mem_set isOne
  · exact Nat.le_succ_of_le (fresh.since one old instant since)
  · have before := fresh.since call (List.mem_of_getElem? found)
    cases move with
    | spawn move =>
      cases move with
      | acquires =>
        cases since
        exact Nat.le_succ _
      | findsNone =>
        cases since
        exact Nat.le_succ_of_le (before _ rfl)
      | finds | reuses =>
        rw [staging_unlocked] at since
        cases since
      | @captured capture work after result step =>
        cases result with
        | returned =>
          rw [CaptureResult.forked, staging_unlocked] at since
          cases since
        | goes | raised => cases since
      | _ => cases since
    | checkpoint move =>
      cases move with
      | acquires =>
        cases since
        exact Nat.le_succ _
      | @captured capture work after result step => cases result <;> cases since
      | _ => cases since
    | exec | kill => cases since

theorem step_call (fresh : Fresh state) (found : state.calls[c]? = some call) (renews : state.Renews (.step c env))
    (move : CallMove config env state.clock state.sandbox call after next)
    (locked : Locked (state.stepped c next after)) (grounded : Grounded (state.stepped c next after)) :
    Fresh (state.stepped c next after) where
  locked := locked
  grounded := grounded
  admitted := fresh.admitted_step found renews move
  established := fresh.established_step found move
  times branchId instant returned := by
    have gens := move.gens (fresh.locked.spares call (List.mem_of_getElem? found))
    obtain before | ⟨isNow, _⟩ := returned_before found gens returned
    · exact Nat.lt_succ_of_lt (fresh.times branchId instant before)
    · exact isNow ▸ Nat.lt_succ_self _
  since := fresh.since_step found move
  gens _ _ recorded := fresh.gens_step found move recorded
  current _ live known same := fresh.current_step found move live known same
  captures := fresh.captures_step found move
  handed := fresh.handed_step found move
  guests := fresh.guests_step found move

end Call

end Fresh

/-! ## Runs -/

/-- A call that has just been made. -/
structure Call.New (call : Call) : Prop where
  returned : call.returned = none
  admitted : call.admitted = none
  capturing : call.capturing = none
  handed : call.handed = none
  lockedSince : call.lockedSince = none

theorem Op.call_new (op : Op) : op.call.New := by
  cases op <;> exact ⟨rfl, rfl, rfl, rfl, rfl⟩

/-- Time has passed, calls may have been made and VMMs may have ended. -/
structure Passes (state after : State) : Prop where
  clock : state.clock ≤ after.clock
  disk : after.sandbox.disk = state.sandbox.disk
  vms : after.sandbox.vms = state.sandbox.vms
  snapshots : after.sandbox.snapshots = state.sandbox.snapshots
  gen : after.sandbox.gen = state.sandbox.gen
  snapGen : after.sandbox.snapGen = state.sandbox.snapGen
  kept : ∀ call ∈ state.calls, call ∈ after.calls
  calls : ∀ (i : Nat) (call : Call), after.calls[i]? = some call → state.calls[i]? = some call ∨ call.New
  guests : ∀ vm machine restored, after.sandbox.machines.get? vm = some machine →
    machine.restored = some restored → ∃ old, state.sandbox.machines.get? vm = some old ∧
      old.restored = some restored

namespace Passes

variable {state after : State} (passes : Passes state after)

include passes

theorem member {call : Call} (member : call ∈ after.calls) : call ∈ state.calls ∨ call.New := by
  obtain ⟨i, found⟩ := List.mem_iff_getElem?.1 member
  obtain old | new := passes.calls i call found
  · exact .inl (List.mem_of_getElem? old)
  · exact .inr new

theorem returned {branchId : BranchId} {instant : Instant} (returned : after.Returned branchId instant) :
    state.Returned branchId instant := by
  obtain ⟨call, member, isReturned⟩ := returned
  obtain old | new := passes.member member
  · exact ⟨call, old, isReturned⟩
  · rw [new.returned] at isReturned
    cases isReturned

theorem genOf (branchId : BranchId) : after.sandbox.genOf branchId = state.sandbox.genOf branchId := by
  rw [Sandbox.genOf, Sandbox.genOf, passes.gen]

theorem fresh (fresh : Fresh state) (locked : Locked after) (grounded : Grounded after) : Fresh after where
  locked := locked
  grounded := grounded
  admitted i j first second isFirst isSecond branchId firstAdmitted secondAdmitted := by
    obtain firstOld | new := passes.calls i first isFirst
    · obtain secondOld | new := passes.calls j second isSecond
      · exact fresh.admitted i j first second firstOld secondOld branchId firstAdmitted secondAdmitted
      · rw [new.admitted] at secondAdmitted
        cases secondAdmitted
    · rw [new.admitted] at firstAdmitted
      cases firstAdmitted
  established branchId present := by
    have before : branchId ∈ state.sandbox.vms ∨ branchId ∈ state.sandbox.snapshots ∨
        ∃ call ∈ state.calls, ∃ capture work, call.capturing = some (capture, work) ∧
          capture.branchId = branchId := by
      rw [passes.vms, passes.snapshots] at present
      refine present.imp_right (Or.imp_right fun captured => ?_)
      obtain ⟨call, member, capture, work, captures, same⟩ := captured
      obtain old | new := passes.member member
      · exact ⟨call, old, capture, work, captures, same⟩
      · rw [new.capturing] at captures
        cases captures
    obtain ⟨call, member, isEstablished⟩ := fresh.established branchId before
    exact ⟨call, passes.kept call member, isEstablished⟩
  times branchId instant returned :=
    Nat.lt_of_lt_of_le (fresh.times branchId instant (passes.returned returned)) passes.clock
  since call member instant since := by
    obtain old | new := passes.member member
    · exact Nat.le_trans (fresh.since call old instant since) passes.clock
    · rw [new.lockedSince] at since
      cases since
  gens branchId gen recorded := by
    rw [passes.snapGen] at recorded
    rw [passes.genOf]
    exact fresh.gens branchId gen recorded
  current branchId live known same := by
    rw [passes.vms] at live
    rw [passes.snapshots] at known
    rw [passes.snapGen, passes.genOf] at same
    rw [passes.disk]
    exact (fresh.current branchId live known same).mono fun _ returned => passes.returned returned
  captures call member capture work captures := by
    obtain old | new := passes.member member
    · have here := fresh.captures call old capture work captures
      refine ⟨Nat.le_trans here.lockedAt passes.clock, by rw [passes.genOf]; exact here.gen, fun past => ?_,
        fun isRecord live sameGen => ?_⟩
      · rw [passes.disk]
        exact (here.written past).mono fun _ both => ⟨passes.returned both.1, both.2⟩
      · rw [passes.vms] at live
        rw [passes.genOf] at sameGen
        rw [passes.disk]
        exact (here.recorded isRecord live sameGen).mono fun _ returned => passes.returned returned
    · rw [new.capturing] at captures
      cases captures
  handed call member handed isHanded := by
    obtain old | new := passes.member member
    · have here := fresh.handed call old handed isHanded
      refine ⟨Nat.le_trans here.lockedAt passes.clock, fun live => ?_, ?_⟩
      · rw [passes.disk]
        exact (here.named live).mono fun _ both => ⟨passes.returned both.1, both.2⟩
      · rw [passes.disk]
        exact fun live file handle isStaged instant returned =>
          here.staged live file handle isStaged instant (passes.returned returned)
    · rw [new.handed] at isHanded
      cases isHanded
  guests vm machine restored isMachine isRestored := by
    obtain ⟨old, isOld, same⟩ := passes.guests vm machine restored isMachine isRestored
    obtain ⟨bound, newer⟩ := fresh.guests vm old restored isOld same
    exact ⟨Nat.le_trans bound passes.clock, fun live instant returned =>
      newer live instant (passes.returned returned)⟩

end Passes

theorem Fresh.step {config : Config} {state after : State} {action : Action} (fresh : Fresh state)
    (spares : Spares state action) (renews : state.Renews action) (taken : state.Step config action after) :
    Fresh after := by
  have locked := fresh.locked.step spares taken
  have grounded := fresh.grounded.step taken
  cases action with
  | invoke op =>
    cases taken
    have passes : Passes state ⟨state.sandbox, state.calls ++ [op.call], state.clock + 1⟩ :=
      ⟨Nat.le_succ _, rfl, rfl, rfl, rfl, rfl, fun call member => List.mem_append_left _ member,
        fun i call found => by
          obtain inside | outside := Nat.lt_or_ge i state.calls.length
          · exact .inl ((List.getElem?_append_left inside).symm.trans found)
          · have found := (List.getElem?_append_right outside).symm.trans found
            rw [List.mem_singleton.1 (List.mem_of_getElem? found)]
            exact .inr op.call_new,
        fun vm machine restored found isRestored => ⟨machine, found, isRestored⟩⟩
    exact passes.fresh fresh locked grounded
  | step c env =>
    obtain ⟨call, found, applied⟩ := Option.bind_eq_some_iff.1 taken
    obtain ⟨⟨sandbox, next⟩, stepped, rfl⟩ := Option.map_eq_some_iff.1 applied
    exact fresh.step_call found renews (Call.step_moves stepped) locked grounded
  | guest vm =>
    obtain ⟨_, equal⟩ := Option.ite_none_right_eq_some.1 taken
    cases equal
    have passes : Passes state { state with clock := state.clock + 1 } :=
      ⟨Nat.le_succ _, rfl, rfl, rfl, rfl, rfl, fun _ member => member, fun _ _ found => .inl found,
        fun vm machine restored found isRestored => ⟨machine, found, isRestored⟩⟩
    exact passes.fresh fresh locked grounded
  | exit vm =>
    cases taken
    have passes : Passes state ⟨state.sandbox.exit vm state.clock, state.calls, state.clock + 1⟩ :=
      ⟨Nat.le_succ _, Sandbox.disk_alter .., Sandbox.vms_alter .., Sandbox.snapshots_alter ..,
        Sandbox.gen_alter .., Sandbox.snapGen_alter .., fun _ member => member, fun _ _ found => .inl found,
        fun other machine restored found isRestored => by
          obtain isNone | ⟨old, isOld, same, _⟩ := keeps_exit vm other machine found
          · rw [isNone] at isRestored
            cases isRestored
          · exact ⟨old, isOld, same ▸ isRestored⟩⟩
    exact passes.fresh fresh locked grounded

theorem fresh_fresh (disk : Disk Path Image) : Fresh (State.fresh disk) where
  locked := locked_fresh disk
  grounded := grounded_fresh disk
  admitted i j first second isFirst := by cases isFirst
  established branchId present := by
    obtain live | known | ⟨call, member, _⟩ := present
    · exact absurd live (Dict.not_mem_empty branchId)
    · cases known
    · cases member
  times branchId instant returned := by
    obtain ⟨call, member, _⟩ := returned
    cases member
  since call member := by cases member
  gens branchId gen recorded := by cases recorded
  current branchId live := absurd live (Dict.not_mem_empty branchId)
  captures call member := by cases member
  handed call member := by cases member
  guests vm machine restored found := by cases found

theorem Call.holding_of_executing {call : Call} {branchId : BranchId} (executes : call.executing = some branchId) :
    ∃ lock, call.holding = some (branchId, lock) := by
  unfold executing at executes
  split at executes <;> cases executes <;> exact ⟨_, rfl⟩

/-- In every run without a kill that reuses no branch id, a child of a live parent
is restored from a snapshot taken after every exec that had returned when its spawn
took the parent's lock, and no snapshot is taken during an exec. -/
theorem no_lost_exec {config : Config} {disk : Disk Path Image} {state : State}
    (reached : Reachable (State.Step config) (fun state action => Spares state action ∧ state.Renews action)
      (State.fresh disk) state) : state.NoLostExec := by
  have fresh : Fresh state := reached.invariant (fresh_fresh disk)
    fun _ _ _ fresh allowed taken => fresh.step allowed.1 allowed.2 taken
  refine ⟨fun vm machine restored isMachine isRestored =>
    (fresh.guests vm machine restored isMachine isRestored).2, ?_⟩
  intro snap isSnap exec isExec capture branchId captures executes same
  obtain ⟨i, isSnap⟩ := List.mem_iff_getElem?.1 isSnap
  obtain ⟨j, isExec⟩ := List.mem_iff_getElem?.1 isExec
  obtain ⟨lock, execHolds⟩ := Call.holding_of_executing executes
  have snapHolds := Call.holding_of_capturing captures
  rw [same] at snapHolds
  have sameCall : i = j := fresh.locked.same_call isSnap isExec snapHolds execHolds
  subst sameCall
  rw [isSnap] at isExec
  cases isExec
  rw [Call.executing_of_capturing captures] at executes
  cases executes

/-- A command that runs in the root while a fork from it is under way: the fork
waits for it. -/
def waitingRun : List Action :=
  alone 0 (.spawn "root" none) 7 ++ alone 1 (.exec "root") 3 ++
    alone 2 (.spawn "a" (some "root")) 3 ++ List.replicate 2 (.step 1 works) ++
    List.replicate 11 (.step 2 works)

theorem waitingRun_no_lost_exec : (sandboxRun plain waitingRun).NoLostExec :=
  no_lost_exec (sandboxRun_reachable (by decide) (by decide))

end Agentfork.Firecracker.Snapshots

import Agentfork.Firecracker.CallsEnd
import Agentfork.Firecracker.SnapshotFreshness

/-! # Is the memory of a running child left alone?

A fork takes a snapshot only if it finds the last one stale, and then the file that
earlier children were restored from is overwritten. What makes a recorded snapshot
obsolete is a call: an exec on the branch that returns, a checkpoint of it, a spawn
that puts a new VMM under its id, a kill that takes its lock out of the table.

A run is watched for the last such call on each branch. If a branch has met none
since a child was forked from it, its snapshot is still current, and no fork that
runs under the branch's lock overwrites it. -/

namespace Agentfork.Firecracker.Snapshots

open Transition

/-! ## Watched runs -/

/-- The parent of a fork whose lock is no longer the one in the table. -/
def unlisted (parentLocks : Dict BranchId Nat) (parentId : BranchId) (lock : Nat) : Option BranchId :=
  if parentLocks.get? parentId = some lock then none else some parentId

/-- The branch that the next step of the call disturbs: an exec on it returns, a
checkpoint of it goes on, a VMM is tracked under its id, a kill takes its lock out of
the table, or a fork from it goes on under a lock that is not in the table any more. -/
def Call.disturbs (parentLocks : Dict BranchId Nat) : Call → Option BranchId
  | .exec ⟨branchId, _, .bump _ _⟩ => some branchId
  | .checkpoint ⟨_, .capture capture _⟩ => some capture.branchId
  | .spawn ⟨branchId, _, .install _⟩ => some branchId
  | .spawn ⟨_, _, .inspect parentId lock _⟩ | .spawn ⟨_, _, .reuse parentId lock _⟩ =>
    unlisted parentLocks parentId lock
  | .spawn ⟨_, _, .capture capture _⟩ => unlisted parentLocks capture.branchId capture.lock
  | .kill ⟨branchId, .dropLock⟩ => some branchId
  | _ => none

/-- A run of the sandbox, and when each branch was disturbed last. -/
structure Watched where
  state : State
  disturbedAt : Dict BranchId Instant

/-- Nothing has disturbed the branch since the instant. -/
def Calm (disturbedAt : Dict BranchId Instant) (branchId : BranchId) (since : Instant) : Prop :=
  ∀ instant ∈ disturbedAt.get? branchId, instant < since

instance (disturbedAt : Dict BranchId Instant) (branchId : BranchId) (since : Instant) :
    Decidable (Calm disturbedAt branchId since) := by
  unfold Calm
  infer_instance

namespace Watched

def note (watched : Watched) (call : Call) : Dict BranchId Instant :=
  match call.disturbs watched.state.sandbox.parentLocks with
  | some branchId => watched.disturbedAt.insert branchId watched.state.clock
  | none => watched.disturbedAt

def noted (watched : Watched) : Action → Dict BranchId Instant
  | .step c _ => match watched.state.calls[c]? with
    | some call => watched.note call
    | none => watched.disturbedAt
  | _ => watched.disturbedAt

theorem noted_step (watched : Watched) {c : Nat} {env : Env} {call : Call} (found : watched.state.calls[c]? = some call) :
    watched.noted (.step c env) = watched.note call := by rw [noted, found]

def step (config : Config) (watched : Watched) (action : Action) : Option Watched :=
  (watched.state.step config action).map fun state => ⟨state, watched.noted action⟩

def Step (config : Config) (before : Watched) (action : Action) (after : Watched) : Prop :=
  before.step config action = some after

def fresh (disk : Disk Path Image) : Watched := ⟨State.fresh disk, .empty⟩

/-- A fork or a checkpoint writes a branch's memory file only if nothing has disturbed
the branch since the fork of any running child that reads that file. -/
def Undisturbed (watched : Watched) : Action → Prop
  | .step c env => match (watched.state.calls[c]?).bind Call.capturing with
    | some (capture, .snapshot) => .mem ∈ env.written capture.vm watched.state.sandbox →
        ∀ entry ∈ watched.state.sandbox.machines.entries, entry.2.running = true →
          ∀ restored ∈ entry.2.restored, restored.reads watched.state.sandbox.disk capture.branchId →
            Calm (watched.noted (.step c env)) capture.branchId restored.handed.lockedAt
    | _ => True
  | _ => True

instance (watched : Watched) (action : Action) : Decidable (watched.Undisturbed action) := by
  unfold Undisturbed
  split
  · split <;> infer_instance
  · infer_instance

end Watched

section Frames

variable {config : Config} {env : Env} {now : Instant} {sandbox after : Sandbox} {call next : Call}
  {branchId : BranchId} {since : Instant}

theorem calm_before {watched : Watched} (calm : Calm (watched.note call) branchId since)
    (bound : since ≤ watched.state.clock) :
    call.disturbs watched.state.sandbox.parentLocks ≠ some branchId ∧ Calm watched.disturbedAt branchId since := by
  unfold Watched.note at calm
  split at calm
  · next disturbed isDisturbed =>
    have differs : branchId ≠ disturbed := by
      rintro rfl
      have early : watched.state.clock < since := calm _ (by simp)
      exact absurd bound (Nat.not_le_of_lt early)
    refine ⟨fun same => differs ?_, fun instant stored => calm instant ?_⟩
    · exact Option.some.inj (same.symm.trans isDisturbed)
    · rw [Dict.get?_insert, if_neg differs]
      exact stored
  · next undisturbed => exact ⟨by rw [undisturbed]; exact nofun, calm⟩

/-! ## What a step leaves of a branch it does not disturb -/

/-- A fork that does not disturb its parent holds the lock that is in the table. -/
theorem own_lock (task : SpawnTask) {parentId : BranchId} {lock : Nat} {parentLocks : Dict BranchId Nat}
    (holds : task.phase.holding = some (parentId, lock))
    (undisturbed : (Call.spawn task).disturbs parentLocks ≠ some parentId) :
    parentLocks.get? parentId = some lock := by
  refine Classical.byContradiction fun dropped => undisturbed ?_
  have isUnlisted : unlisted parentLocks parentId lock = some parentId := if_neg dropped
  obtain ⟨child, source, phase⟩ := task
  cases phase with
  | inspect | reuse | capture =>
    cases holds
    exact isUnlisted
  | _ => cases holds

/-- The sandbox knows the branch as before: it has not come to life, and its generation
is the same. -/
structure Same (sandbox after : Sandbox) (branchId : BranchId) : Prop where
  live : branchId ∈ after.vms → branchId ∈ sandbox.vms
  gen : branchId ∈ after.vms → after.genOf branchId = sandbox.genOf branchId
  stale : branchId ∈ after.vms → after.stale branchId = sandbox.stale branchId

theorem stale_congr (sameGen : after.genOf branchId = sandbox.genOf branchId)
    (sameSnapGen : after.snapGen.get? branchId = sandbox.snapGen.get? branchId)
    (sameSnapshots : branchId ∈ after.snapshots ↔ branchId ∈ sandbox.snapshots) :
    after.stale branchId = sandbox.stale branchId := by
  simp only [Sandbox.stale, sameGen, sameSnapGen, sameSnapshots]

theorem Same.of_eq (sameVms : after.vms = sandbox.vms) (sameGen : after.gen = sandbox.gen)
    (sameSnapGen : after.snapGen = sandbox.snapGen) (sameSnapshots : after.snapshots = sandbox.snapshots) :
    Same sandbox after branchId := by
  have same : after.genOf branchId = sandbox.genOf branchId := by
    rw [Sandbox.genOf, Sandbox.genOf, sameGen]
  exact ⟨fun live => sameVms ▸ live, fun _ => same,
    fun _ => stale_congr same (congrArg (Dict.get? · branchId) sameSnapGen) (by rw [sameSnapshots])⟩

theorem same_record {recorded : BranchId} {gen : Nat} (differs : branchId ≠ recorded) :
    Same sandbox (sandbox.record recorded gen) branchId := by
  refine ⟨fun live => live, fun _ => rfl, fun _ => stale_congr rfl ?_ ?_⟩
  · simp [Sandbox.record, differs]
  · simp [Sandbox.record, differs]

theorem stale_record {gen : Nat} (current : gen = sandbox.genOf branchId) :
    (sandbox.record branchId gen).stale branchId = false := by
  subst current
  simp [Sandbox.stale, Sandbox.record, Sandbox.genOf]

theorem same_bump {lock : Nat} {bumped : BranchId} (differs : branchId ≠ bumped) :
    Same sandbox ((sandbox.bump bumped).release lock) branchId := by
  have sameGen : ((sandbox.bump bumped).release lock).genOf branchId = sandbox.genOf branchId := by
    show (sandbox.bump bumped).genOf branchId = _
    rw [genOf_bump, if_neg fun here => differs here.1]
  refine ⟨fun live => ?_, fun _ => sameGen, fun _ => ?_⟩
  · unfold Sandbox.bump at live
    split at live <;> exact live
  · refine stale_congr sameGen ?_ ?_
    · simp [Sandbox.release, Sandbox.snapGen_bump]
    · simp [Sandbox.release, Sandbox.snapshots_bump]

theorem same_track {tracked : BranchId} {vm : Vmm} (differs : branchId ≠ tracked) :
    Same sandbox (sandbox.track tracked vm) branchId :=
  ⟨fun live => (Dict.mem_insert.1 live).resolve_left differs, fun _ => rfl, fun _ => rfl⟩

theorem same_untrack (untracked : BranchId) : Same sandbox (sandbox.untrack untracked) branchId :=
  ⟨fun live => (Dict.mem_erase.1 live).2, fun _ => rfl, fun _ => rfl⟩

/-- A branch that is killed is not live any more. -/
theorem same_forget (killed : BranchId) : Same sandbox (sandbox.forget killed) branchId := by
  have differs : branchId ∈ (sandbox.forget killed).vms → branchId ≠ killed :=
    fun live => (Dict.mem_erase.1 live).1
  have sameGen : branchId ∈ (sandbox.forget killed).vms →
      (sandbox.forget killed).genOf branchId = sandbox.genOf branchId := by
    intro live
    show ((sandbox.gen.erase killed).get? branchId).getD 0 = _
    rw [Dict.get?_erase, if_neg (differs live)]
    rfl
  refine ⟨fun live => (Dict.mem_erase.1 live).2, sameGen, fun live => stale_congr (sameGen live) ?_ ?_⟩
  · simp [Sandbox.forget, differs live]
  · simp [Sandbox.forget, differs live]

theorem same_alter {vm : Vmm} {update : Machine → Machine} : Same sandbox (sandbox.alter vm update) branchId :=
  .of_eq (Sandbox.vms_alter ..) (Sandbox.gen_alter ..) (Sandbox.snapGen_alter ..) (Sandbox.snapshots_alter ..)

theorem same_parentLock (parentId : BranchId) : Same sandbox (sandbox.parentLock parentId).2 branchId := by
  unfold Sandbox.parentLock
  split <;> exact .of_eq rfl rfl rfl rfl

theorem same_acquire {lock : Nat} (acquired : sandbox.acquire lock = some after) : Same sandbox after branchId := by
  obtain ⟨_, rfl⟩ := Sandbox.acquire_some acquired
  exact .of_eq rfl rfl rfl rfl

theorem CaptureMove.same {capture : Capture} {work : CapturePhase} {result : CaptureResult}
    (move : CaptureMove env now sandbox capture work after result) : Same sandbox after branchId ∨
      capture.branchId = branchId ∧ work = .record ∧ after = sandbox.record branchId capture.gen := by
  obtain ⟨sameGen, sameSnapGen, sameSnapshots⟩ | ⟨rfl, rfl⟩ := move.gens
  · exact .inl (.of_eq move.handles.2.1 sameGen sameSnapGen sameSnapshots)
  · by_cases here : capture.branchId = branchId
    · exact .inr ⟨here, rfl, here ▸ rfl⟩
    · exact .inl (same_record fun same => here same.symm)

/-- Of a branch that a step does not disturb it changes nothing, unless it records a
snapshot that a fork from the branch has taken. -/
theorem CallMove.same (move : CallMove config env now sandbox call after next)
    (undisturbed : call.disturbs sandbox.parentLocks ≠ some branchId) : Same sandbox after branchId ∨
      ∃ child parentId capture, call = .spawn ⟨child, parentId, .capture capture .record⟩ ∧
        capture.branchId = branchId ∧ after = sandbox.record branchId capture.gen := by
  cases move with
  | spawn move =>
    cases move with
    | locks => exact .inl (same_parentLock _)
    | acquires acquired => exact .inl (same_acquire acquired)
    | captured move =>
      obtain same | ⟨here, rfl, isAfter⟩ := move.same
      · exact .inl same
      · exact .inr ⟨_, _, _, rfl, here, isAfter⟩
    | linksMem staging | linksState staging =>
      rw [Sandbox.linkInto_machines staging]
      exact .inl (.of_eq rfl rfl rfl rfl)
    | restored _ restored =>
      obtain ⟨_, _, _, _, rfl⟩ := Sandbox.restore_some restored
      exact .inl same_alter
    | reaps => exact .inl same_alter
    | installs => exact .inl (same_track fun here => undisturbed (here ▸ rfl))
    | untracks => exact .inl (same_untrack _)
    | _ => exact .inl (.of_eq rfl rfl rfl rfl)
  | exec move =>
    cases move with
    | locks => exact .inl (same_parentLock _)
    | acquires acquired => exact .inl (same_acquire acquired)
    | bumps => exact .inl (same_bump fun here => undisturbed (here ▸ rfl))
    | _ => exact .inl (.of_eq rfl rfl rfl rfl)
  | checkpoint move =>
    cases move with
    | locks => exact .inl (same_parentLock _)
    | acquires acquired => exact .inl (same_acquire acquired)
    | captured move =>
      obtain same | ⟨here, _, _⟩ := move.same
      · exact .inl same
      · exact absurd (here ▸ rfl) undisturbed
    | _ => exact .inl (.of_eq rfl rfl rfl rfl)
  | kill move =>
    cases move with
    | takes | misses => exact .inl (same_forget _)
    | reaps => exact .inl same_alter
    | _ => exact .inl (.of_eq rfl rfl rfl rfl)

/-! ## The numbers of the lock objects -/

/-- A lock that comes into the table is a new one. -/
structure Numbered (sandbox after : Sandbox) : Prop where
  grows : sandbox.locks ≤ after.locks
  listed : ∀ branchId lock, after.parentLocks.get? branchId = some lock →
    sandbox.parentLocks.get? branchId = some lock ∨ lock = sandbox.locks ∧ sandbox.locks < after.locks

theorem Numbered.of_eq (sameLocks : after.locks = sandbox.locks) (same : after.parentLocks = sandbox.parentLocks) :
    Numbered sandbox after :=
  ⟨Nat.le_of_eq sameLocks.symm, fun _ _ stored => .inl (same ▸ stored)⟩

theorem numbered_parentLock (parentId : BranchId) : Numbered sandbox (sandbox.parentLock parentId).2 := by
  unfold Sandbox.parentLock
  split
  · exact .of_eq rfl rfl
  · refine ⟨Nat.le_succ _, fun other lock stored => ?_⟩
    rw [Dict.get?_insert] at stored
    split at stored
    · cases stored
      exact .inr ⟨rfl, Nat.lt_succ_self _⟩
    · exact .inl stored

theorem numbered_alter {vm : Vmm} {update : Machine → Machine} : Numbered sandbox (sandbox.alter vm update) := by
  refine .of_eq ?_ (Sandbox.parentLocks_alter ..)
  unfold Sandbox.alter
  split <;> rfl

theorem numbered_acquire {lock : Nat} (acquired : sandbox.acquire lock = some after) : Numbered sandbox after := by
  obtain ⟨_, rfl⟩ := Sandbox.acquire_some acquired
  exact .of_eq rfl rfl

theorem CaptureMove.numbered {capture : Capture} {work : CapturePhase} {result : CaptureResult}
    (move : CaptureMove env now sandbox capture work after result) : Numbered sandbox after := by
  cases move with
  | paused => exact numbered_alter
  | returned => exact ⟨numbered_alter.grows, numbered_alter.listed⟩
  | raised isMiddle =>
    obtain rfl | rfl | rfl := isMiddle
    · exact .of_eq rfl rfl
    · exact ⟨numbered_alter.grows, numbered_alter.listed⟩
    · exact ⟨numbered_alter.grows, numbered_alter.listed⟩
  | _ => exact .of_eq rfl rfl

theorem CallMove.numbered (move : CallMove config env now sandbox call after next) : Numbered sandbox after := by
  cases move with
  | spawn move =>
    cases move with
    | locks => exact numbered_parentLock _
    | acquires acquired => exact numbered_acquire acquired
    | captured move => exact move.numbered
    | linksMem staging | linksState staging =>
      rw [Sandbox.linkInto_machines staging]
      exact .of_eq rfl rfl
    | restored _ restored =>
      obtain ⟨_, _, _, _, rfl⟩ := Sandbox.restore_some restored
      exact numbered_alter
    | reaps => exact numbered_alter
    | _ => exact .of_eq rfl rfl
  | exec move =>
    cases move with
    | locks => exact numbered_parentLock _
    | acquires acquired => exact numbered_acquire acquired
    | bumps => refine .of_eq ?_ ?_ <;> unfold Sandbox.bump <;> split <;> rfl
    | _ => exact .of_eq rfl rfl
  | checkpoint move =>
    cases move with
    | locks => exact numbered_parentLock _
    | acquires acquired => exact numbered_acquire acquired
    | captured move => exact move.numbered
    | _ => exact .of_eq rfl rfl
  | kill move =>
    cases move with
    | reaps => exact numbered_alter
    | @drops branchId =>
      refine ⟨Nat.le_refl _, fun other lock stored => .inl ?_⟩
      rw [Sandbox.dropLock, Dict.get?_erase] at stored
      split at stored
      · cases stored
      · exact stored
    | _ => exact .of_eq rfl rfl

end Frames

/-! ## What a fork has found out about its parent -/

/-- The capture is going to record a snapshot under the generation it has read. -/
def Capture.owes (capture : Capture) : CapturePhase → Bool
  | .sync | .pause => capture.takes
  | .snapshot | .record => true
  | .copyOverlay | .resume _ => false

/-- The capture has found the branch's snapshot current, or has recorded one. -/
def Capture.relies (capture : Capture) : CapturePhase → Bool
  | .sync | .pause => !capture.takes
  | .copyOverlay | .resume false => true
  | .snapshot | .record | .resume true => false

theorem Capture.first_owes {capture : Capture} {work : CapturePhase} (isFirst : work = .sync ∨ work = .pause) :
    capture.owes work = capture.takes ∧ capture.relies work = !capture.takes := by
  obtain rfl | rfl := isFirst <;> exact ⟨rfl, rfl⟩

/-- The next fork from the branch takes no snapshot. -/
def Settled (sandbox : Sandbox) (branchId : BranchId) : Prop :=
  branchId ∈ sandbox.vms → sandbox.stale branchId = false

/-- A fork that took the branch's lock at the instant has been handed its files, and
its child is restored from them or about to be. -/
def Given (state : State) (branchId : BranchId) (since : Instant) : Prop :=
  (∃ call ∈ state.calls, ∃ handed, call.handed = some handed ∧
    handed.parentId = branchId ∧ handed.lockedAt = since) ∨
  ∃ vm machine restored, state.sandbox.machines.get? vm = some machine ∧ machine.restored = some restored ∧
    restored.handed.parentId = branchId ∧ restored.handed.lockedAt = since

/-- The fork holds the lock that is in the table, and its parent was not disturbed since. -/
structure Watched.Calmly (watched : Watched) (parentId : BranchId) (lock : Nat) (since : Instant) : Prop where
  listed : watched.state.sandbox.parentLocks.get? parentId = some lock
  calm : Calm watched.disturbedAt parentId since

/-- What a fork has read under its parent's lock is still so. -/
structure SpawnPhase.Found (watched : Watched) (phase : SpawnPhase) : Prop where
  inspects : ∀ parentId lock since, phase = .inspect parentId lock since → since ≤ watched.state.clock
  reuses : ∀ parentId lock since, phase = .reuse parentId lock since → since ≤ watched.state.clock ∧
    (watched.Calmly parentId lock since → parentId ∉ watched.state.sandbox.vms)
  captures : ∀ capture work, phase = .capture capture work → capture.lockedAt ≤ watched.state.clock ∧
    (watched.Calmly capture.branchId capture.lock capture.lockedAt →
      capture.branchId ∈ watched.state.sandbox.vms →
        (capture.owes work = true → capture.gen = watched.state.sandbox.genOf capture.branchId) ∧
        (capture.relies work = true → watched.state.sandbox.stale capture.branchId = false))

theorem SpawnPhase.Found.of_idle {watched : Watched} {phase : SpawnPhase} (idle : phase.holding = none) :
    phase.Found watched := by
  refine ⟨?_, ?_, ?_⟩
  · rintro _ _ _ rfl
    cases idle
  · rintro _ _ _ rfl
    cases idle
  · rintro _ _ rfl
    cases idle

/-- What was found stays so while nothing changes for the branches. -/
theorem SpawnPhase.Found.later {watched after : Watched} {phase : SpawnPhase} (found : phase.Found watched)
    (clock : watched.state.clock ≤ after.state.clock) (disturbed : after.disturbedAt = watched.disturbedAt)
    (locks : after.state.sandbox.parentLocks = watched.state.sandbox.parentLocks)
    (same : ∀ branchId, Same watched.state.sandbox after.state.sandbox branchId) : phase.Found after := by
  have calmly : ∀ {parentId lock since}, after.Calmly parentId lock since → watched.Calmly parentId lock since :=
    fun calm => ⟨locks ▸ calm.listed, disturbed ▸ calm.calm⟩
  refine ⟨fun parentId lock since isPhase => ?_, fun parentId lock since isPhase => ?_,
    fun capture work isPhase => ?_⟩
  · exact Nat.le_trans (found.inspects parentId lock since isPhase) clock
  · obtain ⟨bound, reuses⟩ := found.reuses parentId lock since isPhase
    exact ⟨Nat.le_trans bound clock, fun calm live => reuses (calmly calm) ((same parentId).live live)⟩
  · obtain ⟨bound, captures⟩ := found.captures capture work isPhase
    refine ⟨Nat.le_trans bound clock, fun calm live => ?_⟩
    have here := same capture.branchId
    obtain ⟨owes, relies⟩ := captures (calmly calm) (here.live live)
    exact ⟨fun owing => (owes owing).trans (here.gen live).symm,
      fun relying => (here.stale live).trans (relies relying)⟩

structure Kept (watched : Watched) : Prop where
  owed : Owed watched.state
  listed : ∀ branchId lock, watched.state.sandbox.parentLocks.get? branchId = some lock →
    lock < watched.state.sandbox.locks
  wanted : ∀ call ∈ watched.state.calls, ∀ branchId lock,
    call.holding = some (branchId, lock) ∨ call.waiting = some (branchId, lock) →
      lock < watched.state.sandbox.locks
  given : ∀ branchId since, Given watched.state branchId since → since ≤ watched.state.clock ∧
    (Calm watched.disturbedAt branchId since → Settled watched.state.sandbox branchId)
  found : ∀ task, .spawn task ∈ watched.state.calls → task.phase.Found watched
  /-- as long as a fork has a snapshot to record, nobody relies on the last one -/
  alone : ∀ child source capture work, .spawn ⟨child, source, .capture capture work⟩ ∈ watched.state.calls →
    watched.state.sandbox.parentLocks.get? capture.branchId = some capture.lock → capture.owes work = true →
      ∀ since, Given watched.state capture.branchId since → ¬ Calm watched.disturbedAt capture.branchId since

/-- The step hands the parent's files to the spawn. -/
inductive Hands (sandbox : Sandbox) : Call → BranchId → Instant → Prop where
  | finds {child source : BranchId} {parentId : Option BranchId} {lock since : Nat} :
      sandbox.stale source = false →
      Hands sandbox (.spawn ⟨child, parentId, .inspect source lock since⟩) source since
  | reuses {child source : BranchId} {parentId : Option BranchId} {lock since : Nat} :
      Hands sandbox (.spawn ⟨child, parentId, .reuse source lock since⟩) source since
  | captured {child : BranchId} {parentId : Option BranchId} {capture : Capture} :
      Hands sandbox (.spawn ⟨child, parentId, .capture capture (.resume false)⟩) capture.branchId capture.lockedAt

section Steps

variable {config : Config} {env : Env} {now : Instant} {sandbox after : Sandbox} {call next : Call}
  {branchId : BranchId} {since : Instant}

/-- What a call has been handed after a step it was handed in the step or before. -/
theorem CallMove.hands (move : CallMove config env now sandbox call after next) {handed : Handed}
    (isHanded : next.handed = some handed) :
    (∃ old, call.handed = some old ∧ old.parentId = handed.parentId ∧ old.lockedAt = handed.lockedAt) ∨
      Hands sandbox call handed.parentId handed.lockedAt := by
  cases move with
  | @spawn child parentId before phase after move =>
    have isHanded : phase.handed = some handed := isHanded
    show (∃ old, before.handed = some old ∧ _) ∨ _
    cases move with
    | finds _ current =>
      rw [handed_staging] at isHanded
      cases isHanded
      exact .inr (.finds current)
    | reuses =>
      rw [handed_staging] at isHanded
      cases isHanded
      exact .inr .reuses
    | @captured capture work after result move =>
      cases result with
      | goes => cases isHanded
      | raised => cases isHanded
      | returned capture =>
        rw [CaptureResult.forked, handed_staging] at isHanded
        cases isHanded
        cases move
        exact .inr .captured
    | linksMem | linksState =>
      cases isHanded
      exact .inl ⟨_, rfl, rfl, rfl⟩
    | launches => exact .inl ⟨handed, isHanded, rfl, rfl⟩
    | _ => cases isHanded
  | exec => cases isHanded
  | checkpoint => cases isHanded
  | kill => cases isHanded

/-- Files that a child has after a step it had before, unless its spawn is handed them in it. -/
theorem given_before {state : State} {c : Nat} {clock : Instant} (found : state.calls[c]? = some call)
    (move : CallMove config env now state.sandbox call after next)
    (given : Given ⟨after, state.calls.set c next, clock⟩ branchId since) : Given state branchId since ∨
      next.handed.isSome = true ∧ Hands state.sandbox call branchId since := by
  have member := List.mem_of_getElem? found
  obtain ⟨one, isOne, handed, isHanded, rfl, rfl⟩ | ⟨vm, machine, restored, isMachine, isRestored, rfl, rfl⟩ := given
  · obtain old | rfl := List.mem_or_eq_of_mem_set isOne
    · exact .inl (.inl ⟨one, old, handed, isHanded, rfl, rfl⟩)
    · obtain ⟨old, wasHanded, same⟩ | hands := move.hands isHanded
      · exact .inl (.inl ⟨call, member, old, wasHanded, same⟩)
      · exact .inr ⟨by rw [isHanded]; rfl, hands⟩
  · obtain keeps | ⟨child, handed, mem, device, isHanded, _, _, rfl⟩ := move.guests
    · obtain isNone | ⟨old, isOld, same, _⟩ := keeps vm machine isMachine
      · rw [isNone] at isRestored
        cases isRestored
      · exact .inl (.inr ⟨vm, old, restored, isOld, same ▸ isRestored, rfl, rfl⟩)
    · rw [Sandbox.get?_alter] at isMachine
      split at isMachine
      · obtain ⟨old, _, rfl⟩ := Option.map_eq_some_iff.1 isMachine
        cases isRestored
        exact .inl (.inl ⟨call, member, handed, isHanded, rfl, rfl⟩)
      · exact .inl (.inr ⟨vm, machine, restored, isMachine, isRestored, rfl, rfl⟩)

/-- A capture that goes on still owes a snapshot, or relies on the recorded one, if it did before or has recorded it. -/
theorem CaptureMove.goes_on {capture later : Capture} {work next : CapturePhase}
    (move : CaptureMove env now sandbox capture work after (.goes later next)) :
    later.branchId = capture.branchId ∧ later.lock = capture.lock ∧ later.lockedAt = capture.lockedAt ∧
      later.gen = capture.gen ∧ (later.owes next = true → capture.owes work = true ∧ work ≠ .record) ∧
      (later.relies next = true → capture.relies work = true ∧ work ≠ .record ∨ work = .record) := by
  cases move with
  | paused =>
    refine ⟨rfl, rfl, rfl, rfl, ?_⟩
    cases takes : capture.takes <;> simp [Capture.owes, Capture.relies, takes]
  | recorded =>
    refine ⟨rfl, rfl, rfl, rfl, ?_⟩
    cases capture.copies <;> simp [Capture.owes]
  | _ => simp [Capture.owes, Capture.relies]

theorem staging_ne_capture (config : Config) (handed : Handed) (capture : Capture) (work : CapturePhase) :
    SpawnPhase.staging config handed ≠ .capture capture work := by
  intro same
  have isHanded := handed_staging config handed
  rw [same] at isHanded
  cases isHanded

/-- A fork that owes a snapshot has owed it before the step, or finds the last one stale in it. -/
theorem CallMove.owes (move : CallMove config env now sandbox call after next) {child : BranchId}
    {source : Option BranchId} {capture : Capture} {work : CapturePhase}
    (isNext : next = .spawn ⟨child, source, .capture capture work⟩) (owing : capture.owes work = true) :
    (capture.branchId ∈ sandbox.vms ∧ sandbox.stale capture.branchId = true) ∨
      ∃ before old, call = .spawn ⟨child, source, .capture before old⟩ ∧
        before.branchId = capture.branchId ∧ before.owes old = true := by
  cases move with
  | spawn move =>
    injection isNext with sameTask
    injection sameTask with sameChild sameSource isPhase
    subst sameChild sameSource
    cases move with
    | captures isLive isFirst =>
      cases isPhase
      rw [(Capture.first_owes isFirst).1] at owing
      exact .inl ⟨Dict.mem_of_get? isLive, owing⟩
    | @captured before old _ result move =>
      cases result with
      | goes =>
        cases isPhase
        obtain ⟨sameBranch, _, _, _, owes, _⟩ := move.goes_on
        exact .inr ⟨before, old, rfl, sameBranch.symm, (owes owing).1⟩
      | returned => exact (staging_ne_capture _ _ _ _ isPhase).elim
      | raised => cases isPhase
    | finds | reuses => exact (staging_ne_capture _ _ _ _ isPhase).elim
    | _ => cases isPhase
  | _ => cases isNext

end Steps

/-! ## A step keeps it -/

/-- The run after a step of call `c`. -/
def Watched.stepped (watched : Watched) (c : Nat) (call next : Call) (after : Sandbox) : Watched :=
  ⟨watched.state.stepped c next after, watched.note call⟩

namespace Kept

variable {config : Config} {env : Env} {watched : Watched} {c : Nat} {call next : Call} {after : Sandbox}
  {branchId : BranchId} {since : Instant}

/-- Two calls that hold the lock that is in the table for the branch are the same call. -/
theorem same_call (kept : Kept watched) {i j : Nat} {first second : Call} {lock other : Nat}
    (isFirst : watched.state.calls[i]? = some first) (isSecond : watched.state.calls[j]? = some second)
    (firstHolds : first.holding = some (branchId, lock)) (secondHolds : second.holding = some (branchId, other))
    (firstListed : watched.state.sandbox.parentLocks.get? branchId = some lock)
    (secondListed : watched.state.sandbox.parentLocks.get? branchId = some other) : i = j := by
  have sameLock : lock = other := Option.some.inj (firstListed.symm.trans secondListed)
  subst sameLock
  have once : (holdings Call.lock watched.state.calls).Nodup := by
    rw [← kept.owed.held]
    exact watched.state.sandbox.held.nodup
  have firstLock : first.lock = some lock := by rw [Call.lock, firstHolds, Option.map_some]
  have secondLock : second.lock = some lock := by rw [Call.lock, secondHolds, Option.map_some]
  exact same_holder once isFirst isSecond firstLock secondLock

/-- A lock that somebody holds or waits for does not come into the table. -/
theorem listed_before (kept : Kept watched) {one : Call} {lock : Nat} (member : one ∈ watched.state.calls)
    (wants : one.holding = some (branchId, lock) ∨ one.waiting = some (branchId, lock))
    (numbered : Numbered watched.state.sandbox after) {parentId : BranchId}
    (isListed : after.parentLocks.get? parentId = some lock) :
    watched.state.sandbox.parentLocks.get? parentId = some lock := by
  obtain before | ⟨isNew, _⟩ := numbered.listed parentId lock isListed
  · exact before
  · exact absurd (kept.wanted one member branchId lock wants) (isNew ▸ Nat.lt_irrefl _)

/-- Whoever was given the branch's files and has not been disturbed may go on to rely on them. -/
theorem settles (kept : Kept watched) (found : watched.state.calls[c]? = some call)
    (move : CallMove config env watched.state.clock watched.state.sandbox call after next)
    (given : Given watched.state branchId since)
    (undisturbed : call.disturbs watched.state.sandbox.parentLocks ≠ some branchId)
    (calm : Calm watched.disturbedAt branchId since) : Settled after branchId := by
  obtain same | ⟨child, source, capture, rfl, rfl, _⟩ := move.same undisturbed
  · intro live
    rw [same.stale live]
    exact (kept.given branchId since given).2 calm (same.live live)
  · -- a fork that has a snapshot to record finds nobody who relies on the last one
    have isListed := own_lock _ rfl undisturbed
    exact absurd calm (kept.alone child source capture .record (List.mem_of_getElem? found) isListed rfl since given)

theorem hands_bound (kept : Kept watched) (found : watched.state.calls[c]? = some call)
    (hands : Hands watched.state.sandbox call branchId since) : since ≤ watched.state.clock ∧
      ∃ task lock, call = .spawn task ∧ task.phase.holding = some (branchId, lock) := by
  have member := List.mem_of_getElem? found
  cases hands with
  | finds => exact ⟨(kept.found _ member).inspects _ _ _ rfl, _, _, rfl, rfl⟩
  | reuses => exact ⟨((kept.found _ member).reuses _ _ _ rfl).1, _, _, rfl, rfl⟩
  | captured => exact ⟨((kept.found _ member).captures _ _ rfl).1, _, _, rfl, rfl⟩

/-- A fork hands out files only where the next fork takes no snapshot either. -/
theorem hands_settled (kept : Kept watched) (found : watched.state.calls[c]? = some call)
    (move : CallMove config env watched.state.clock watched.state.sandbox call after next)
    (hands : Hands watched.state.sandbox call branchId since)
    (undisturbed : call.disturbs watched.state.sandbox.parentLocks ≠ some branchId)
    (calm : Calm watched.disturbedAt branchId since) : Settled after branchId := by
  have member := List.mem_of_getElem? found
  obtain ⟨_, task, lock, rfl, holds⟩ := kept.hands_bound found hands
  have isListed := own_lock task holds undisturbed
  obtain same | ⟨child, source, capture, isCall, rfl, _⟩ := move.same undisturbed
  · intro live
    rw [same.stale live]
    cases hands with
    | finds current => exact current
    | reuses =>
      cases holds
      exact absurd (same.live live) (((kept.found _ member).reuses _ _ _ rfl).2 ⟨isListed, calm⟩)
    | captured =>
      cases holds
      exact (((kept.found _ member).captures _ _ rfl).2 ⟨isListed, calm⟩ (same.live live)).2 rfl
  · cases isCall
    cases hands

/-- What another fork has found out is not touched by the step. -/
theorem found_others (kept : Kept watched) (found : watched.state.calls[c]? = some call)
    (move : CallMove config env watched.state.clock watched.state.sandbox call after next) {i : Nat} {task : SpawnTask}
    (differs : c ≠ i) (isTask : watched.state.calls[i]? = some (.spawn task)) :
    task.phase.Found (watched.stepped c call next after) := by
  have member := List.mem_of_getElem? isTask
  have before := kept.found task member
  have later : ∀ {instant : Instant}, instant ≤ watched.state.clock → instant ≤ watched.state.clock + 1 :=
    Nat.le_succ_of_le
  -- the fork runs under the same lock, undisturbed, as before the step
  have calmly : ∀ {parentId lock instant}, task.phase.holding = some (parentId, lock) →
      instant ≤ watched.state.clock → (watched.stepped c call next after).Calmly parentId lock instant →
      call.disturbs watched.state.sandbox.parentLocks ≠ some parentId ∧ watched.Calmly parentId lock instant := by
    intro parentId lock instant holds bound isCalm
    obtain ⟨undisturbed, calm⟩ := calm_before isCalm.calm bound
    exact ⟨undisturbed, kept.listed_before member (.inl holds) move.numbered isCalm.listed, calm⟩
  refine ⟨fun parentId lock instant isPhase => later (before.inspects _ _ _ isPhase), ?_, ?_⟩
  · intro parentId lock instant isPhase
    obtain ⟨bound, reuses⟩ := before.reuses _ _ _ isPhase
    refine ⟨later bound, fun isCalm live => ?_⟩
    obtain ⟨undisturbed, isCalm⟩ := calmly (by rw [isPhase]; rfl) bound isCalm
    obtain same | ⟨_, _, capture, _, rfl, isAfter⟩ := move.same undisturbed
    · exact reuses isCalm (same.live live)
    · have live : capture.branchId ∈ after.vms := live
      rw [isAfter] at live
      exact reuses isCalm live
  · intro capture work isPhase
    obtain ⟨bound, captures⟩ := before.captures _ _ isPhase
    refine ⟨later bound, fun isCalm live => ?_⟩
    have holds : task.phase.holding = some (capture.branchId, capture.lock) := by rw [isPhase]; rfl
    obtain ⟨undisturbed, wasCalm⟩ := calmly holds bound isCalm
    obtain same | ⟨child, source, other, rfl, here, _⟩ := move.same undisturbed
    · obtain ⟨owes, relies⟩ := captures wasCalm (same.live live)
      exact ⟨fun owing => (owes owing).trans (same.gen live).symm,
        fun relying => (same.stale live).trans (relies relying)⟩
    · have records : (Call.spawn ⟨child, source, .capture other .record⟩).holding =
          some (capture.branchId, other.lock) := congrArg (fun parentId => some (parentId, other.lock)) here
      have isListed := own_lock ⟨child, source, .capture other .record⟩ records undisturbed
      exact absurd (kept.same_call found isTask records holds isListed wasCalm.listed) differs

/-- What the fork that makes the step has found out. -/
theorem found_here (kept : Kept watched) {before task : SpawnTask}
    (found : watched.state.calls[c]? = some (.spawn before))
    (move : CallMove config env watched.state.clock watched.state.sandbox (.spawn before) after (.spawn task)) :
    task.phase.Found (watched.stepped c (.spawn before) (.spawn task) after) := by
  have member := List.mem_of_getElem? found
  have was := kept.found before member
  cases move with
  | @spawn child source before phase after move =>
    have whole : CallMove config env watched.state.clock watched.state.sandbox (.spawn ⟨child, source, before⟩) after
      (.spawn ⟨child, source, phase⟩) := .spawn move
    cases move with
    | acquires acquired =>
      refine ⟨?_, nofun, fun _ _ same => by cases same⟩
      rintro _ _ _ ⟨⟩
      exact Nat.le_succ _
    | findsNone absent =>
      refine ⟨nofun, ?_, fun _ _ same => by cases same⟩
      rintro _ _ _ ⟨⟩
      exact ⟨Nat.le_succ_of_le (was.inspects _ _ _ rfl), fun _ live => Dict.get?_eq_none.1 absent live⟩
    | @captures parent _ _ _ _ _ isFirst =>
      refine ⟨nofun, nofun, ?_⟩
      rintro _ _ ⟨⟩
      refine ⟨Nat.le_succ_of_le (was.inspects _ _ _ rfl), fun _ _ => ⟨fun _ => rfl, fun relying => ?_⟩⟩
      have current : watched.state.sandbox.stale parent = false := by
        simpa [(Capture.first_owes isFirst).2] using relying
      exact current
    | @captured capture work after result move =>
      cases result with
      | goes later next =>
        obtain ⟨sameBranch, sameLock, sameSince, sameGen, owes, relies⟩ := move.goes_on
        obtain ⟨bound, captures⟩ := was.captures _ _ rfl
        refine ⟨nofun, nofun, ?_⟩
        rintro _ _ ⟨⟩
        rw [sameBranch, sameLock, sameSince, sameGen]
        refine ⟨Nat.le_succ_of_le bound, fun isCalm live => ?_⟩
        obtain ⟨undisturbed, calm⟩ := calm_before isCalm.calm bound
        have isListed := own_lock ⟨child, source, .capture capture work⟩ rfl undisturbed
        have live : capture.branchId ∈ after.vms := live
        refine ⟨fun owing => ?_, fun relying => ?_⟩
        · obtain ⟨owed, notRecord⟩ := owes owing
          obtain same | ⟨_, _, _, isCall, _⟩ := whole.same undisturbed
          · exact ((captures ⟨isListed, calm⟩ (same.live live)).1 owed).trans (same.gen live).symm
          · cases isCall
            exact absurd rfl notRecord
        · obtain ⟨relied, notRecord⟩ | rfl := relies relying
          · obtain same | ⟨_, _, _, isCall, _⟩ := whole.same undisturbed
            · exact (same.stale live).trans ((captures ⟨isListed, calm⟩ (same.live live)).2 relied)
            · cases isCall
              exact absurd rfl notRecord
          · -- the snapshot is recorded under the generation that the branch still has
            cases move
            exact stale_record ((captures ⟨isListed, calm⟩ live).1 rfl)
      | returned => exact .of_idle (staging_quiet ..).1
      | raised => exact .of_idle rfl
    | finds | reuses => exact .of_idle (staging_quiet ..).1
    | _ => exact .of_idle rfl

/-- While a fork has a snapshot to record nobody relies on the last one. -/
theorem alone_step (kept : Kept watched) (found : watched.state.calls[c]? = some call)
    (move : CallMove config env watched.state.clock watched.state.sandbox call after next)
    {child : BranchId} {source : Option BranchId} {capture : Capture} {work : CapturePhase}
    (member : .spawn ⟨child, source, .capture capture work⟩ ∈ watched.state.calls.set c next)
    (isListed : after.parentLocks.get? capture.branchId = some capture.lock) (owing : capture.owes work = true)
    (given : Given (watched.state.stepped c next after) capture.branchId since) :
    ¬ Calm (watched.note call) capture.branchId since := by
  intro isCalm
  have isCall := List.mem_of_getElem? found
  obtain ⟨i, isFork⟩ := List.mem_iff_getElem?.1 member
  by_cases here : c = i
  · -- the fork makes the step itself, so what was given was given before
    subst here
    rw [List.getElem?_set_self (List.getElem?_eq_some_iff.1 found).1] at isFork
    have isNext := Option.some.inj isFork
    obtain wasGiven | ⟨hands, _⟩ := given_before found move given
    · obtain ⟨undisturbed, calm⟩ := calm_before isCalm (kept.given _ _ wasGiven).1
      obtain ⟨live, stale⟩ | ⟨before, old, rfl, sameBranch, owed⟩ := move.owes isNext owing
      · cases stale.symm.trans ((kept.given _ _ wasGiven).2 calm live)
      · rw [← sameBranch] at wasGiven calm undisturbed
        exact kept.alone _ _ before old isCall (own_lock _ rfl undisturbed) owed since wasGiven calm
    · rw [isNext] at hands
      cases hands
  · rw [List.getElem?_set_ne here] at isFork
    have isOld := List.mem_of_getElem? isFork
    have wasListed := kept.listed_before isOld (.inl rfl) move.numbered isListed
    obtain given | ⟨_, hands⟩ := given_before found move given
    · obtain ⟨_, calm⟩ := calm_before isCalm (kept.given _ _ given).1
      exact kept.alone child source capture work isOld wasListed owing since given calm
    · obtain ⟨bound, task, lock, rfl, holds⟩ := kept.hands_bound found hands
      obtain ⟨undisturbed, _⟩ := calm_before isCalm bound
      exact here (kept.same_call found isFork holds rfl (own_lock task holds undisturbed) wasListed)

theorem wanted_here (kept : Kept watched) (isCall : call ∈ watched.state.calls)
    (move : CallMove config env watched.state.clock watched.state.sandbox call after next) {lock : Nat}
    (wants : next.holding = some (branchId, lock) ∨ next.waiting = some (branchId, lock)) : lock < after.locks := by
  have numbered := move.numbered
  obtain holds | waits := wants
  · obtain ⟨held, _⟩ | ⟨waited, _⟩ := move.held.holds holds
    · exact Nat.lt_of_lt_of_le (kept.wanted call isCall branchId lock (.inl held)) numbered.grows
    · exact Nat.lt_of_lt_of_le (kept.wanted call isCall branchId lock (.inr waited)) numbered.grows
  · cases kills : call.kills with
    | false =>
      obtain before | ⟨rfl, grows⟩ := numbered.listed branchId lock ((move.locks kills).waits branchId lock waits)
      · exact Nat.lt_of_lt_of_le (kept.listed branchId lock before) numbered.grows
      · exact grows
    | true =>
      cases move with
      | kill => cases waits
      | _ => cases kills

theorem of_call (kept : Kept watched) (found : watched.state.calls[c]? = some call)
    (move : CallMove config env watched.state.clock watched.state.sandbox call after next) :
    Kept (watched.stepped c call next after) := by
  have isCall := List.mem_of_getElem? found
  have numbered := move.numbered
  refine ⟨kept.owed.call found move, fun branchId lock stored => ?_, fun one isOne branchId lock wants => ?_,
    fun branchId since given => ?_, fun task isTask => ?_,
    fun child source capture work member isListed owing since given => ?_⟩
  · obtain before | ⟨rfl, grows⟩ := numbered.listed branchId lock stored
    · exact Nat.lt_of_lt_of_le (kept.listed branchId lock before) numbered.grows
    · exact grows
  · obtain old | rfl := List.mem_or_eq_of_mem_set isOne
    · exact Nat.lt_of_lt_of_le (kept.wanted one old branchId lock wants) numbered.grows
    · exact kept.wanted_here isCall move wants
  · obtain given | ⟨_, hands⟩ := given_before found move given
    · refine ⟨Nat.le_succ_of_le (kept.given branchId since given).1, fun isCalm => ?_⟩
      obtain ⟨undisturbed, calm⟩ := calm_before isCalm (kept.given branchId since given).1
      exact kept.settles found move given undisturbed calm
    · obtain ⟨bound, _⟩ := kept.hands_bound found hands
      refine ⟨Nat.le_succ_of_le bound, fun isCalm => ?_⟩
      obtain ⟨undisturbed, calm⟩ := calm_before isCalm bound
      exact kept.hands_settled found move hands undisturbed calm
  · obtain ⟨i, isTask⟩ := List.mem_iff_getElem?.1 isTask
    by_cases here : c = i
    · subst here
      rw [Watched.stepped, State.stepped, List.getElem?_set_self (List.getElem?_eq_some_iff.1 found).1] at isTask
      obtain rfl := Option.some.inj isTask
      obtain ⟨before, rfl⟩ : ∃ before, call = .spawn before := by
        cases move
        exact ⟨_, rfl⟩
      exact kept.found_here found move
    · -- another fork, which the step passes by
      have isOld : watched.state.calls[i]? = some (.spawn task) := by
        rwa [Watched.stepped, State.stepped, List.getElem?_set_ne here] at isTask
      exact kept.found_others found move here isOld
  · exact kept.alone_step found move member isListed owing given

theorem invoke (kept : Kept watched) (op : Op) :
    Kept ⟨⟨watched.state.sandbox, watched.state.calls ++ [op.call], watched.state.clock + 1⟩,
      watched.disturbedAt⟩ := by
  have idle : op.call.holding = none ∧ op.call.waiting = none ∧ op.call.handed = none := by
    cases op <;> exact ⟨rfl, rfl, rfl⟩
  -- nothing has been handed to the new call
  have given : ∀ {branchId since},
      Given ⟨watched.state.sandbox, watched.state.calls ++ [op.call], watched.state.clock + 1⟩ branchId since →
      Given watched.state branchId since := by
    intro branchId since given
    obtain ⟨one, isOne, handed, isHanded, same⟩ | restored := given
    · obtain old | new := List.mem_append.1 isOne
      · exact .inl ⟨one, old, handed, isHanded, same⟩
      · rw [List.mem_singleton.1 new, idle.2.2] at isHanded
        cases isHanded
    · exact .inr restored
  refine ⟨kept.owed.invoke op, kept.listed, fun one isOne branchId lock wants => ?_, fun branchId since isGiven => ?_,
    fun task isTask => ?_, fun child source capture work member isListed owing since isGiven => ?_⟩
  · obtain old | new := List.mem_append.1 isOne
    · exact kept.wanted one old branchId lock wants
    · rw [List.mem_singleton.1 new, idle.1, idle.2.1] at wants
      obtain wants | wants := wants <;> cases wants
  · obtain ⟨bound, settled⟩ := kept.given branchId since (given isGiven)
    exact ⟨Nat.le_succ_of_le bound, settled⟩
  · obtain old | new := List.mem_append.1 isTask
    · exact (kept.found task old).later (Nat.le_succ _) rfl rfl fun _ => .of_eq rfl rfl rfl rfl
    · refine .of_idle ?_
      have isNew := idle.1
      rw [← List.mem_singleton.1 new] at isNew
      exact isNew
  · obtain old | new := List.mem_append.1 member
    · exact kept.alone child source capture work old isListed owing since (given isGiven)
    · have isNew := idle.1
      rw [← List.mem_singleton.1 new] at isNew
      cases isNew

/-- A guest that runs on, or is gone, changes nothing. -/
theorem ticks (kept : Kept watched) {sandbox : Sandbox}
    (owed : Owed ⟨sandbox, watched.state.calls, watched.state.clock + 1⟩)
    (keeps : Keeps watched.state.sandbox sandbox) (locks : sandbox.locks = watched.state.sandbox.locks)
    (parentLocks : sandbox.parentLocks = watched.state.sandbox.parentLocks)
    (same : ∀ branchId, Same watched.state.sandbox sandbox branchId) :
    Kept ⟨⟨sandbox, watched.state.calls, watched.state.clock + 1⟩, watched.disturbedAt⟩ := by
  have given : ∀ {branchId since}, Given ⟨sandbox, watched.state.calls, watched.state.clock + 1⟩ branchId since →
      Given watched.state branchId since := by
    intro branchId since given
    obtain handed | ⟨vm, machine, restored, isMachine, isRestored, sameBranch⟩ := given
    · exact .inl handed
    · obtain isNone | ⟨old, isOld, sameGuest, _⟩ := keeps vm machine isMachine
      · rw [isNone] at isRestored
        cases isRestored
      · exact .inr ⟨vm, old, restored, isOld, sameGuest ▸ isRestored, sameBranch⟩
  refine ⟨owed, fun branchId lock stored => ?_, fun one isOne branchId lock wants => ?_,
    fun branchId since isGiven => ?_,
    fun task isTask => (kept.found task isTask).later (Nat.le_succ _) rfl parentLocks same,
    fun child source capture work member isListed owing since isGiven => ?_⟩
  · exact Nat.lt_of_lt_of_eq (kept.listed branchId lock (parentLocks ▸ stored)) locks.symm
  · exact Nat.lt_of_lt_of_eq (kept.wanted one isOne branchId lock wants) locks.symm
  · obtain ⟨bound, settled⟩ := kept.given branchId since (given isGiven)
    refine ⟨Nat.le_succ_of_le bound, fun calm live => ?_⟩
    exact ((same branchId).stale live).trans (settled calm ((same branchId).live live))
  · exact kept.alone child source capture work member (parentLocks ▸ isListed) owing since (given isGiven)

theorem step (kept : Kept watched) {action : Action} {later : Watched} (taken : watched.Step config action later) :
    Kept later := by
  obtain ⟨state, stepped, rfl⟩ := Option.map_eq_some_iff.1 taken
  cases action with
  | invoke op =>
    cases stepped
    exact kept.invoke op
  | step c env =>
    obtain ⟨call, found, taken⟩ := Option.bind_eq_some_iff.1 stepped
    obtain ⟨⟨sandbox, next⟩, moved, rfl⟩ := Option.map_eq_some_iff.1 taken
    rw [watched.noted_step found]
    exact kept.of_call found (Call.step_moves moved)
  | guest vm =>
    have owed := kept.owed.step stepped
    obtain ⟨_, equal⟩ := Option.ite_none_right_eq_some.1 stepped
    cases equal
    exact kept.ticks owed (.of_eq rfl) rfl rfl fun _ => .of_eq rfl rfl rfl rfl
  | exit vm =>
    have owed := kept.owed.step stepped
    cases stepped
    refine kept.ticks owed (keeps_exit vm) ?_ (Sandbox.parentLocks_alter ..) fun _ => same_alter
    unfold Sandbox.exit Sandbox.alter
    split <;> rfl

end Kept

/-- Watching a run does not restrict it. -/
theorem watched_run {config : Config} {disk : Disk Path Image} {state : State}
    (reached : Reachable (State.Step config) always (State.fresh disk) state) :
    ∃ disturbedAt, Reachable (Watched.Step config) always (Watched.fresh disk) ⟨state, disturbedAt⟩ := by
  induction reached with
  | refl => exact ⟨.empty, .refl⟩
  | @tail middle state action _ _ taken inductionHypothesis =>
    obtain ⟨disturbedAt, watched⟩ := inductionHypothesis
    have stepped : Watched.Step config ⟨middle, disturbedAt⟩ action
        ⟨state, Watched.noted ⟨middle, disturbedAt⟩ action⟩ :=
      Option.map_eq_some_iff.2 ⟨state, taken, rfl⟩
    exact ⟨_, watched.tail trivial stepped⟩

/-! ## Isolation -/

def watchedRun (config : Config) (actions : List Action) : Watched :=
  runFrom (Watched.step config) (Watched.fresh emptyDisk) actions

/-- A root is forked, runs a command and is forked again. -/
def siblingRun : List Action :=
  alone 0 (.spawn "root" none) 7 ++ alone 1 (.spawn "a" (some "root")) 14 ++
    alone 2 (.exec "root") 5 ++ alone 3 (.spawn "b" (some "root")) 14

end Agentfork.Firecracker.Snapshots

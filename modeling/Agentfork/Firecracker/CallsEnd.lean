import Agentfork.Library.Holdings
import Agentfork.Library.Transition
import Agentfork.Firecracker.BranchLocks
import Agentfork.Firecracker.SnapshotIsolation

/-! # Every call of the sandbox comes to its end

A spawn, an exec and a checkpoint wait for a branch's lock, a kill waits for forks
from its branch and for the branch's own spawn. What is held, pending and counted
is exactly what calls under way hold, so a call that waits, waits for one that goes
on. And each step of a call brings it nearer to its end. -/

namespace Agentfork.Firecracker.Snapshots

open Transition

/-! ## What a call is under way with -/

/-- The spawn has entered its branch and has not left it. -/
def SpawnPhase.active : SpawnPhase → Bool
  | .admission | .refused _ | .finished _ => false
  | _ => true

namespace Call

def lock (call : Call) : Option Nat := call.holding.map Prod.snd

/-- The branch that the call has put into `_pending`. -/
def pends : Call → Option BranchId
  | .spawn ⟨branchId, _, phase⟩ => if phase.active then some branchId else none
  | _ => none

/-- The parent that the call is counted for in `_parent_forks`. -/
def forksFrom : Call → Option BranchId
  | .spawn ⟨_, parentId, phase⟩ => if phase.active then parentId else none
  | _ => none

def finished : Call → Bool
  | .spawn ⟨_, _, .refused _⟩ | .spawn ⟨_, _, .finished _⟩ => true
  | .exec ⟨_, _, .refused _⟩ | .exec ⟨_, _, .finished _ _⟩ => true
  | .checkpoint ⟨_, .finished _⟩ => true
  | .kill ⟨_, .finished _⟩ => true
  | _ => false

/-- The branch that the call is a kill of, as long as it waits. -/
def killWaits : Call → Option BranchId
  | .kill ⟨branchId, .wait⟩ => some branchId
  | _ => none

end Call

/-- The tables are about the calls that are under way. -/
structure Owed (state : State) : Prop where
  held : state.sandbox.held.val = holdings Call.lock state.calls
  pending : state.sandbox.pending.val = holdings Call.pends state.calls
  forks : ∀ parentId, state.sandbox.forksOf parentId = (holdings Call.forksFrom state.calls).count parentId
  counted : ∀ parentId, parentId ∈ state.sandbox.parentForks → state.sandbox.forksOf parentId ≠ 0

/-! ## Frames -/

/-- The spawns that are under way are not touched. -/
def SameSpawns (before after : Sandbox) : Prop :=
  after.pending = before.pending ∧ after.parentForks = before.parentForks

namespace SameSpawns

variable {sandbox after : Sandbox}

theorem alter (sandbox : Sandbox) (vm : Vmm) (update : Machine → Machine) : SameSpawns sandbox (sandbox.alter vm update) := by
  unfold Sandbox.alter
  split <;> exact ⟨rfl, rfl⟩

theorem parentLock (sandbox : Sandbox) (branchId : BranchId) : SameSpawns sandbox (sandbox.parentLock branchId).2 := by
  unfold Sandbox.parentLock
  split <;> exact ⟨rfl, rfl⟩

theorem bump (sandbox : Sandbox) (branchId : BranchId) : SameSpawns sandbox (sandbox.bump branchId) := by
  unfold Sandbox.bump
  split <;> exact ⟨rfl, rfl⟩

theorem acquire {lock : Nat} (acquired : sandbox.acquire lock = some after) : SameSpawns sandbox after := by
  obtain ⟨_, rfl⟩ := Sandbox.acquire_some acquired
  exact ⟨rfl, rfl⟩

theorem capture {env : Env} {now : Instant} {capture : Capture} {phase : CapturePhase} {result : CaptureResult}
    (move : CaptureMove env now sandbox capture phase after result) : SameSpawns sandbox after := by
  cases move with
  | paused => exact alter ..
  | returned => exact alter ..
  | raised isMiddle =>
    obtain rfl | rfl | rfl := isMiddle
    · exact ⟨rfl, rfl⟩
    · exact alter ..
    · exact alter ..
  | _ => exact ⟨rfl, rfl⟩

end SameSpawns

theorem Sandbox.forksOf_enter (sandbox : Sandbox) (branchId parentId other : BranchId) :
    (sandbox.enter branchId (some parentId)).forksOf other =
      if other = parentId then sandbox.forksOf parentId + 1 else sandbox.forksOf other := by
  simp only [Sandbox.forksOf, Sandbox.enter, Dict.get?_insert]
  split <;> rfl

theorem Sandbox.forksOf_leave (sandbox : Sandbox) (branchId parentId other : BranchId) :
    (sandbox.leave branchId (some parentId)).forksOf other =
      if other = parentId then sandbox.forksOf parentId - 1 else sandbox.forksOf other := by
  simp only [Sandbox.leave]
  split
  · simp only [Sandbox.forksOf, Dict.get?_insert]
    split <;> rfl
  · next isZero =>
    rw [not_not] at isZero
    rw [isZero]
    simp only [Sandbox.forksOf, Dict.get?_erase]
    split <;> rfl

/-- A parent that a spawn has just left is in the table for the other spawns only. -/
theorem Sandbox.mem_leave {sandbox : Sandbox} {branchId parentId : BranchId}
    (member : parentId ∈ (sandbox.leave branchId (some parentId)).parentForks) :
    (sandbox.leave branchId (some parentId)).forksOf parentId ≠ 0 := by
  rw [forksOf_leave, if_pos rfl]
  simp only [Sandbox.leave] at member
  split at member
  · assumption
  · exact absurd rfl (Dict.mem_erase.1 member).1

section Steps

variable {config : Config} {env : Env} {now : Instant} {sandbox after : Sandbox} {call next : Call}

/-- What a step does to the spawns that are under way. -/
inductive SpawnsMove (sandbox : Sandbox) : Call → Sandbox → Call → Prop where
  | keeps {call next : Call} {after : Sandbox} : SameSpawns sandbox after → next.pends = call.pends →
      next.forksFrom = call.forksFrom → SpawnsMove sandbox call after next
  | enters {branchId : BranchId} {parentId : Option BranchId} : branchId ∉ sandbox.pending →
      SpawnsMove sandbox (.spawn ⟨branchId, parentId, .admission⟩) (sandbox.enter branchId parentId)
        (.spawn ⟨branchId, parentId, .prepare⟩)
  | leaves {branchId : BranchId} {parentId : Option BranchId} {outcome : Except Fault Unit} :
      SpawnsMove sandbox (.spawn ⟨branchId, parentId, .settle outcome⟩) (sandbox.leave branchId parentId)
        (.spawn ⟨branchId, parentId, .finished outcome⟩)

theorem active_staging (config : Config) (handed : Handed) : (SpawnPhase.staging config handed).active = true := by
  unfold SpawnPhase.staging
  split <;> rfl

theorem active_forked (config : Config) (result : CaptureResult) : (result.forked config).active = true := by
  cases result with
  | returned capture => exact active_staging ..
  | _ => rfl

/-- Between its admission and its `finally` a spawn stays where it is. -/
theorem SpawnsMove.between {branchId : BranchId} {parentId : Option BranchId} {phase later : SpawnPhase}
    (same : SameSpawns sandbox after) (active : phase.active = true) (stays : later.active = true) :
    SpawnsMove sandbox (.spawn ⟨branchId, parentId, phase⟩) after (.spawn ⟨branchId, parentId, later⟩) :=
  .keeps same (by simp [Call.pends, active, stays]) (by simp [Call.forksFrom, active, stays])

theorem CallMove.spawns (move : CallMove config env now sandbox call after next) :
    SpawnsMove sandbox call after next := by
  cases move with
  | spawn move =>
    cases move with
    | refused => exact .keeps ⟨rfl, rfl⟩ rfl rfl
    | admitted free => exact .enters fun pending => free (.inr pending)
    | settles => exact .leaves
    | locks => exact .between (.parentLock ..) rfl rfl
    | acquires acquired => exact .between (.acquire acquired) rfl rfl
    | finds | reuses => exact .between ⟨rfl, rfl⟩ rfl (active_staging ..)
    | captured move => exact .between (.capture move) rfl (active_forked ..)
    | linksMem staging | linksState staging =>
      rw [Sandbox.linkInto_machines staging]
      exact .between ⟨rfl, rfl⟩ rfl rfl
    | restored _ restored =>
      obtain ⟨_, _, _, _, rfl⟩ := Sandbox.restore_some restored
      exact .between (.alter ..) rfl rfl
    | reaps => exact .between (.alter ..) rfl rfl
    | fails raises => obtain rfl | ⟨_, rfl⟩ | ⟨_, rfl⟩ | ⟨_, rfl⟩ := raises <;> exact .between ⟨rfl, rfl⟩ rfl rfl
    | aborts raises => obtain ⟨_, rfl⟩ | rfl | rfl := raises <;> exact .between ⟨rfl, rfl⟩ rfl rfl
    | _ => exact .between ⟨rfl, rfl⟩ rfl rfl
  | exec move =>
    cases move with
    | locks => exact .keeps (.parentLock ..) rfl rfl
    | acquires acquired => exact .keeps (.acquire acquired) rfl rfl
    | bumps => exact .keeps (.bump ..) rfl rfl
    | _ => exact .keeps ⟨rfl, rfl⟩ rfl rfl
  | checkpoint move =>
    cases move with
    | locks => exact .keeps (.parentLock ..) rfl rfl
    | acquires acquired => exact .keeps (.acquire acquired) rfl rfl
    | captured move => exact .keeps (.capture move) rfl rfl
    | _ => exact .keeps ⟨rfl, rfl⟩ rfl rfl
  | kill move =>
    cases move with
    | reaps => exact .keeps (.alter ..) rfl rfl
    | _ => exact .keeps ⟨rfl, rfl⟩ rfl rfl

/-- What a step does to the locks that are held, kills included. -/
theorem CallMove.held (move : CallMove config env now sandbox call after next) :
    HeldMove sandbox.held call.holding call.waiting after.held next.holding := by
  by_cases kills : call.kills = true
  · cases move with
    | kill move =>
      cases move with
      | reaps =>
        simp only [Sandbox.exit, Sandbox.held_alter]
        exact .keeps
      | _ => exact .keeps
    | _ => cases kills
  · exact (move.locks (Bool.not_eq_true _ ▸ kills)).held

end Steps

/-! ## The tables are kept -/

namespace Owed

variable {config : Config} {env : Env} {state next : State} {sandbox : Sandbox} {before after : Call} {c : Nat} {action : Action}

theorem held_step (owed : Owed state) (found : state.calls[c]? = some before)
    (move : HeldMove state.sandbox.held before.holding before.waiting sandbox.held after.holding) :
    sandbox.held.val = holdings Call.lock (state.calls.set c after) := by
  have held := owed.held
  generalize isBefore : state.sandbox.held = old at move held
  generalize isAfter : sandbox.held = new at move
  generalize wasHolding : before.holding = first at move
  generalize isHolding : after.holding = last at move
  cases move with
  | keeps =>
    rw [held, holdings_keeps Call.lock found]
    rw [Call.lock, Call.lock, wasHolding, isHolding]
  | @acquires branchId lock free waits notHeld =>
    have was : before.lock = none := by rw [Call.lock, wasHolding, free, Option.map_none]
    have is : after.lock = some lock := by rw [Call.lock, isHolding, Option.map_some]
    rw [Finset.insert_val_of_notMem notHeld, held, holdings_takes Call.lock found was is]
  | @releases branchId lock holds =>
    have was : before.lock = some lock := by rw [Call.lock, wasHolding, holds, Option.map_some]
    have is : after.lock = none := by rw [Call.lock, isHolding, Option.map_none]
    rw [Finset.erase_val, held, holdings_lets_go Call.lock found was is]

theorem call (owed : Owed state) (found : state.calls[c]? = some before)
    (move : CallMove config env state.clock state.sandbox before sandbox after) :
    Owed ⟨sandbox, state.calls.set c after, state.clock + 1⟩ := by
  have held := owed.held_step found move.held
  cases move.spawns with
  | keeps same pends forks =>
    obtain ⟨samePending, sameForks⟩ := same
    have forksOf : ∀ parentId, sandbox.forksOf parentId = state.sandbox.forksOf parentId := by
      intro parentId
      rw [Sandbox.forksOf, Sandbox.forksOf, sameForks]
    refine ⟨held, ?_, fun parentId => ?_, fun parentId member => ?_⟩
    · rw [samePending, owed.pending, holdings_keeps Call.pends found pends]
    · rw [forksOf, owed.forks, holdings_keeps Call.forksFrom found forks]
    · rw [forksOf]
      exact owed.counted parentId (sameForks ▸ member)
  | @enters branchId parentId free =>
    have pending : (state.sandbox.enter branchId parentId).pending.val = holdings Call.pends
        (state.calls.set c (.spawn ⟨branchId, parentId, .prepare⟩)) := by
      rw [holdings_takes Call.pends found rfl rfl, ← owed.pending]
      exact Finset.insert_val_of_notMem free
    cases parentId with
    | none =>
      refine ⟨held, pending, fun other => ?_, owed.counted⟩
      refine (owed.forks other).trans (congrArg (Multiset.count other) (Eq.symm ?_))
      exact holdings_keeps Call.forksFrom found rfl
    | some parentId =>
      refine ⟨held, pending, fun other => ?_, fun other member => ?_⟩
      · rw [Sandbox.forksOf_enter, holdings_takes Call.forksFrom found rfl rfl, Multiset.count_cons, ← owed.forks]
        split
        · next same => rw [same]
        · rfl
      · rw [Sandbox.forksOf_enter]
        split
        · exact Nat.succ_ne_zero _
        · next notSame => exact owed.counted other ((Dict.mem_insert.1 member).resolve_left notSame)
  | @leaves branchId parentId outcome =>
    have pending : (state.sandbox.leave branchId parentId).pending.val = holdings Call.pends
        (state.calls.set c (.spawn ⟨branchId, parentId, .finished outcome⟩)) := by
      rw [holdings_lets_go Call.pends found rfl rfl, ← owed.pending]
      exact Finset.erase_val ..
    cases parentId with
    | none =>
      refine ⟨held, pending, fun other => ?_, owed.counted⟩
      refine (owed.forks other).trans (congrArg (Multiset.count other) (Eq.symm ?_))
      exact holdings_keeps Call.forksFrom found rfl
    | some parentId =>
      refine ⟨held, pending, fun other => ?_, fun other member => ?_⟩
      · rw [Sandbox.forksOf_leave, holdings_lets_go Call.forksFrom found rfl rfl]
        split
        · next same => rw [same, Multiset.count_erase_self, ← owed.forks]
        · next notSame => rw [Multiset.count_erase_of_ne notSame, ← owed.forks]
      · by_cases same : other = parentId
        · subst same
          exact Sandbox.mem_leave member
        · rw [Sandbox.forksOf_leave, if_neg same]
          refine owed.counted other ?_
          simp only [Sandbox.leave] at member
          split at member
          · exact (Dict.mem_insert.1 member).resolve_left same
          · exact (Dict.mem_erase.1 member).2

theorem invoke (owed : Owed state) (op : Op) : Owed ⟨state.sandbox, state.calls ++ [op.call], state.clock + 1⟩ := by
  have nothing : ∀ {κ : Type} (held : Call → Option κ), held op.call = none →
      holdings held (state.calls ++ [op.call]) = holdings held state.calls := by
    intro κ held free
    rw [holdings_append, holdings_cons, free, Option.elim_none, holdings_nil, add_zero, add_zero]
  have free : op.call.lock = none ∧ op.call.pends = none ∧ op.call.forksFrom = none := by
    cases op <;> exact ⟨rfl, rfl, rfl⟩
  refine ⟨?_, ?_, fun parentId => ?_, owed.counted⟩
  · rw [nothing _ free.1]
    exact owed.held
  · rw [nothing _ free.2.1]
    exact owed.pending
  · rw [nothing _ free.2.2]
    exact owed.forks parentId

theorem step (owed : Owed state) (taken : state.Step config action next) : Owed next := by
  cases action with
  | invoke op =>
    cases taken
    exact owed.invoke op
  | step c env =>
    obtain ⟨call, found, taken⟩ := Option.bind_eq_some_iff.1 taken
    obtain ⟨⟨sandbox, after⟩, stepped, rfl⟩ := Option.map_eq_some_iff.1 taken
    exact owed.call found (Call.step_moves stepped)
  | guest vm =>
    simp only [State.Step, State.step] at taken
    split at taken
    · cases taken
      exact ⟨owed.held, owed.pending, owed.forks, owed.counted⟩
    · cases taken
  | exit vm =>
    cases taken
    obtain ⟨samePending, sameForks⟩ := SameSpawns.alter state.sandbox vm fun machine =>
      { Machine.stop state.clock machine with running := false }
    refine ⟨(congrArg Finset.val (Sandbox.held_alter ..)).trans owed.held,
      (congrArg Finset.val samePending).trans owed.pending, fun parentId => ?_, fun parentId member => ?_⟩
    · rw [← owed.forks, Sandbox.forksOf, Sandbox.exit, sameForks]
      rfl
    · rw [Sandbox.exit] at member ⊢
      rw [Sandbox.forksOf, sameForks]
      exact owed.counted parentId (sameForks ▸ member)

end Owed

theorem owed_fresh (disk : Disk Path Image) : Owed (State.fresh disk) where
  held := rfl
  pending := rfl
  forks _ := rfl
  counted _ member := absurd member (Dict.not_mem_empty _)

/-! ## Each step brings its call nearer to its end -/

def CapturePhase.left : CapturePhase → Nat
  | .sync => 6
  | .pause => 5
  | .snapshot => 4
  | .record => 3
  | .copyOverlay => 2
  | .resume _ => 1

def SpawnPhase.left : SpawnPhase → Nat
  | .admission => 21
  | .prepare => 20
  | .lock _ => 19
  | .acquire _ _ => 18
  | .inspect _ _ _ => 17
  | .capture _ phase => 10 + phase.left
  | .reuse _ _ _ => 11
  | .linkMem _ => 10
  | .linkState _ => 9
  | .launch _ => 8
  | .start _ _ => 7
  | .install _ => 6
  | .reseed _ => 5
  | .abort _ => 4
  | .reap _ => 3
  | .discard _ => 2
  | .settle _ => 1
  | .refused _ | .finished _ => 0

def ExecPhase.left : ExecPhase → Nat
  | .lock => 5
  | .acquire _ => 4
  | .inspect _ => 3
  | .run _ => 2
  | .bump _ _ => 1
  | .refused _ | .finished _ _ => 0

def CheckpointPhase.left : CheckpointPhase → Nat
  | .lock => 9
  | .acquire _ => 8
  | .inspect _ _ => 7
  | .capture _ phase => phase.left
  | .finished _ => 0

def KillPhase.left : KillPhase → Nat
  | .wait => 5
  | .reap _ => 4
  | .recover => 3
  | .cleanup _ => 2
  | .dropLock => 1
  | .finished _ => 0

/-- The most steps that the call can still make. -/
def Call.left : Call → Nat
  | .spawn task => task.phase.left
  | .exec task => task.phase.left
  | .checkpoint task => task.phase.left
  | .kill task => task.phase.left

def State.left (state : State) : Nat := (state.calls.map Call.left).sum

section Ranks

variable {config : Config} {env : Env} {now : Instant} {sandbox after : Sandbox} {call next : Call}

theorem CapturePhase.left_bounds (phase : CapturePhase) : 1 ≤ phase.left ∧ phase.left ≤ 6 := by
  cases phase <;> simp [CapturePhase.left]

theorem left_staging (config : Config) (handed : Handed) : (SpawnPhase.staging config handed).left ≤ 10 := by
  unfold SpawnPhase.staging
  split <;> simp [SpawnPhase.left]

theorem CaptureMove.nearer {capture : Capture} {phase : CapturePhase} {result : CaptureResult}
    (move : CaptureMove env now sandbox capture phase after result) :
    ∀ later work, result = .goes later work → work.left < phase.left := by
  intro later work isGoes
  cases move with
  | paused =>
    cases isGoes
    split <;> simp [CapturePhase.left]
  | recorded =>
    cases isGoes
    split <;> simp [CapturePhase.left]
  | returned => cases isGoes
  | raised => cases isGoes
  | _ =>
    cases isGoes
    simp [CapturePhase.left]

theorem SpawnMove.nearer {branchId : BranchId} {parentId : Option BranchId} {before phase : SpawnPhase}
    (move : SpawnMove config env now sandbox branchId parentId before after phase) : phase.left < before.left := by
  cases move with
  | captures _ isPhase => obtain rfl | rfl := isPhase <;> simp [SpawnPhase.left, CapturePhase.left]
  | finds => exact Nat.lt_of_le_of_lt (left_staging ..) (by simp [SpawnPhase.left])
  | reuses => exact Nat.lt_of_le_of_lt (left_staging ..) (by simp [SpawnPhase.left])
  | @captured capture phase after result move =>
    have bounds := phase.left_bounds
    cases result with
    | goes later work =>
      have nearer := move.nearer later work rfl
      simp only [CaptureResult.forked, SpawnPhase.left]
      omega
    | returned later =>
      refine Nat.lt_of_le_of_lt (left_staging ..) ?_
      simp only [SpawnPhase.left]
      omega
    | raised =>
      simp only [CaptureResult.forked, SpawnPhase.left]
      omega
  | fails raises => obtain rfl | ⟨_, rfl⟩ | ⟨_, rfl⟩ | ⟨_, rfl⟩ := raises <;> simp [SpawnPhase.left]
  | aborts raises => obtain ⟨_, rfl⟩ | rfl | rfl := raises <;> simp [SpawnPhase.left]
  | _ => simp [SpawnPhase.left]

theorem CheckpointMove.nearer {branchId : BranchId} {before phase : CheckpointPhase}
    (move : CheckpointMove env now sandbox branchId before after phase) : phase.left < before.left := by
  cases move with
  | finds _ isPhase => obtain rfl | rfl := isPhase <;> simp [CheckpointPhase.left, CapturePhase.left]
  | @captured capture phase after result move =>
    have bounds := phase.left_bounds
    cases result with
    | goes later work => exact move.nearer later work rfl
    | returned later => exact bounds.1
    | raised => exact bounds.1
  | _ => simp [CheckpointPhase.left]

theorem killStep_nearer {task : KillTask} {phase : KillPhase} (taken : killStep env now sandbox task = some (after, phase)) :
    phase.left < task.phase.left := by
  obtain ⟨branchId, before⟩ := task
  cases before <;> simp only [killStep] at taken
  · split at taken
    · cases taken
    · split at taken <;> cases taken <;> simp [KillPhase.left]
  · cases taken
    simp [KillPhase.left]
  · split at taken <;> cases taken <;> simp [KillPhase.left]
  · split at taken <;> cases taken
    · split <;> simp [KillPhase.left]
    · simp [KillPhase.left]
  · cases taken
    simp [KillPhase.left]
  · cases taken

theorem Call.nearer (taken : call.step config env now sandbox = some (after, next)) : next.left < call.left := by
  have move := Call.step_moves taken
  cases move with
  | spawn move => exact move.nearer
  | exec move => cases move <;> simp [Call.left, ExecPhase.left]
  | checkpoint move => exact move.nearer
  | kill move =>
    obtain ⟨⟨_, phase⟩, stepped, equal⟩ := Option.map_eq_some_iff.1 taken
    cases equal
    exact killStep_nearer stepped

/-! ## Some call goes on -/

theorem acquire_free {lock : Nat} (free : lock ∉ sandbox.held) : (sandbox.acquire lock).isSome = true := by
  rw [Sandbox.acquire, if_neg free]
  rfl

theorem spawnStep_ready (config : Config) (env : Env) (now : Instant) {task : SpawnTask}
    (unfinished : (Call.spawn task).finished = false)
    (free : ∀ branchId lock, (Call.spawn task).waiting = some (branchId, lock) → lock ∉ sandbox.held) :
    (spawnStep config env now sandbox task).isSome = true := by
  obtain ⟨branchId, parentId, phase⟩ := task
  cases phase with
  | acquire source lock =>
    rw [spawnStep, Option.isSome_map]
    exact acquire_free (free source lock rfl)
  | refused fault => cases unfinished
  | finished outcome => cases unfinished
  | _ =>
    simp only [spawnStep]
    grind

theorem execStep_ready (env : Env) (now : Instant) {task : ExecTask} (unfinished : (Call.exec task).finished = false)
    (free : ∀ branchId lock, (Call.exec task).waiting = some (branchId, lock) → lock ∉ sandbox.held) :
    (execStep env now sandbox task).isSome = true := by
  obtain ⟨branchId, detached, phase⟩ := task
  cases phase with
  | acquire lock =>
    rw [execStep, Option.isSome_map]
    exact acquire_free (free branchId lock rfl)
  | refused fault => cases unfinished
  | finished outcome returnedAt => cases unfinished
  | _ =>
    simp only [execStep]
    grind

theorem checkpointStep_ready (config : Config) (env : Env) (now : Instant) {task : CheckpointTask}
    (unfinished : (Call.checkpoint task).finished = false)
    (free : ∀ branchId lock, (Call.checkpoint task).waiting = some (branchId, lock) → lock ∉ sandbox.held) :
    (checkpointStep config env now sandbox task).isSome = true := by
  obtain ⟨branchId, phase⟩ := task
  cases phase with
  | acquire lock =>
    rw [checkpointStep, Option.isSome_map]
    exact acquire_free (free branchId lock rfl)
  | finished outcome => cases unfinished
  | _ =>
    simp only [checkpointStep]
    grind

theorem killStep_ready (env : Env) (now : Instant) {task : KillTask} (unfinished : (Call.kill task).finished = false)
    (clear : ∀ branchId, (Call.kill task).killWaits = some branchId →
      sandbox.forksOf branchId = 0 ∧ branchId ∉ sandbox.pending) : (killStep env now sandbox task).isSome = true := by
  obtain ⟨branchId, phase⟩ := task
  cases phase with
  | wait =>
    obtain ⟨noForks, notPending⟩ := clear branchId rfl
    simp only [killStep, noForks, notPending]
    grind
  | finished outcome => cases unfinished
  | _ =>
    simp only [killStep]
    grind

/-- Only a lock that is held and what a kill waits for keep a call from its next step. -/
theorem Call.ready (config : Config) (env : Env) (now : Instant) (unfinished : call.finished = false)
    (free : ∀ branchId lock, call.waiting = some (branchId, lock) → lock ∉ sandbox.held)
    (clear : ∀ branchId, call.killWaits = some branchId → sandbox.forksOf branchId = 0 ∧ branchId ∉ sandbox.pending) :
    (call.step config env now sandbox).isSome = true := by
  cases call with
  | spawn task =>
    rw [Call.step, Option.isSome_map]
    exact spawnStep_ready config env now unfinished free
  | exec task =>
    rw [Call.step, Option.isSome_map]
    exact execStep_ready env now unfinished free
  | checkpoint task =>
    rw [Call.step, Option.isSome_map]
    exact checkpointStep_ready config env now unfinished free
  | kill task =>
    rw [Call.step, Option.isSome_map]
    exact killStep_ready env now unfinished clear

/-- A call that holds a lock waits for nothing. -/
theorem unfinished_of_lock {lock : Nat} (holds : call.lock = some lock) :
    call.finished = false ∧ call.waiting = none ∧ call.killWaits = none := by
  cases call with
  | spawn task =>
    obtain ⟨branchId, parentId, phase⟩ := task
    cases phase <;> first | exact ⟨rfl, rfl, rfl⟩ | cases holds
  | exec task =>
    obtain ⟨branchId, detached, phase⟩ := task
    cases phase <;> first | exact ⟨rfl, rfl, rfl⟩ | cases holds
  | checkpoint task =>
    obtain ⟨branchId, phase⟩ := task
    cases phase <;> first | exact ⟨rfl, rfl, rfl⟩ | cases holds
  | kill task => cases holds

theorem unfinished_of_active {task : SpawnTask} (active : task.phase.active = true) :
    (Call.spawn task).finished = false := by
  obtain ⟨branchId, parentId, phase⟩ := task
  cases phase with
  | refused fault => cases active
  | finished outcome => cases active
  | _ => rfl

/-- A branch is pending, and a parent counted, for a spawn that is under way. -/
theorem unfinished_of_spawns {branchId : BranchId} (spawns : call.pends = some branchId ∨ call.forksFrom = some branchId) :
    call.finished = false ∧ call.killWaits = none := by
  cases call with
  | spawn task =>
    refine ⟨unfinished_of_active (Classical.byContradiction fun inactive => ?_), rfl⟩
    simp [Call.pends, Call.forksFrom, inactive] at spawns
  | exec task => obtain isNone | isNone := spawns <;> cases isNone
  | checkpoint task => obtain isNone | isNone := spawns <;> cases isNone
  | kill task => obtain isNone | isNone := spawns <;> cases isNone

end Ranks

namespace Owed

variable {config : Config} {state : State}

theorem holder (owed : Owed state) {lock : Nat} (isHeld : lock ∈ state.sandbox.held) :
    ∃ call ∈ state.calls, call.lock = some lock := by
  rw [← Finset.mem_val, owed.held] at isHeld
  exact mem_holdings.1 isHeld

theorem spawner (owed : Owed state) {branchId : BranchId} (isPending : branchId ∈ state.sandbox.pending) :
    ∃ call ∈ state.calls, call.pends = some branchId := by
  rw [← Finset.mem_val, owed.pending] at isPending
  exact mem_holdings.1 isPending

/-- As long as a call is not finished there is one that can make its next step, whatever it meets. -/
theorem goes_on (owed : Owed state) (unfinished : ∃ call ∈ state.calls, call.finished = false) :
    ∃ c, ∀ env, (state.step config (.step c env)).isSome = true := by
  have steps : ∀ call ∈ state.calls, (∀ env, (call.step config env state.clock state.sandbox).isSome = true) →
      ∃ c, ∀ env, (state.step config (.step c env)).isSome = true := by
    intro call member ready
    obtain ⟨c, found⟩ := List.getElem?_of_mem member
    refine ⟨c, fun env => ?_⟩
    rw [State.step, found, Option.bind_some, Option.isSome_map]
    exact ready env
  by_cases running : ∃ call ∈ state.calls, call.finished = false ∧ call.waiting = none ∧ call.killWaits = none
  · obtain ⟨call, member, unfinished, noLock, noKill⟩ := running
    refine steps call member fun env => Call.ready config env state.clock unfinished ?_ ?_
    · intro branchId lock waits
      rw [noLock] at waits
      cases waits
    · intro branchId waits
      rw [noKill] at waits
      cases waits
  -- nobody holds a lock, so a call that waits for one gets it
  have noLock : ∀ lock, lock ∉ state.sandbox.held := by
    intro lock isHeld
    obtain ⟨call, member, holds⟩ := owed.holder isHeld
    exact running ⟨call, member, unfinished_of_lock holds⟩
  by_cases locking : ∃ call ∈ state.calls, call.finished = false ∧ call.killWaits = none
  · obtain ⟨call, member, unfinished, noKill⟩ := locking
    refine steps call member fun env => Call.ready config env state.clock unfinished (fun _ lock _ => noLock lock) ?_
    intro branchId waits
    rw [noKill] at waits
    cases waits
  -- no spawn is under way, so a kill need not wait
  have noSpawn : ∀ branchId, ¬ ∃ call ∈ state.calls, call.pends = some branchId ∨ call.forksFrom = some branchId := by
    intro branchId isSpawn
    obtain ⟨call, member, spawns⟩ := isSpawn
    exact locking ⟨call, member, unfinished_of_spawns spawns⟩
  obtain ⟨call, member, unfinished⟩ := unfinished
  refine steps call member fun env => Call.ready config env state.clock unfinished (fun _ lock _ => noLock lock) ?_
  intro branchId _
  refine ⟨?_, fun isPending => ?_⟩
  · rw [owed.forks, Multiset.count_eq_zero]
    intro isCounted
    obtain ⟨other, isOther, forks⟩ := mem_holdings.1 isCounted
    exact noSpawn branchId ⟨other, isOther, .inr forks⟩
  · obtain ⟨other, isOther, pends⟩ := owed.spawner isPending
    exact noSpawn branchId ⟨other, isOther, .inl pends⟩

/-- Calls that are finished leave no lock, no id and no count behind. -/
theorem cleared (owed : Owed state) (finished : ∀ call ∈ state.calls, call.finished = true) :
    state.sandbox.held = ∅ ∧ state.sandbox.pending = ∅ ∧ ∀ parentId, parentId ∉ state.sandbox.parentForks := by
  have none : ∀ call ∈ state.calls, call.finished ≠ false := fun call member isFalse => by
    rw [finished call member] at isFalse
    cases isFalse
  refine ⟨Finset.eq_empty_of_forall_notMem fun lock isHeld => ?_,
    Finset.eq_empty_of_forall_notMem fun branchId isPending => ?_, fun parentId isCounted => ?_⟩
  · obtain ⟨call, member, holds⟩ := owed.holder isHeld
    exact none call member (unfinished_of_lock holds).1
  · obtain ⟨call, member, pends⟩ := owed.spawner isPending
    exact none call member (unfinished_of_spawns (.inl pends)).1
  · have positive := owed.counted parentId isCounted
    rw [owed.forks, ← Nat.pos_iff_ne_zero, Multiset.count_pos] at positive
    obtain ⟨call, member, forks⟩ := mem_holdings.1 positive
    exact none call member (unfinished_of_spawns (.inr forks)).1

end Owed

/-! ## Runs -/

theorem left_set {calls : List Call} {c : Nat} {before after : Call} (found : calls[c]? = some before) :
    ((calls.set c after).map Call.left).sum + before.left = (calls.map Call.left).sum + after.left := by
  induction calls generalizing c with
  | nil => cases found
  | cons call calls inductionHypothesis =>
    cases c with
    | zero =>
      cases found
      simp only [List.set_cons_zero, List.map_cons, List.sum_cons]
      omega
    | succ c =>
      have rest := inductionHypothesis found
      simp only [List.set_cons_succ, List.map_cons, List.sum_cons]
      omega

/-- It is a step of a call. -/
def Action.steps : Action → Bool
  | .step _ _ => true
  | .invoke _ | .guest _ | .exit _ => false

def Action.invokes : Action → Bool
  | .invoke _ => true
  | .step _ _ | .guest _ | .exit _ => false

namespace State

variable {config : Config} {state next : State} {action : Action}

/-- A step of a call uses up one of the steps that are left, and nothing but a new call adds any. -/
theorem left_step (taken : state.step config action = some next) (noCall : action.invokes = false) :
    next.left + action.steps.toNat ≤ state.left := by
  cases action with
  | invoke op => cases noCall
  | step c env =>
    obtain ⟨call, found, taken⟩ := Option.bind_eq_some_iff.1 taken
    obtain ⟨⟨sandbox, after⟩, stepped, rfl⟩ := Option.map_eq_some_iff.1 taken
    have nearer := Call.nearer stepped
    have moved := @left_set _ _ _ after found
    simp only [left, Action.steps, Bool.toNat_true]
    omega
  | guest vm =>
    simp only [State.step] at taken
    split at taken
    · cases taken
      exact Nat.le_refl _
    · cases taken
  | exit vm =>
    cases taken
    exact Nat.le_refl _

theorem left_run {actions : List Action} : ∀ {state : State}, run (step config) state actions = some next →
    (∀ action ∈ actions, action.invokes = false) → next.left + actions.countP Action.steps ≤ state.left := by
  induction actions with
  | nil =>
    intro state ran _
    cases ran
    exact Nat.le_refl _
  | cons action actions inductionHypothesis =>
    intro state ran noCall
    obtain ⟨middle, taken, ran⟩ := Option.bind_eq_some_iff.1 ran
    have first := left_step taken (noCall action List.mem_cons_self)
    have rest := inductionHypothesis ran fun other member => noCall other (List.mem_cons_of_mem _ member)
    rw [List.countP_cons]
    cases steps : action.steps <;> simp only [steps, Bool.toNat_true, Bool.toNat_false] at first ⊢ <;> grind

end State

/-- Whatever fails, whichever VMMs end and in whatever order the calls go on: as long as a call is
not finished, some call can make its next step; calls that are not joined by new ones make a bounded
number of steps; and once all are finished no lock is held, no branch is pending and no fork counted. -/
theorem sandbox_calls_end {config : Config} {disk : Disk Path Image} {state : State}
    (reached : Reachable (State.Step config) always (State.fresh disk) state) :
    ((∃ call ∈ state.calls, call.finished = false) → ∃ c, ∀ env, (state.step config (.step c env)).isSome = true) ∧
      (∀ actions next, run (State.step config) state actions = some next →
        (∀ action ∈ actions, action.invokes = false) → actions.countP Action.steps ≤ state.left) ∧
      ((∀ call ∈ state.calls, call.finished = true) → state.sandbox.held = ∅ ∧ state.sandbox.pending = ∅ ∧
        ∀ parentId, parentId ∉ state.sandbox.parentForks) := by
  have owed : Owed state := reached.invariant (owed_fresh disk) fun _ _ _ owed _ taken => owed.step taken
  refine ⟨owed.goes_on, fun actions next ran noCall => ?_, owed.cleared⟩
  have bound := State.left_run ran noCall
  omega

/-- A fork holds its parent's lock, an exec waits for it and a kill of the parent for the fork. -/
def crossedCalls : List Action :=
  .invoke (.spawn "p" none) :: List.replicate 6 (.step 0 works) ++ [.invoke (.spawn "c" (some "p"))] ++
    List.replicate 4 (.step 1 works) ++ [.invoke (.kill "p"), .invoke (.exec "p"), .step 3 works]

theorem crossedCalls_go_on : (∃ call ∈ (sandboxRun plain crossedCalls).calls, call.waiting.isSome = true) ∧
    ∃ c, ∀ env, ((sandboxRun plain crossedCalls).step plain (.step c env)).isSome = true :=
  ⟨by decide, (sandbox_calls_end (sandboxRun_reachable (by decide) meets_always)).1 (by decide)⟩

end Agentfork.Firecracker.Snapshots

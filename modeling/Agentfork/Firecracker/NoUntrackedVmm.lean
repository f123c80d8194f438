import Agentfork.Firecracker.Tracking

/-! # No untracked VMM

`spawn` marks its branch and `kill` waits for the mark, but `restart` neither sets
nor heeds it, a spawn does not wait for a kill, and a restart that fails keeps no
hold on the VMM it has started. In runs without such a collision or failure every
VMM that runs for an idle branch is tracked, and a kill that returns has ended
them all. -/

namespace Agentfork.Firecracker

open Sandbox Transition

variable {vmmComm : String} {env : Env} {state after : State}

/-! ## Runs without collisions -/

namespace State

def busy (state : State) (kind : Call → Bool) (branchId : BranchId) : Bool :=
  state.calls.any fun call => decide (call.branchId = branchId) && kind call

theorem busy_eq_false {kind : Call → Bool} {branchId : BranchId} : state.busy kind branchId = false ↔
    ∀ call ∈ state.calls, call.branchId = branchId → kind call = false := by
  simp [busy]

/-- A call begins to work on a branch on which another one is at work, other than
a spawn that waits its turn or one more kill. -/
def collides (state : State) : Action → Bool
  | .step c env =>
    match state.calls[c]? with
    | some (.spawn ⟨branchId, _, .admission⟩) =>
      decide (branchId ∉ state.sandbox.vms ∧ branchId ∉ state.sandbox.pending) &&
        (state.busy Call.restarting branchId || state.busy Call.killing branchId)
    | some (.restart ⟨branchId, .paths⟩) =>
      env.checkpoint && decide (env.reply = .returned) &&
        (decide (branchId ∈ state.sandbox.vms) || state.busy Call.spawning branchId ||
          state.busy Call.restarting branchId || state.busy Call.killing branchId)
    | some (.kill ⟨branchId, .wait⟩) => state.busy Call.restarting branchId
    | _ => false
  | _ => false

/-- A restart fails between the start of its VMM and its installation. -/
def abandons (state : State) : Action → Bool
  | .step c env =>
    match state.calls[c]? with
    | some (.restart ⟨_, .restore _⟩) => decide (env.reply ≠ .returned)
    | some (.restart ⟨_, .record _⟩) => decide (env.reply ≠ .returned)
    | _ => false
  | _ => false

def Careful (state : State) (action : Action) : Prop :=
  state.collides action = false ∧ state.abandons action = false

instance (state : State) (action : Action) : Decidable (state.Careful action) :=
  inferInstanceAs (Decidable (_ ∧ _))

theorem Careful.attempts {c : Nat} {task : RestartTask} (careful : state.Careful (.step c env))
    (found : state.calls[c]? = some (.restart task)) (vm : MicroVM)
    (held : task.phase = .restore vm ∨ task.phase = .record vm) : env.reply = .returned := by
  obtain ⟨branchId, phase⟩ := task
  have kept := careful.2
  obtain atRestore | atRecord := held
  · simp only at atRestore
    subst atRestore
    simpa only [abandons, found, ne_eq, decide_not, Bool.not_eq_false', decide_eq_true_eq] using kept
  · simp only at atRecord
    subst atRecord
    simpa only [abandons, found, ne_eq, decide_not, Bool.not_eq_false', decide_eq_true_eq] using kept

/-- Nothing on the branch can become a VMM. -/
structure Quiet (state : State) (branchId : BranchId) : Prop where
  untracked : branchId ∉ state.sandbox.vms
  nobody : ∀ call ∈ state.calls, call.branchId = branchId → call.spawning = false ∧ call.restarting = false

end State

/-- The invariant. -/
structure Supervised (state : State) : Prop where
  owned : Owned supervision state.sandbox.view (fun c : Nat => state.calls[c]?)
  quiet : ∀ call ∈ state.calls, call.killing = true → state.Quiet call.branchId

/-! ## What one call can do -/

/-- A step of the call from `call` to `next`, in front of the other calls. -/
structure Call.Moves (state : State) (call : Call) (sandbox : Sandbox) (next : Call) : Prop where
  key : next.branchId = call.branchId
  elsewhere : ∀ other, other ≠ call.branchId → (state.sandbox.view other).Shrinks (sandbox.view other)
  enters : call.active = false → next.active = true →
    (∀ worker ∈ state.calls, worker.active = true → worker.branchId ≠ call.branchId) ∧
      next.Owns (sandbox.view call.branchId)
  runs : call.active = true → call.Owns (state.sandbox.view call.branchId) → next.active = true →
    next.Owns (sandbox.view call.branchId)
  leaves : call.active = true → call.Owns (state.sandbox.view call.branchId) → next.active = false →
    (sandbox.view call.branchId).Tracked
  refuses : call.active = false → next.active = false →
    (state.sandbox.view call.branchId).Shrinks (sandbox.view call.branchId)
  /-- a kill begins on a quiet branch -/
  begins : call.killing = false → next.killing = true → call.branchId ∉ sandbox.vms ∧
    ∀ worker ∈ state.calls, worker.branchId = call.branchId →
      worker.spawning = false ∧ worker.restarting = false
  /-- and the branch stays quiet until it returns -/
  stays : state.Quiet call.branchId → call.spawning = false → call.restarting = false →
    state.busy Call.killing call.branchId = true →
      call.branchId ∉ sandbox.vms ∧ next.spawning = false ∧ next.restarting = false

theorem active_spawn {task : SpawnTask} (begun : task.phase ≠ .admission)
    (unfinished : ∀ outcome, task.phase ≠ .finished outcome) :
    (Call.spawn task).active = true ∧ (Call.spawn task).spawning = true := by
  obtain ⟨_, _, phase⟩ := task
  cases phase with
  | admission => exact absurd rfl begun
  | finished outcome => exact absurd rfl (unfinished outcome)
  | _ => exact ⟨rfl, rfl⟩

/-- An admitted spawn keeps its mark until it is over. -/
theorem spawnStep_pending {env : Env} {sandbox after : Sandbox} {task : SpawnTask} {phase : SpawnPhase}
    (begun : task.phase ≠ .admission) (running : ∀ outcome, phase ≠ .finished outcome)
    (taken : spawnStep env sandbox task = some (after, phase)) :
    (after.view task.branchId).pending = (sandbox.view task.branchId).pending := by
  unfold spawnStep at taken
  cases atPhase : task.phase with
  | admission => exact absurd atPhase begun
  | prepare | boot | record | connect =>
    simp only [atPhase] at taken
    cases replied : env.reply <;> simp only [replied] at taken <;> cases taken <;> rfl
  | launch =>
    simp only [atPhase] at taken
    cases replied : env.reply with
    | returned =>
      simp only [replied] at taken
      obtain ⟨⟨vm, launchedSandbox⟩, launched, equal⟩ := Option.map_eq_some_iff.1 taken
      cases equal
      exact (tracked_launch launched).2
    | raised tookEffect =>
      simp only [replied] at taken
      cases taken
      rfl
  | install | abort | reap =>
    simp only [atPhase] at taken
    cases taken
    rfl
  | reseed =>
    simp only [atPhase] at taken
    split at taken <;> cases taken <;> rfl
  | discard =>
    simp only [atPhase] at taken
    cases taken
    split <;> rfl
  | settle outcome =>
    simp only [atPhase] at taken
    cases taken
    exact absurd rfl (running outcome)
  | finished outcome =>
    simp only [atPhase] at taken
    cases taken

theorem Call.killing_of_reaping {call : Call} (reaping : call.reaping = true) : call.killing = true := by
  cases call with
  | spawn task => cases reaping
  | restart task => cases reaping
  | kill task => obtain ⟨_, phase⟩ := task; cases phase <;> first | rfl | cases reaping

/-- A kill takes a handle in its first step only. -/
theorem killStep_inactive {env : Env} {sandbox after : Sandbox} {task : KillTask} {phase : KillPhase}
    (taken : killStep vmmComm env sandbox task = some (after, phase)) (begun : task.phase ≠ .wait) :
    (Call.kill ⟨task.branchId, phase⟩).active = false := by
  unfold killStep at taken
  cases atPhase : task.phase with
  | wait => exact absurd atPhase begun
  | reap vm =>
    simp only [atPhase] at taken
    cases taken
    rfl
  | readRecord | cleanup =>
    simp only [atPhase] at taken
    split at taken <;> cases taken <;> rfl
  | signal record =>
    simp only [atPhase] at taken
    split at taken
    · cases taken
      rfl
    · split at taken <;> cases taken <;> rfl
  | finished outcome =>
    simp only [atPhase] at taken
    cases taken

namespace Supervised

variable {c : Nat} {sandbox : Sandbox}

/-- Where no mark is, no spawn is at work. -/
theorem no_spawn (supervised : Supervised state) {branchId : BranchId}
    (unmarked : branchId ∉ state.sandbox.pending) :
    ∀ worker ∈ state.calls, worker.branchId = branchId → worker.spawning = false := by
  intro worker member same
  by_contra spawning
  have spawning : worker.spawning = true := by simpa using spawning
  have active : worker.active = true := by simp [Call.active, spawning]
  obtain ⟨i, found⟩ := List.mem_iff_getElem?.1 member
  have owns := supervised.owned.owns i worker found active
  cases worker with
  | spawn task => exact unmarked (same ▸ owns.1)
  | restart task => cases spawning
  | kill task => cases spawning

/-- Nobody works on a branch that has no mark and on which no restart and no
kill is at work. -/
theorem nobody (supervised : Supervised state) {branchId : BranchId}
    (unmarked : branchId ∉ state.sandbox.pending) (noRestart : state.busy Call.restarting branchId = false)
    (noKill : ∀ call ∈ state.calls, call.branchId = branchId → call.reaping = false) :
    ∀ worker ∈ state.calls, worker.active = true → worker.branchId ≠ branchId := by
  intro worker member active same
  have noSpawn := supervised.no_spawn unmarked worker member same
  have noRestart := State.busy_eq_false.1 noRestart worker member same
  simp [Call.active, noSpawn, noRestart, noKill worker member same] at active

theorem idle (supervised : Supervised state) {branchId : BranchId}
    (nobody : ∀ worker ∈ state.calls, worker.active = true → worker.branchId ≠ branchId) :
    (state.sandbox.view branchId).Tracked :=
  supervised.owned.idle branchId fun _ worker found active =>
    nobody worker (List.mem_of_getElem? found) active

theorem spawn_moves (supervised : Supervised state) {task : SpawnTask} {phase : SpawnPhase}
    (found : state.calls[c]? = some (.spawn task)) (careful : state.Careful (.step c env))
    (taken : spawnStep env state.sandbox task = some (sandbox, phase)) :
    (Call.spawn task).Moves state sandbox (.spawn { task with phase := phase }) := by
  have elsewhere := fun (other : BranchId) (differs : other ≠ task.branchId) =>
    spawnStep_elsewhere taken differs
  by_cases atAdmit : task.phase = .admission
  · obtain ⟨branchId, parentId, _⟩ := task
    simp only at atAdmit
    subst atAdmit
    simp only [spawnStep] at taken
    split at taken
    · cases taken
      exact ⟨rfl, elsewhere, nofun, nofun, nofun, fun _ _ => View.Shrinks.refl _, nofun,
        fun quiet _ _ _ => ⟨quiet.untracked, rfl, rfl⟩⟩
    · next free =>
      cases taken
      rw [not_or] at free
      have apart := careful.1
      simp only [State.collides, found, free, not_false_eq_true, and_self, decide_true, Bool.true_and,
        Bool.or_eq_false_iff] at apart
      obtain ⟨noRestart, noKill⟩ := apart
      have nobody := supervised.nobody free.2 noRestart fun call member same => by
        by_contra reaping
        have killing := Call.killing_of_reaping (by simpa using reaping)
        rw [State.busy_eq_false.1 noKill call member same] at killing
        cases killing
      have tracked := supervised.idle nobody
      have untracked := view_tracked_none.2 free.1
      refine ⟨rfl, elsewhere, fun _ _ => ⟨nobody, ?_⟩, nofun, nofun, nofun, nofun, fun _ _ _ killing => ?_⟩
      · show (_ : Prop) ∧ _
        rw [show (Call.spawn ⟨branchId, parentId, .admission⟩).branchId = branchId from rfl, view_enter, if_pos rfl]
        refine ⟨trivial, untracked, fun proc running => ?_⟩
        have isTracked := tracked proc running
        rw [untracked] at isTracked
        cases isTracked
      · rw [show (Call.spawn ⟨branchId, parentId, .admission⟩).branchId = branchId from rfl, noKill] at killing
        cases killing
  · have unfinished : ∀ outcome, task.phase ≠ .finished outcome := by
      intro outcome isFinished
      simp only [spawnStep, isFinished] at taken
      cases taken
    obtain ⟨active, spawning⟩ := active_spawn atAdmit unfinished
    refine ⟨rfl, elsewhere, fun inactive => ?_, fun _ owns running => ?_, fun _ owns ended => ?_,
      fun inactive => ?_, nofun, fun _ notSpawning => ?_⟩
    · rw [active] at inactive
      cases inactive
    · have here := spawnStep_phase owns.2 taken
      have goesOn : ∀ outcome, phase ≠ .finished outcome := by
        rintro outcome rfl
        cases running
      exact ⟨spawnStep_pending atAdmit goesOn taken ▸ owns.1, here⟩
    · have here := spawnStep_phase owns.2 taken
      cases phase with
      | finished outcome => exact here
      | admission => exact here.elim
      | _ => cases ended
    · rw [active] at inactive
      cases inactive
    · rw [spawning] at notSpawning
      cases notSpawning

theorem restart_moves (supervised : Supervised state) {task : RestartTask} {phase : RestartPhase}
    (found : state.calls[c]? = some (.restart task)) (careful : state.Careful (.step c env))
    (taken : restartStep env state.sandbox task = some (sandbox, phase)) :
    (Call.restart task).Moves state sandbox (.restart { task with phase := phase }) := by
  have elsewhere := fun (other : BranchId) (differs : other ≠ task.branchId) =>
    restartStep_elsewhere taken differs
  obtain ⟨branchId, before⟩ := task
  cases before with
  | lookup =>
    simp only [restartStep] at taken
    split at taken
    · cases taken
      exact ⟨rfl, elsewhere, nofun, nofun, nofun, fun _ _ => View.Shrinks.refl _, nofun,
        fun quiet _ _ _ => ⟨quiet.untracked, rfl, rfl⟩⟩
    · next notPolled =>
      cases taken
      refine ⟨rfl, elsewhere, nofun, nofun, nofun, fun _ _ => ?_, nofun, fun _ _ _ _ => ⟨?_, rfl, rfl⟩⟩
      · -- the handle dropped is that of a VMM that has ended
        show (state.sandbox.view branchId).Shrinks ((state.sandbox.untrack branchId).view branchId)
        rw [view_untrack, if_pos rfl]
        refine ⟨rfl, fun _ running => running, .inr ⟨rfl, fun proc tracked running => notPolled ?_⟩⟩
        obtain ⟨vm, held, rfl⟩ := Option.map_eq_some_iff.1 tracked
        obtain ⟨process, stored, _⟩ := running
        rw [held, Option.any_some]
        exact decide_eq_true (Dict.mem_of_get? stored)
      · show branchId ∉ (state.sandbox.untrack branchId).vms
        rw [← view_tracked_none, view_untrack, if_pos rfl]
  | paths =>
    simp only [restartStep] at taken
    cases replied : env.reply with
    | raised tookEffect =>
      simp only [replied] at taken
      cases taken
      exact ⟨rfl, elsewhere, nofun, nofun, nofun, fun _ _ => View.Shrinks.refl _, nofun,
        fun quiet _ _ _ => ⟨quiet.untracked, rfl, rfl⟩⟩
    | returned =>
      simp only [replied, Option.some.injEq, Prod.mk.injEq] at taken
      obtain ⟨rfl, isPhase⟩ := taken
      cases checkpoint : env.checkpoint with
      | false =>
        rw [checkpoint] at isPhase
        subst isPhase
        exact ⟨rfl, elsewhere, nofun, nofun, nofun, fun _ _ => View.Shrinks.refl _, nofun,
          fun quiet _ _ _ => ⟨quiet.untracked, rfl, rfl⟩⟩
      | true =>
        rw [checkpoint] at isPhase
        subst isPhase
        have apart := careful.1
        simp only [State.collides, found, checkpoint, replied, decide_true, Bool.true_and,
          Bool.or_eq_false_iff, decide_eq_false_iff_not] at apart
        obtain ⟨⟨⟨notTracked, noSpawn⟩, noRestart⟩, noKill⟩ := apart
        have nobody : ∀ worker ∈ state.calls, worker.active = true → worker.branchId ≠ branchId := by
          intro worker member active same
          have noSpawn := State.busy_eq_false.1 noSpawn worker member same
          have noRestart := State.busy_eq_false.1 noRestart worker member same
          have noKill := State.busy_eq_false.1 noKill worker member same
          have reaping : worker.reaping = true := by
            simpa [Call.active, noSpawn, noRestart] using active
          rw [Call.killing_of_reaping reaping] at noKill
          cases noKill
        have tracked := supervised.idle nobody
        have untracked := view_tracked_none.2 notTracked
        refine ⟨rfl, elsewhere, fun _ _ => ⟨nobody, untracked, fun proc running => ?_⟩, nofun, nofun, nofun,
          nofun, fun _ _ _ killing => ?_⟩
        · have isTracked := tracked proc running
          rw [untracked] at isTracked
          cases isTracked
        · rw [show (Call.restart ⟨branchId, .paths⟩).branchId = branchId from rfl, noKill] at killing
          cases killing
  | finished outcome => cases taken
  | _ =>
    have here := fun owns => restartStep_phase (careful.attempts found) owns taken
    refine ⟨rfl, elsewhere, nofun, fun _ owns _ => here owns, fun _ owns ended => ?_, nofun, nofun,
      fun _ _ notRestarting => ?_⟩
    · cases phase with
      | finished outcome => exact here owns
      | lookup | paths => exact (here owns).elim
      | _ => cases ended
    · cases notRestarting

theorem kill_moves (supervised : Supervised state) {task : KillTask} {phase : KillPhase}
    (found : state.calls[c]? = some (.kill task)) (careful : state.Careful (.step c env))
    (taken : killStep vmmComm env state.sandbox task = some (sandbox, phase)) :
    (Call.kill task).Moves state sandbox (.kill { task with phase := phase }) := by
  have elsewhere := fun other (differs : other ≠ task.branchId) => killStep_shrinks taken (.inl differs)
  obtain ⟨branchId, before⟩ := task
  -- a kill under way leaves the branch without a handle
  have stays : before ≠ .wait → state.Quiet branchId → branchId ∉ sandbox.vms := by
    intro begun quiet
    rw [← view_tracked_none]
    exact (killStep_shrinks taken (.inr (.inl begun))).keepsNone (view_tracked_none.2 quiet.untracked)
  cases before with
  | wait =>
    simp only [killStep] at taken
    split at taken
    · cases taken
    · next free =>
      rw [not_or, not_not] at free
      have noRestart := careful.1
      simp only [State.collides, found] at noRestart
      have quiet : ∀ worker ∈ state.calls, worker.branchId = branchId →
          worker.spawning = false ∧ worker.restarting = false :=
        fun worker member same => ⟨supervised.no_spawn free.2 worker member same,
          State.busy_eq_false.1 noRestart worker member same⟩
      cases held : state.sandbox.vms.get? branchId with
      | none =>
        simp only [held] at taken
        cases taken
        have untracked := Dict.get?_eq_none.1 held
        exact ⟨rfl, elsewhere, nofun, nofun, nofun, fun _ _ => View.Shrinks.refl _,
          fun _ _ => ⟨untracked, quiet⟩, fun _ _ _ _ => ⟨untracked, rfl, rfl⟩⟩
      | some vm =>
        simp only [held] at taken
        cases taken
        have isTracked : (state.sandbox.view branchId).tracked = some vm.proc := view_tracked_some held
        have nobody := supervised.nobody free.2 noRestart fun worker member same => by
          by_contra reaping
          have reaping : worker.reaping = true := by simpa using reaping
          have killing := Call.killing_of_reaping reaping
          have untracked := view_tracked_none.2 (supervised.quiet worker member killing).untracked
          rw [same, isTracked] at untracked
          cases untracked
        have tracked := supervised.idle nobody
        have untracked : branchId ∉ (state.sandbox.untrack branchId).vms := by
          rw [← view_tracked_none, view_untrack, if_pos rfl]
        refine ⟨rfl, elsewhere, fun _ _ => ⟨nobody, ?_⟩, nofun, nofun, nofun,
          fun _ _ => ⟨untracked, quiet⟩, fun _ _ _ _ => ⟨untracked, rfl, rfl⟩⟩
        show ((state.sandbox.untrack branchId).view branchId).tracked = none ∧ _
        rw [view_untrack, if_pos rfl]
        refine ⟨rfl, fun proc running => ?_⟩
        have isHeld := tracked proc running
        rw [isTracked] at isHeld
        exact (Option.some.inj isHeld).symm
  | reap vm =>
    have noHandle := stays nofun
    simp only [killStep] at taken
    cases taken
    refine ⟨rfl, elsewhere, nofun, nofun, fun _ owns _ => ?_, nofun, nofun,
      fun quiet _ _ _ => ⟨noHandle quiet, rfl, rfl⟩⟩
    have silent := silent_exit state.sandbox branchId owns.2
    exact fun proc running => absurd running (silent proc)
  | finished outcome => cases taken
  | readRecord | signal record | cleanup =>
    have noHandle := stays nofun
    have shrinks : (state.sandbox.view branchId).Shrinks (sandbox.view branchId) :=
      killStep_shrinks taken (.inr (.inl nofun))
    have inactive : (Call.kill ⟨branchId, phase⟩).active = false := killStep_inactive taken (fun same => by cases same)
    refine ⟨rfl, elsewhere, fun _ active => ?_, nofun, nofun, fun _ _ => shrinks, nofun,
      fun quiet _ _ _ => ⟨noHandle quiet, rfl, rfl⟩⟩
    rw [inactive] at active
    cases active

/-! ## The whole system -/

theorem call_moves (supervised : Supervised state) {call next : Call}
    (found : state.calls[c]? = some call) (careful : state.Careful (.step c env))
    (stepped : call.step vmmComm env state.sandbox = some (sandbox, next)) : call.Moves state sandbox next := by
  cases call with
  | spawn task =>
    obtain ⟨⟨_, phase⟩, taken, equal⟩ := Option.map_eq_some_iff.1 stepped
    cases equal
    exact supervised.spawn_moves found careful taken
  | restart task =>
    obtain ⟨⟨_, phase⟩, taken, equal⟩ := Option.map_eq_some_iff.1 stepped
    cases equal
    exact supervised.restart_moves found careful taken
  | kill task =>
    obtain ⟨⟨_, phase⟩, taken, equal⟩ := Option.map_eq_some_iff.1 stepped
    cases equal
    exact supervised.kill_moves found careful taken

/-- A change that only ends VMMs, with the same calls or one that has not begun. -/
theorem shrink (supervised : Supervised state)
    (shrinks : ∀ branchId, (state.sandbox.view branchId).Shrinks (sandbox.view branchId))
    (swept : List (List BranchId)) : Supervised ⟨sandbox, state.calls, swept⟩ := by
  refine ⟨supervised.owned.change fun branchId => (shrinks branchId).keeps, fun call member killing => ?_⟩
  obtain ⟨untracked, nobody⟩ := supervised.quiet call member killing
  exact ⟨view_tracked_none.1 ((shrinks _).keepsNone (view_tracked_none.2 untracked)), nobody⟩

theorem invoke (supervised : Supervised state) (op : Op) :
    Supervised { state with calls := state.calls ++ [op.call] } := by
  have dormant : op.call.active = false ∧ op.call.spawning = false ∧ op.call.restarting = false ∧
      op.call.killing = false := by
    cases op <;> exact ⟨rfl, rfl, rfl, rfl⟩
  have isNew : ∀ (i : Nat) (call : Call), (state.calls ++ [op.call])[i]? = some call →
      state.calls[i]? = none → call.active = true → False := by
    intro i call found absent active
    rw [List.getElem?_append_right (List.getElem?_eq_none_iff.1 absent)] at found
    rw [List.mem_singleton.1 (List.mem_of_getElem? found), dormant.1] at active
    cases active
  refine ⟨supervised.owned.join (fun i call found => ?_) (fun i call found absent active => ?_)
    (fun i _ call _ found _ absent _ active _ _ => (isNew i call found absent active).elim)
    (fun branchId _ => .of_eq rfl), fun call member killing => ?_⟩
  · rw [List.getElem?_append_left (List.getElem?_eq_some_iff.1 found).1]
    exact found
  · exact (isNew i call found absent active).elim
  · obtain before | here := List.mem_append.1 member
    · obtain ⟨untracked, nobody⟩ := supervised.quiet call before killing
      refine ⟨untracked, fun other otherMember same => ?_⟩
      obtain otherBefore | otherHere := List.mem_append.1 otherMember
      · exact nobody other otherBefore same
      · rw [List.mem_singleton.1 otherHere]
        exact ⟨dormant.2.1, dormant.2.2.1⟩
    · rw [List.mem_singleton.1 here, dormant.2.2.2] at killing
      cases killing

theorem callStep (supervised : Supervised state) {call next : Call} (found : state.calls[c]? = some call)
    (moves : call.Moves state sandbox next) (swept : List (List BranchId)) :
    Supervised ⟨sandbox, state.calls.set c next, swept⟩ := by
  obtain ⟨inside, _⟩ := List.getElem?_eq_some_iff.1 found
  have member := List.mem_of_getElem? found
  have here : (state.calls.set c next)[c]? = some next := List.getElem?_set_self inside
  refine ⟨supervised.owned.step (i := c) found moves.key here
    (fun i differs => List.getElem?_set_ne (Ne.symm differs))
    (fun branchId differs => (moves.elsewhere branchId differs).keeps) ?_ ?_ ?_ ?_,
    fun killer killerMember killing => ?_⟩
  · intro inactive active i worker workerFound workerActive
    exact (moves.enters (by simpa [supervision] using inactive) active).1 worker
      (List.mem_of_getElem? workerFound) workerActive
  · intro active
    cases wasActive : call.active with
    | true => exact moves.runs wasActive (supervised.owned.owns c call found wasActive) active
    | false => exact (moves.enters wasActive active).2
  · intro wasActive inactive
    exact moves.leaves wasActive (supervised.owned.owns c call found wasActive)
      (by simpa [supervision] using inactive)
  · intro wasInactive inactive
    exact (moves.refuses (by simpa [supervision] using wasInactive)
      (by simpa [supervision] using inactive)).keeps
  · by_cases same : killer.branchId = call.branchId
    · -- the branch of the call that steps
      have afterwards : call.branchId ∉ sandbox.vms ∧ (∀ worker ∈ state.calls,
          worker.branchId = call.branchId → worker.spawning = false ∧ worker.restarting = false) ∧
          next.spawning = false ∧ next.restarting = false := by
        cases began : (next.killing && !call.killing) with
        | true =>
          rw [Bool.and_eq_true, Bool.not_eq_true'] at began
          obtain ⟨untracked, nobody⟩ := moves.begins began.2 began.1
          refine ⟨untracked, nobody, ?_⟩
          cases next with
          | spawn task => cases began.1
          | restart task => cases began.1
          | kill task => exact ⟨rfl, rfl⟩
        | false =>
          have wasKilled : ∃ worker ∈ state.calls, worker.branchId = call.branchId ∧
              worker.killing = true := by
            obtain before | isNext := List.mem_or_eq_of_mem_set killerMember
            · exact ⟨killer, before, same, killing⟩
            · subst isNext
              rw [killing, Bool.true_and, Bool.not_eq_false'] at began
              exact ⟨call, member, rfl, began⟩
          obtain ⟨worker, workerMember, workerSame, workerKilling⟩ := wasKilled
          have quiet := supervised.quiet worker workerMember workerKilling
          rw [workerSame] at quiet
          obtain ⟨notSpawning, notRestarting⟩ := quiet.nobody call member rfl
          have busy : state.busy Call.killing call.branchId = true := by
            by_contra idle
            have idle := State.busy_eq_false.1 (by simpa using idle) worker workerMember workerSame
            rw [workerKilling] at idle
            cases idle
          obtain ⟨untracked, next⟩ := moves.stays quiet notSpawning notRestarting busy
          exact ⟨untracked, quiet.nobody, next⟩
      rw [same]
      refine ⟨afterwards.1, fun worker workerMember workerSame => ?_⟩
      obtain before | rfl := List.mem_or_eq_of_mem_set workerMember
      · exact afterwards.2.1 worker before workerSame
      · exact afterwards.2.2
    · have before : killer ∈ state.calls := by
        obtain before | rfl := List.mem_or_eq_of_mem_set killerMember
        · exact before
        · exact absurd moves.key same
      obtain ⟨untracked, nobody⟩ := supervised.quiet killer before killing
      refine ⟨?_, fun worker workerMember workerSame => ?_⟩
      · exact view_tracked_none.1 ((moves.elsewhere _ same).keepsNone (view_tracked_none.2 untracked))
      · obtain workerBefore | rfl := List.mem_or_eq_of_mem_set workerMember
        · exact nobody worker workerBefore workerSame
        · exact absurd (workerSame.symm.trans moves.key) same

theorem step (supervised : Supervised state) {action : Action} (careful : state.Careful action)
    (taken : state.Step vmmComm action after) : Supervised after := by
  unfold State.Step State.step at taken
  cases action with
  | invoke op =>
    cases taken
    exact supervised.invoke op
  | sweepDead =>
    cases taken
    exact supervised.shrink (fun branchId => View.Shrinks.refl _) _
  | step c env =>
    obtain ⟨call, found, taken⟩ := Option.bind_eq_some_iff.1 taken
    obtain ⟨⟨sandbox, next⟩, stepped, rfl⟩ := Option.map_eq_some_iff.1 taken
    exact supervised.callStep found (supervised.call_moves found careful stepped) _
  | exit proc =>
    cases taken
    exact supervised.shrink (fun branchId => shrinks_exit state.sandbox branchId proc) _
  | launch process =>
    obtain ⟨⟨vm, sandbox⟩, launched, rfl⟩ := Option.map_eq_some_iff.1 taken
    exact supervised.shrink (fun branchId => shrinks_launch launched (fun same => by cases same)) _

end Supervised

theorem supervised_fresh (records : Dict BranchId (Option PidRecord)) : Supervised (State.fresh records) := by
  refine ⟨Owned.empty (fun _ => rfl) fun branchId proc running => ?_, fun call member => ?_⟩
  · obtain ⟨process, stored, _⟩ := running
    cases stored
  · cases member

/-! ## No untracked VMM -/

namespace State

/-- No call on the branch is in progress. -/
def Idle (state : State) (branchId : BranchId) : Prop :=
  ∀ call ∈ state.calls, call.branchId = branchId → call.isOver = true

/-- The process is a running VMM that was started for the branch. -/
def Running (state : State) (branchId : BranchId) (proc : Nat) : Prop :=
  (state.sandbox.view branchId).running proc

/-- Every VMM of an idle branch is the one in the table, and a kill that returns
to an idle branch leaves it without a VMM. -/
structure NoUntrackedVmm (vmmComm : String) (state : State) : Prop where
  tracked : ∀ branchId, state.Idle branchId → ∀ proc, state.Running branchId proc →
    (state.sandbox.vms.get? branchId).map MicroVM.proc = some proc
  killed : ∀ c env task after, state.calls[c]? = some (.kill task) →
    state.Step vmmComm (.step c env) after →
    after.calls[c]? = some (.kill ⟨task.branchId, .finished (.ok ())⟩) → after.Idle task.branchId →
    ∀ proc, ¬ after.Running task.branchId proc

end State

theorem Call.inactive_of_over {call : Call} (isOver : call.isOver = true) : call.active = false := by
  cases call with
  | spawn task => obtain ⟨_, _, phase⟩ := task; cases phase <;> first | rfl | cases isOver
  | restart task => obtain ⟨_, phase⟩ := task; cases phase <;> first | rfl | cases isOver
  | kill task => obtain ⟨_, phase⟩ := task; cases phase <;> first | rfl | cases isOver

theorem Supervised.tracked (supervised : Supervised state) {branchId : BranchId}
    (idle : state.Idle branchId) : (state.sandbox.view branchId).Tracked := by
  refine supervised.idle fun worker member active same => ?_
  rw [Call.inactive_of_over (idle worker member same)] at active
  cases active

/-- Only the last step of a kill returns. -/
theorem killStep_returns {sandbox after : Sandbox} {task : KillTask}
    (taken : killStep vmmComm env sandbox task = some (after, .finished (.ok ()))) :
    task.phase = .cleanup := by
  unfold killStep at taken
  cases atPhase : task.phase with
  | cleanup => rfl
  | wait =>
    simp only [atPhase] at taken
    split at taken
    · cases taken
    · split at taken <;> cases taken
  | reap vm =>
    simp only [atPhase] at taken
    cases taken
  | readRecord =>
    simp only [atPhase] at taken
    split at taken <;> cases taken
  | signal record =>
    simp only [atPhase] at taken
    split at taken
    · cases taken
    · split at taken <;> cases taken
  | finished outcome =>
    simp only [atPhase] at taken
    cases taken

theorem no_untracked_vmm {records : Dict BranchId (Option PidRecord)}
    (reached : Reachable (State.Step vmmComm) State.Careful (State.fresh records) state) :
    state.NoUntrackedVmm vmmComm := by
  have supervised : Supervised state := reached.invariant (supervised_fresh records)
    fun _ _ _ supervised careful taken => supervised.step careful taken
  refine ⟨fun branchId idle => supervised.tracked idle, fun c env task after found taken returned idle => ?_⟩
  obtain ⟨call, isCall, applied⟩ := Option.bind_eq_some_iff.1 taken
  rw [found] at isCall
  cases isCall
  obtain ⟨⟨_, next⟩, stepped, rfl⟩ := Option.map_eq_some_iff.1 applied
  obtain ⟨⟨sandbox, phase⟩, killTaken, equal⟩ := Option.map_eq_some_iff.1 stepped
  obtain ⟨rfl, rfl⟩ := Prod.mk.inj equal
  have inside := (List.getElem?_eq_some_iff.1 found).1
  simp only [List.getElem?_set_self inside, Option.some.injEq, Call.kill.injEq, KillTask.mk.injEq,
    true_and] at returned
  subst returned
  have atCleanup := killStep_returns killTaken
  have careful : state.Careful (.step c env) := by
    obtain ⟨branchId, _⟩ := task
    simp only at atCleanup
    subst atCleanup
    constructor
    · simp only [State.collides, found]
    · simp only [State.abandons, found]
  have afterwards : Supervised _ := supervised.step careful taken
  -- nothing is tracked while the kill is at work, and what runs is tracked
  have quiet := supervised.quiet (.kill task) (List.mem_of_getElem? found) <| by
    obtain ⟨branchId, _⟩ := task
    simp only at atCleanup
    subst atCleanup
    rfl
  have untracked : (sandbox.view task.branchId).tracked = none :=
    (killStep_shrinks killTaken (.inr (.inl (by rw [atCleanup]; nofun)))).keepsNone
      (view_tracked_none.2 quiet.untracked)
  intro proc running
  have isTracked := afterwards.tracked idle proc running
  rw [untracked] at isTracked
  cases isTracked

/-! ## Runs of one sandbox -/

def firecracker : Process := ⟨100, 1, "/bin/firecracker", "firecracker", none⟩

def returns : Env := ⟨.returned, true, true, true, firecracker⟩

def raises : Env := { returns with reply := .raised false }

def sandboxRun (actions : List Action) : State :=
  runFrom (State.step "firecracker") (State.fresh .empty) actions

theorem sandboxRun_reachable {guard : State → Action → Prop} {actions : List Action}
    (enabled : (run (State.step "firecracker") (State.fresh .empty) actions).isSome = true)
    (meets : Meets (State.step "firecracker") guard (State.fresh .empty) actions) :
    Reachable (State.Step "firecracker") guard (State.fresh .empty) (sandboxRun actions) :=
  reachable_runFrom enabled meets

/-- A root is spawned, its VMM dies, and a restart has started another one. -/
def restartedRun : List Action :=
  [.invoke (.spawn "b" none)] ++ List.replicate 9 (.step 0 returns) ++
    [.exit 0, .sweepDead, .invoke (.restart "b")] ++ List.replicate 6 (.step 1 returns)

/-- The restart succeeds and a kill follows. -/
def killedRun : List Action :=
  restartedRun ++ List.replicate 3 (.step 1 returns) ++
    [.invoke (.kill "b")] ++ List.replicate 2 (.step 2 returns)

theorem killedRun_no_untracked_vmm : (sandboxRun killedRun).NoUntrackedVmm "firecracker" :=
  no_untracked_vmm (sandboxRun_reachable (by decide) (by decide))

/-- `restore` raises in the restart. -/
def abandonedRun : List Action := restartedRun ++ [.step 1 raises]

theorem failed_restart_leaves_vmm : ¬ ∀ state, Reachable (State.Step "firecracker") always
    (State.fresh .empty) state → state.NoUntrackedVmm "firecracker" := by
  intro claimed
  have tracked := (claimed (sandboxRun abandonedRun)
    (sandboxRun_reachable (by decide) meets_always)).tracked "b"
  have idle : (sandboxRun abandonedRun).Idle "b" := by
    have allOver : ((sandboxRun abandonedRun).calls.all Call.isOver) = true := by decide
    exact fun call member _ => List.all_eq_true.1 allOver call member
  have running : (sandboxRun abandonedRun).Running "b" 1 :=
    ⟨{ firecracker with vmmOf := some "b" }, by decide, rfl⟩
  exact absurd (tracked idle 1 running) (by decide)

end Agentfork.Firecracker

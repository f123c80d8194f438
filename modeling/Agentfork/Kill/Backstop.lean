import Agentfork.Library.Transition
import Agentfork.Kill.BranchReaper

/-! # The orphan backstop under a living supervisor

The kernel sends the parent-death signal when the thread that is the parent ends,
not when the supervisor does. So a branch is spared exactly as long as no thread
ends while it is the parent of a running child that has armed the signal: neither
a thread of a pool at the end of `_fan_out`, nor a caller's thread. -/

namespace Agentfork.Kill

open ProcessTree Transition

/-- The thread that the step ends while the supervisor lives on. -/
def Action.ends : Action → Option ThreadId
  | .endThread thread _ | .endWorker _ thread _ => some thread
  | _ => none

namespace State

/-- A thread that ends is not the parent of a running child that has armed its signal. -/
def Outlived (state : State) (action : Action) : Prop :=
  ∀ process ∈ state.tree.processes, action.ends = some process.parent → process.running = true →
    process.armed = false

instance (state : State) (action : Action) : Decidable (state.Outlived action) :=
  inferInstanceAs (Decidable (∀ process ∈ state.tree.processes, action.ends = some process.parent →
    process.running = true → process.armed = false))

/-- Nobody but `kill` has sent a `SIGKILL` to a process that `spawn` has returned. -/
def Spared (state : State) : Prop :=
  ∀ pid origin, state.tree.Received pid origin →
    origin = .sent .kill ∨ origin = .sent .failedSpawn ∧ pid ∉ state.spawned

/-- A process that a failed `spawn` has killed is not returned by it. -/
structure Sound (state : State) : Prop where
  signals : ∀ pid origin, state.tree.Received pid origin → origin = .sent .kill ∨
    origin = .sent .failedSpawn ∧ pid ∉ state.spawned ∧ ∀ spawn, state.lock = some spawn → spawn.pid ≠ pid
  spawned : ∀ pid ∈ state.spawned, pid < state.tree.processes.length
  lock : ∀ spawn, state.lock = some spawn →
    spawn.pid < state.tree.processes.length ∧ spawn.pid ∉ state.spawned

variable {mode : Pdeathsig} {before after : State} {action : Action}

theorem Sound.spared (sound : Sound before) : Spared before := fun pid origin received =>
  (sound.signals pid origin received).imp_right fun failed => ⟨failed.1, failed.2.1⟩

theorem sound_start : Sound start where
  signals := by
    intro pid origin received
    obtain ⟨process, found, _⟩ := received
    cases found
  spawned _ member := absurd member List.not_mem_nil
  lock := nofun

/-! ## Steps -/

/-- A step that brings no signal and is not about a spawn. -/
theorem Sound.quiet (sound : Sound before)
    (received : ∀ pid origin, after.tree.Received pid origin → before.tree.Received pid origin)
    (length : after.tree.processes.length = before.tree.processes.length)
    (spawned : after.spawned = before.spawned) (lock : after.lock = before.lock) : Sound after where
  signals pid origin isReceived := by
    rw [spawned, lock]
    exact sound.signals pid origin (received pid origin isReceived)
  spawned := by
    rw [spawned, length]
    exact sound.spawned
  lock := by
    rw [spawned, lock, length]
    exact sound.lock

@[simp] theorem length_update (tree : Tree ThreadId Sender) (pid : Pid)
    (change : Process ThreadId Sender → Process ThreadId Sender) :
    (tree.update pid change).processes.length = tree.processes.length := by
  simp [Tree.update]

/-- The end of a thread whose children have not armed the signal brings none. -/
theorem endThread_quiet {thread heir : ThreadId} (outlived : before.Outlived action)
    (ends : action.ends = some thread) (pid : Pid) (origin : Origin Sender)
    (received : (before.tree.endThread thread heir).Received pid origin) : before.tree.Received pid origin := by
  obtain old | ⟨⟨process, found, isChild, armed, running⟩, _⟩ := Tree.received_endThread.1 received
  · exact old
  · have spared := outlived process (List.mem_of_getElem? found) (isChild ▸ ends) running
    rw [armed] at spared
    cases spared

theorem Sound.step (sound : Sound before) (outlived : before.Outlived action)
    (taken : before.Step mode action after) (alive : after.alive = true) : Sound after := by
  unfold State.Step State.step at taken
  split at taken
  · cases taken
  cases action with
  | startThread =>
    cases taken
    exact sound.quiet (fun _ _ received => received) rfl rfl rfl
  | endThread thread heir =>
    simp only at taken
    split at taken <;> cases taken
    refine sound.quiet (endThread_quiet outlived rfl) ?_ rfl rfl
    simp [Tree.endThread]
  | call caller branchIds =>
    simp only at taken
    split at taken <;> cases taken
    exact sound.quiet (fun _ _ received => received) rfl rfl rfl
  | startWorker c =>
    obtain ⟨call, atCall, taken⟩ := Option.bind_eq_some_iff.1 taken
    split at taken <;> cases taken
    exact sound.quiet (fun _ _ received => received) rfl rfl rfl
  | launch c i thread =>
    obtain ⟨call, atCall, taken⟩ := Option.bind_eq_some_iff.1 taken
    obtain ⟨⟨branchId, item⟩, atItem, taken⟩ := Option.bind_eq_some_iff.1 taken
    simp only at taken
    split at taken
    · split at taken <;> cases taken
      · exact sound.quiet (fun _ _ received => received) rfl rfl rfl
      · constructor
        · intro pid origin received
          have received := Tree.received_fork.1 received
          refine (sound.signals pid origin received).imp_right fun ⟨failed, notSpawned, _⟩ =>
            ⟨failed, notSpawned, fun spawn isLock same => ?_⟩
          -- the child is new, so it has received nothing
          cases isLock
          exact absurd received.inside (by simp [← same])
        · intro pid member
          rw [Tree.length_fork]
          exact Nat.lt_succ_of_lt (sound.spawned pid member)
        · intro spawn isLock
          cases isLock
          rw [Tree.length_fork]
          exact ⟨Nat.lt_succ_self _, fun member => Nat.lt_irrefl _ (sound.spawned _ member)⟩
    · cases taken
  | launched =>
    obtain ⟨spawn, isLock, taken⟩ := Option.bind_eq_some_iff.1 taken
    obtain ⟨call, atCall, taken⟩ := Option.bind_eq_some_iff.1 taken
    split at taken <;> cases taken
    obtain ⟨inside, notSpawned⟩ := sound.lock spawn isLock
    constructor
    · intro pid origin received
      refine (sound.signals pid origin received).imp_right fun ⟨failed, notYet, notThis⟩ =>
        ⟨failed, ?_, nofun⟩
      intro member
      obtain old | new := List.mem_append.1 member
      · exact notYet old
      · exact notThis spawn isLock (List.mem_singleton.1 new).symm
    · intro pid member
      obtain old | new := List.mem_append.1 member
      · exact sound.spawned pid old
      · rw [List.mem_singleton.1 new]
        exact inside
    · nofun
  | pidfdFailed =>
    obtain ⟨spawn, isLock, taken⟩ := Option.bind_eq_some_iff.1 taken
    obtain ⟨call, atCall, taken⟩ := Option.bind_eq_some_iff.1 taken
    split at taken <;> cases taken
    obtain ⟨inside, notSpawned⟩ := sound.lock spawn isLock
    constructor
    · intro pid origin received
      obtain old | ⟨here, isFailure⟩ := Tree.received_of_send received
      · refine (sound.signals pid origin old).imp_right fun ⟨failed, notYet, _⟩ => ⟨failed, notYet, nofun⟩
      · subst here
        exact .inr ⟨isFailure, notSpawned, nofun⟩
    · intro pid member
      simp only [Tree.send, length_update]
      exact sound.spawned pid member
    · nofun
  | skip c i =>
    obtain ⟨call, atCall, taken⟩ := Option.bind_eq_some_iff.1 taken
    obtain ⟨⟨branchId, item⟩, atItem, taken⟩ := Option.bind_eq_some_iff.1 taken
    simp only at taken
    split at taken <;> cases taken
    exact sound.quiet (fun _ _ received => received) rfl rfl rfl
  | endWorker c thread heir =>
    obtain ⟨call, atCall, taken⟩ := Option.bind_eq_some_iff.1 taken
    split at taken <;> cases taken
    refine sound.quiet (endThread_quiet outlived rfl) ?_ rfl rfl
    simp [Tree.endThread]
  | «return» c =>
    obtain ⟨call, atCall, taken⟩ := Option.bind_eq_some_iff.1 taken
    split at taken <;> cases taken
    exact sound.quiet (fun _ _ received => received) rfl rfl rfl
  | arm pid =>
    obtain ⟨process, found, taken⟩ := Option.bind_eq_some_iff.1 taken
    split at taken <;> cases taken
    refine sound.quiet (fun _ _ received => Tree.received_arm.1 received) ?_ rfl rfl
    simp [Tree.arm]
  | exit pid =>
    cases taken
    refine sound.quiet (fun _ _ received => Tree.received_exit.1 received) ?_ rfl rfl
    simp [Tree.exit]
  | kill thread branchId =>
    simp only at taken
    split at taken
    · split at taken <;> cases taken
      · exact sound
      · constructor
        · intro pid origin received
          obtain old | ⟨_, isKill⟩ := Tree.received_of_send received
          · exact sound.signals pid origin old
          · exact .inl isKill
        · intro pid member
          simp only [Tree.send, length_update]
          exact sound.spawned pid member
        · intro spawn isLock
          simp only [Tree.send, length_update]
          exact sound.lock spawn isLock
    · cases taken
  | supervisorDies =>
    cases taken
    cases alive

/-- A thread that is outlived by an armed child takes it along. -/
theorem outlived_of_spared (taken : before.Step mode action after) (spared : Spared after) :
    before.Outlived action := by
  intro process member ends running
  by_contra armed
  have armed : process.armed = true := by simpa using armed
  obtain ⟨pid, found⟩ := List.mem_iff_getElem?.1 member
  have dies : ∀ heir, (before.tree.endThread process.parent heir).Received pid .parentDeath := fun heir =>
    Tree.received_endThread.2 (.inr ⟨⟨process, found, rfl, armed, running⟩, rfl⟩)
  unfold State.Step State.step at taken
  split at taken
  · cases taken
  cases action with
  | endThread thread heir =>
    cases ends
    simp only at taken
    split at taken <;> cases taken
    obtain isKill | ⟨isFailure, _⟩ := spared pid .parentDeath (dies heir)
    · cases isKill
    · cases isFailure
  | endWorker c thread heir =>
    cases ends
    obtain ⟨call, atCall, taken⟩ := Option.bind_eq_some_iff.1 taken
    split at taken <;> cases taken
    obtain isKill | ⟨isFailure, _⟩ := spared pid .parentDeath (dies heir)
    · cases isKill
    · cases isFailure
  | _ => cases ends

/-! ## Runs -/

/-- While the supervisor lives and its threads have outlived their armed children
so far, every branch is spared, and the next step spares them if and only if the
threads outlive them in it. -/
theorem spared_while_outlived {state : State} (reached : Reachable (Step mode) Outlived start state)
    (alive : state.alive = true) : Spared state ∧ ∀ action next, state.Step mode action next →
      next.alive = true → (Spared next ↔ state.Outlived action) := by
  have aliveBefore : ∀ before action after, Step mode before action after → before.alive = true := by
    intro before action after taken
    unfold State.Step State.step at taken
    split at taken
    · cases taken
    · next notDead => simpa using notDead
  have sound : state.alive = true → Sound state := by
    refine reached.invariant (motive := fun state => state.alive = true → Sound state) (fun _ => sound_start) ?_
    intro before action after sound outlived taken alive
    exact (sound (aliveBefore before action after taken)).step outlived taken alive
  refine ⟨(sound alive).spared, fun action next taken nextAlive => ?_⟩
  exact ⟨outlived_of_spared taken, fun outlived => ((sound alive).step outlived taken nextAlive).spared⟩

/-- The state after the actions. -/
def runOf (mode : Pdeathsig) (actions : List Action) : State := runFrom (State.step mode) start actions

/-- `fork` spawns two children on two threads of a pool. -/
def fannedOut : List Action :=
  [.call 0 ["a", "b"], .startWorker 0, .startWorker 0, .launch 0 0 1, .launched, .launch 0 1 2, .launched]

/-- The pool ends before either launcher has armed the signal; then both arm it
and one is killed. -/
def lateRun : List Action :=
  fannedOut ++ [.endWorker 0 1 0, .endWorker 0 2 0, .return 0, .arm 0, .arm 1, .kill 0 "a"]

theorem lateRun_spared : Spared (runOf .shim lateRun) ∧ (runOf .shim lateRun).tree.Received 0 (.sent .kill) := by
  have reached : Reachable (Step .shim) Outlived start (runOf .shim lateRun) :=
    reachable_runFrom (by decide) (by decide)
  exact ⟨(spared_while_outlived reached (by decide)).1, _, rfl, by decide⟩

/-- A launcher arms the signal before the pool ends. -/
def pooledRun : List Action := fannedOut ++ [.arm 0, .endWorker 0 1 0]

theorem pooled_child_is_killed : ¬ ∀ mode, mode ≠ Pdeathsig.off → ∀ state,
    Reachable (Step mode) always start state → state.alive = true → Spared state := by
  intro claimed
  have reached : Reachable (Step .shim) always start (runOf .shim pooledRun) :=
    reachable_runFrom (by decide) meets_always
  have spared := claimed .shim (by decide) (runOf .shim pooledRun) reached (by decide)
  have received : (runOf .shim pooledRun).tree.Received 0 .parentDeath := ⟨_, rfl, by decide⟩
  obtain isKill | ⟨isFailure, _⟩ := spared 0 .parentDeath received
  · cases isKill
  · cases isFailure

end State

end Agentfork.Kill

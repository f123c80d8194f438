import Agentfork.Library.Succession
import Agentfork.Orchestrator.FinalSweep
import Agentfork.Orchestrator.Reload

/-! # One registry, many supervisors

Orchestrators of any number of processes are constructed over one registry file. The
constructor takes the lock on the sidecar file before it loads the records, `close`
gives it up in the section that marks the orchestrator closed, and the kernel drops
it when the process dies. Calls may still be under way in an orchestrator that has
closed. -/

namespace Agentfork.Orchestrator

open Shared Transition Handing

variable {config : Config} {env : Env} {shared after : Shared} {state next : State} {action : Action}

/-- The arguments of an orchestrator with a `registry_path`. -/
abbrev RegistryConfig := { config : Config // config.registry = true }

/-- An orchestrator over the registry, the sandboxes and the KV branches of the host. -/
def supervisor : Server RegistryConfig World State Action Fault where
  boot config world := (Shared.boot config.1 world).map State.fresh
  step config state action := state.step config.1 action
  world state := state.shared.toWorld
  put world state := { state with shared := { state.shared with toWorld := world } }
  closed state := state.shared.closed

/-- `_acquire_registry_lock`, while another orchestrator holds the lock. -/
def ownedBy (registryPath : String) : Fault :=
  .runtimeError s!"registry {registryPath} is owned by another orchestrator (lock: {registryPath}.lock)"

/-- No `create_parent` or `fork` is admitted on an id that the same orchestrator has journaled before. -/
def journalsOnce (config : RegistryConfig) (state : State) (action : Action) : Prop :=
  match state.step config.1 action with
  | some next => next.shared.started.Nodup
  | none => True

instance (config : RegistryConfig) (state : State) (action : Action) : Decidable (journalsOnce config state action) :=
  match taken : state.step config.1 action with
  | some next => decidable_of_iff next.shared.started.Nodup (by simp only [journalsOnce, taken])
  | none => isTrue (by simp only [journalsOnce, taken])

/-- Whatever a backend holds is listed in the registry file. -/
def World.Covered (world : World) : Prop :=
  ∀ branchId, branchId ∈ world.kv ∨ branchId ∈ world.sandbox → ∃ branch ∈ world.file, branch.branchId = branchId

/-! ## An orchestrator that is open -/

theorem killStep_fewer {task : KillTask} {phase : KillPhase} (taken : killStep config env shared task = some (after, phase)) :
    after.kv ⊆ shared.kv ∧ after.sandbox ⊆ shared.sandbox := by
  cases killStep_move taken with
  | refused _ _ quiet =>
    rw [quiet.world]
    exact ⟨subset_rfl, subset_rfl⟩
  | admitted => exact ⟨(write_kv _ _).le, (write_sandbox _ _).le⟩
  | calls _ call replies =>
    obtain rfl | rfl := replies.state
    · cases call
      · exact ⟨subset_rfl, Finset.erase_subset _ _⟩
      · exact ⟨Finset.erase_subset _ _, subset_rfl⟩
    · exact ⟨subset_rfl, subset_rfl⟩
  | fails => exact ⟨subset_rfl, subset_rfl⟩
  | forgets => exact ⟨(write_kv _ _).le, (write_sandbox _ _).le⟩
  | staysRecorded _ _ quiet =>
    rw [quiet.world]
    exact ⟨subset_rfl, subset_rfl⟩

/-- What the backends hold this orchestrator has started or loaded. -/
def HoldsOwn (origin : Finset BranchId) (state : State) : Prop :=
  ∀ branchId, branchId ∈ state.shared.kv ∨ branchId ∈ state.shared.sandbox →
    branchId ∈ state.shared.started ∨ branchId ∈ origin

theorem HoldsOwn.step {origin : Finset BranchId} (holdsOwn : HoldsOwn origin state)
    (disciplined : Disciplined config origin state) (taken : state.Step config action next) : HoldsOwn origin next := by
  obtain ⟨more, history, _⟩ := State.Step.history taken
  have stays : ∀ branchId, branchId ∈ state.shared.started ∨ branchId ∈ origin →
      branchId ∈ next.shared.started ∨ branchId ∈ origin := by
    intro branchId mine
    rw [history]
    exact mine.imp_left (List.mem_append_left _)
  intro branchId held
  cases State.Step.move taken with
  | @item c i env call task moved shared atCall atItem _ _ stepped =>
    cases task with
    | kill task =>
      obtain ⟨⟨_, phase⟩, isStep, equal⟩ := Option.map_eq_some_iff.1 stepped
      cases equal
      obtain ⟨kv, sandbox⟩ := killStep_fewer isStep
      exact stays branchId (holdsOwn branchId (held.imp (kv ·) (sandbox ·)))
    | start task =>
      have moves := Task.step_moves (disciplined.recorded task.branchId) stepped
      by_cases here : branchId = task.branchId
      · obtain ⟨⟨_, phase⟩, isStep, equal⟩ := Option.map_eq_some_iff.1 stepped
        cases equal
        have active : (Task.start task).active = true := active_start.2 (startStep_unfinished isStep)
        have found : state.task? (c, i) = some (.start task) := (taskAt_of_call atCall i).trans atItem
        subst here
        exact stays _ (StartOwns.owned (disciplined.owned.owns (c, i) _ found active))
      · have same := moves.onlyAt branchId here
        have sameKv : (branchId ∈ shared.kv) = (branchId ∈ state.shared.kv) := congrArg View.kv same
        have sameSandbox : (branchId ∈ shared.sandbox) = (branchId ∈ state.shared.sandbox) := congrArg View.sandbox same
        simp only [sameKv, sameSandbox] at held
        exact stays branchId (holdsOwn branchId held)
  | journal journaled =>
    rw [journaled.kv, journaled.sandbox] at held
    exact stays branchId (holdsOwn branchId held)
  | @invoke _ _ shared _ silent | @advance _ shared _ _ _ _ silent =>
    have same := silent.view origin branchId
    have sameKv : (branchId ∈ shared.kv) = (branchId ∈ state.shared.kv) := congrArg View.kv same
    have sameSandbox : (branchId ∈ shared.sandbox) = (branchId ∈ state.shared.sandbox) := congrArg View.sandbox same
    simp only [sameKv, sameSandbox] at held
    exact stays branchId (holdsOwn branchId held)

/-- The orchestrator has loaded a registry that covers the backends, and has journaled every id at most once. -/
structure Serving (config : RegistryConfig) (state : State) : Prop where
  booted : ∃ world shared, Shared.boot config.1 world = .ok shared ∧ world.Covered ∧
    Reachable (State.Step config.1) always (State.fresh shared) state
  once : state.shared.started.Nodup

namespace Serving

variable {owner : RegistryConfig}

theorem boot {world : World} (covered : world.Covered) (booted : Shared.boot owner.1 world = .ok shared) :
    Serving owner (State.fresh shared) ∧ shared.toWorld = world ∧ shared.closed = false := by
  have fields : shared.toWorld = world ∧ shared.closed = false ∧ shared.started = [] := by
    unfold Shared.boot at booted
    simp only at booted
    split at booted
    · cases booted
    · cases booted
      exact ⟨rfl, rfl, rfl⟩
  refine ⟨⟨⟨world, shared, booted, covered, .refl⟩, ?_⟩, fields.1, fields.2.1⟩
  simp only [State.fresh, fields.2.2, List.nodup_nil]

theorem disciplined (serving : Serving owner state) :
    ∃ origin, Disciplined owner.1 origin state ∧ HoldsOwn origin state := by
  obtain ⟨⟨world, shared, booted, covered, reached⟩, once⟩ := serving
  refine ⟨shared.loaded, disciplined_of_once booted reached once, ?_⟩
  induction reached with
  | refl =>
    intro branchId held
    obtain ⟨sameWorld, _⟩ := (boot covered booted).2
    obtain ⟨branch, listed, isId⟩ := covered branchId (by rw [← sameWorld]; exact held)
    have loaded : shared.loaded = (ofRecords world.file).keys.toFinset := by
      unfold Shared.boot at booted
      simp only at booted
      split at booted
      · cases booted
      · cases booted
        rfl
    rw [loaded, List.mem_toFinset, Dict.mem_keys]
    exact .inr (mem_ofRecords.2 ⟨branch, listed, isId⟩)
  | tail reachedBefore _ taken inductionHypothesis =>
    have onceBefore := once_before (.tail .refl trivial taken) once
    exact (inductionHypothesis onceBefore).step (disciplined_of_once booted reachedBefore onceBefore) taken

theorem covered (serving : Serving owner state) : state.shared.toWorld.Covered := by
  obtain ⟨origin, disciplined, holdsOwn⟩ := serving.disciplined
  intro branchId held
  exact (disciplined.synced.mem_file owner.2).1 (disciplined.recorded_of_held (holdsOwn branchId held) held)

theorem step (serving : Serving owner state) (allowed : journalsOnce owner state action)
    (taken : state.Step owner.1 action next) : Serving owner next := by
  obtain ⟨⟨world, shared, booted, covered, reached⟩, _⟩ := serving
  refine ⟨⟨world, shared, booted, covered, reached.tail trivial taken⟩, ?_⟩
  unfold journalsOnce at allowed
  rw [taken] at allowed
  exact allowed

/-- Nobody works on a branch when an orchestrator has closed. -/
theorem released (serving : Serving owner state) (isClosed : state.shared.closed = true) {index : Nat × Nat} {task : Task}
    (found : state.task? index = some task) : task.active = false := by
  obtain ⟨⟨world, shared, booted, _, reached⟩, once⟩ := serving
  exact (closing_of_reachable booted reached once).released isClosed index task found

end Serving

/-! ## An orchestrator that has closed -/

/-- It is closed and none of its tasks is at work. -/
structure Shut (state : State) : Prop where
  closed : state.shared.closed = true
  idle : ∀ index task, state.task? index = some task → task.active = false

theorem advance_closed {call moved : Call} (advanced : call.advance config shared = some (after, moved))
    (isClosed : shared.closed = true) : after.closed = true := by
  cases Call.advance_move advanced with
  | fanOut _ _ _ move => cases move <;> first | exact isClosed | rfl
  | tally | sweep | retryRaised | retried | drained | follows => exact isClosed

/-- Whatever still runs in a closed orchestrator is turned away: no file is written and no backend is called. -/
theorem Shut.step (shut : Shut state) (taken : state.Step config action next) :
    Shut next ∧ next.shared.toWorld = state.shared.toWorld := by
  have refuses : ∀ allowClosing, state.shared.ensureOpen allowClosing ≠ .ok () := by
    intro allowClosing opened
    cases (ensureOpen_ok_iff.1 opened).1.symm.trans shut.closed
  have invoked : ∀ {op : Op} {env : Env} {shared : Shared} {call : Call},
      invoke config env state.shared op = some (shared, call) →
        Shut ⟨shared, state.calls ++ [call]⟩ ∧ shared.toWorld = state.shared.toWorld := by
    intro op env shared call invoked
    obtain ⟨rfl, dormant⟩ := invoke_shut invoked (refuses false)
    refine ⟨⟨shut.closed, fun index task found => ?_⟩, rfl⟩
    rw [State.task?, taskAt_append] at found
    split at found
    · exact dormant task (List.mem_of_getElem? found)
    · exact shut.idle index task found
  cases State.Step.move taken with
  | @item c i env call task moved shared atCall atItem _ _ stepped =>
    have found : state.task? (c, i) = some task := (taskAt_of_call atCall i).trans atItem
    obtain ⟨kill, rfl, _, opened | ⟨rfl, stays⟩⟩ := Task.enters stepped (shut.idle (c, i) task found)
    · exact absurd opened (refuses _)
    · refine ⟨⟨shut.closed, fun index other isOther => ?_⟩, rfl⟩
      rw [State.task?, taskAt_item atCall atItem] at isOther
      split at isOther
      · cases isOther
        exact stays
      · exact shut.idle index other isOther
  | journal _ _ _ _ admitted => exact invoked admitted
  | invoke _ _ admitted => exact invoked admitted
  | @advance c shared call moved more atCall _ dormant items advanced =>
    have isClosed := advance_closed advanced shut.closed
    obtain ⟨metrics, closing, closed, rfl⟩ := advance_flags advanced
    refine ⟨⟨isClosed, fun index task found => ?_⟩, rfl⟩
    rw [State.task?, taskAt_set atCall] at found
    split at found
    · next here =>
      obtain ⟨c', i⟩ := index
      simp only at here found
      subst here
      rw [items, List.getElem?_append] at found
      split at found
      · exact shut.idle (c', i) task ((taskAt_of_call atCall i).trans found)
      · exact dormant task (List.mem_of_getElem? found)
    · exact shut.idle index task found

/-! ## One supervisor after the other -/

theorem supervisor_lawful : Lawful supervisor journalsOnce World.Covered Serving Shut where
  boots := by
    intro owner world state covered booted
    cases loads : Shared.boot owner.1 world with
    | error fault =>
      simp only [supervisor, loads] at booted
      cases booted
    | ok shared =>
      simp only [supervisor, loads] at booted
      cases booted
      exact Serving.boot covered loads
  covers := Serving.covered
  puts _ := rfl
  keeps := by
    intro owner state action next serving _ allowed taken
    have servingNext := serving.step allowed taken
    refine ⟨servingNext.covered, ?_⟩
    split
    · next isClosed => exact ⟨isClosed, fun index task found => servingNext.released isClosed found⟩
    · exact servingNext
  silent := by
    intro owner world state action next shut taken
    have isShut : Shut (supervisor.put world state) := ⟨shut.closed, shut.idle⟩
    obtain ⟨stillShut, sameWorld⟩ := isShut.step taken
    exact ⟨stillShut, stillShut.closed, sameWorld⟩

abbrev Supervisors := Host RegistryConfig World State

/-- What holds of all the orchestrators that are ever constructed over one registry. -/
structure HandsOver (registryPath : String) (host : Supervisors) : Prop where
  single : ∀ i j, host.Open supervisor i → host.Open supervisor j → i = j
  /-- another constructor raises while one of them is open -/
  exclusive : ∀ i config, host.Open supervisor i →
    host.construct supervisor (ownedBy registryPath) config = (.error (ownedBy registryPath), host)
  /-- and the lock is free once none is -/
  free : (∀ i, ¬ host.Open supervisor i) → host.owner = none
  covered : host.world.Covered
  /-- the file of the open one lists its records, so a successor loads them -/
  records : ∀ (i : Nat) (member : Member RegistryConfig State), host.members[i]? = some member → member.alive = true →
    member.state.shared.closed = false → ∀ branchId, (ofRecords host.world.file).get? branchId = member.state.shared.branches.get? branchId
  /-- what still runs in a closed one neither writes the file nor calls a backend -/
  silent : ∀ (i : Nat) (action : Action) (member : Member RegistryConfig State) (next : Supervisors),
    host.members[i]? = some member → member.state.shared.closed = true →
      host.act supervisor i action = some next → next.world = host.world

theorem registry_hands_over {registryPath : String} {world : World} {host : Supervisors} (covered : world.Covered)
    (reached : Reachable (Host.Step supervisor (ownedBy registryPath)) (Host.Guarded supervisor journalsOnce)
      (Host.fresh world) host) : HandsOver registryPath host := by
  have succession := Succession.of_reachable supervisor_lawful covered reached
  have owner : ∀ {i : Nat} {member : Member RegistryConfig State}, host.members[i]? = some member → member.alive = true →
      member.state.shared.closed = false → host.owner = some i ∧ Serving member.config member.state ∧
        member.state.shared.toWorld = host.world := by
    intro i member found alive isOpen
    have holds := succession.working i member found alive
    rwa [if_neg (by simp [supervisor, isOpen])] at holds
  refine ⟨fun _ _ => succession.single, ?_, succession.free, succession.covered, ?_, ?_⟩
  · rintro i config ⟨member, found, alive, isOpen⟩
    unfold Host.construct
    rw [(owner found alive isOpen).1]
  · intro i member found alive isOpen branchId
    obtain ⟨_, serving, sameWorld⟩ := owner found alive isOpen
    obtain ⟨origin, disciplined, _⟩ := serving.disciplined
    rw [← sameWorld]
    exact disciplined.synced.file member.config.2 branchId
  · exact fun i action member next found isClosed taken => succession.closed_act supervisor_lawful found isClosed taken

/-- The first supervisor dies while it starts a branch, the second one closes and the third one opens; a call of
the second one is still under way. -/
def generations : List (Event RegistryConfig Action) :=
  [.construct ⟨serialConfig, rfl⟩, .act 0 (.invoke (.createParent "p" [] none) returns), .act 0 (.item 0 0 returns),
    .construct ⟨serialConfig, rfl⟩, .die 0, .construct ⟨serialConfig, rfl⟩, .act 1 (.invoke (.kill "q") returns),
    .act 1 (.invoke .close returns), .act 1 (.advance 1), .act 1 (.item 1 0 returns), .act 1 (.item 1 0 returns),
    .act 1 (.item 1 0 returns), .act 1 (.item 1 0 returns), .act 1 (.advance 1), .construct ⟨serialConfig, rfl⟩,
    .act 2 (.invoke (.createParent "q" [] none) returns), .act 1 (.item 0 0 returns)]

theorem generations_hand_over :
    HandsOver "registry.json" (runFrom (Host.step supervisor (ownedBy "registry.json")) (Host.fresh ⟨[], ∅, ∅⟩) generations) :=
  registry_hands_over (fun _ held => absurd held (by simp)) (reachable_runFrom (by decide) (by decide))

end Agentfork.Orchestrator

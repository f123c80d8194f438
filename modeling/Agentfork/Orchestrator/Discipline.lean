import Agentfork.Library.Ownership
import Agentfork.Orchestrator.TaskMoves

/-! # What an operation in flight may rely on

`View` is what the protocol sees of one branch id. For each phase of a task
`StartOwns` and `KillOwns` say what holds of the id while the task is in it, and
`Idle` what holds of an id that no task works on. One step of a task touches only
its own id and leads from the facts of one phase to those of the next. -/

namespace Agentfork.Orchestrator

open Shared

/-! ## Views -/

/-- One branch id in registry, marks and backends. `owned` is for the ids that
this process has loaded or journaled. -/
structure View where
  record : Option (BranchState × Option BranchId)
  kv : Prop
  sandbox : Prop
  spawning : Prop
  killing : Prop
  loaded : Prop
  owned : Prop

namespace Shared

def view (origin : Finset BranchId) (shared : Shared) (branchId : BranchId) : View where
  record := (shared.branches.get? branchId).map fun branch => (branch.state, branch.parentId)
  kv := branchId ∈ shared.kv
  sandbox := branchId ∈ shared.sandbox
  spawning := branchId ∈ shared.spawning
  killing := branchId ∈ shared.killing
  loaded := branchId ∈ shared.loaded
  owned := branchId ∈ shared.started ∨ branchId ∈ origin

variable (origin : Finset BranchId) (shared : Shared) (branchId other : BranchId)

theorem view_quiet {before after : Shared} (quiet : Quiet before after) :
    after.view origin branchId = before.view origin branchId := by
  rw [view, view, quiet.branches, quiet.loaded, quiet.spawning, quiet.killing, quiet.started, quiet.world]

@[simp] theorem view_holdKv : (shared.holdKv branchId).view origin other =
    if other = branchId then { shared.view origin other with kv := True } else shared.view origin other := by
  by_cases here : other = branchId <;> simp [view, holdKv, here]

@[simp] theorem view_dropKv : (shared.dropKv branchId).view origin other =
    if other = branchId then { shared.view origin other with kv := False } else shared.view origin other := by
  by_cases here : other = branchId <;> simp [view, dropKv, here]

@[simp] theorem view_holdSandbox : (shared.holdSandbox branchId).view origin other =
    if other = branchId then { shared.view origin other with sandbox := True }
    else shared.view origin other := by
  by_cases here : other = branchId <;> simp [view, holdSandbox, here]

@[simp] theorem view_dropSandbox : (shared.dropSandbox branchId).view origin other =
    if other = branchId then { shared.view origin other with sandbox := False }
    else shared.view origin other := by
  by_cases here : other = branchId <;> simp [view, dropSandbox, here]

@[simp] theorem view_doneSpawning : (shared.doneSpawning branchId).view origin other =
    if other = branchId then { shared.view origin other with spawning := False }
    else shared.view origin other := by
  by_cases here : other = branchId <;> simp [view, doneSpawning, here]

@[simp] theorem view_doneKilling : (shared.doneKilling branchId).view origin other =
    if other = branchId then { shared.view origin other with killing := False }
    else shared.view origin other := by
  by_cases here : other = branchId <;> simp [view, doneKilling, here]

@[simp] theorem view_markKilling : (shared.markKilling branchId).view origin other =
    if other = branchId then { shared.view origin other with killing := True }
    else shared.view origin other := by
  by_cases here : other = branchId <;> simp [view, markKilling, here]

theorem view_replaced (config : Config) (branch : Branch) :
    (write config { shared with branches := shared.branches.insert branchId branch }).view origin other =
      if other = branchId then { shared.view origin other with record := some (branch.state, branch.parentId) }
      else shared.view origin other := by
  by_cases here : other = branchId <;> simp [view, here]

theorem view_forgotten (config : Config) :
    ({ write config { shared with branches := shared.branches.erase branchId } with
      loaded := shared.loaded.erase branchId } : Shared).view origin other =
      if other = branchId then { shared.view origin other with record := none, loaded := False }
      else shared.view origin other := by
  by_cases here : other = branchId <;> simp [view, here]

end Shared

/-! ## Changes that no task sees -/

/-- No id looks different afterwards. -/
structure Silent (config : Config) (before after : Shared) : Prop where
  view : ∀ origin branchId, after.view origin branchId = before.view origin branchId
  synced : Synced config before → Synced config after
  spawning : after.spawning = before.spawning
  killing : after.killing = before.killing
  started : after.started = before.started

namespace Silent

variable {config : Config}

theorem of_quiet {before after : Shared} (quiet : Quiet before after) : Silent config before after :=
  ⟨fun origin branchId => view_quiet origin branchId quiet, quiet.synced, quiet.spawning, quiet.killing,
    quiet.started⟩

theorem refl (shared : Shared) : Silent config shared shared := of_quiet (Quiet.refl shared)

/-- Counters and closing flags are read by no task's facts. -/
theorem flags (shared : Shared) (metrics : Metrics) (closing closed : Bool) :
    Silent config shared { shared with metrics := metrics, closing := closing, closed := closed } :=
  of_quiet ⟨rfl, fun _ => rfl, rfl, rfl, rfl, rfl⟩

end Silent

/-! ## The discipline -/

/-- Of an id that is not in the middle of an operation: once forgotten it is in
no backend, and live means complete. Loaded records are complete or not. -/
structure Settled (view : View) : Prop where
  forgotten : view.record = none → view.owned → ¬ view.kv ∧ ¬ view.sandbox
  complete : ∀ parentId, view.record = some (.live, parentId) → ¬ view.loaded → view.kv ∧ view.sandbox
  recorded : view.record.isSome = true → view.owned
  loaded : view.loaded → view.record.isSome = true

structure Idle (view : View) : Prop extends Settled view where
  notSpawning : ¬ view.spawning
  notKilling : ¬ view.killing

/-- What a start may rely on in each phase. -/
def StartPhase.Owns (view : View) (parentId : Option BranchId) : StartPhase → Prop
  | .queued | .kvStart | .rollbackKv _ => view.record = some (.forking, parentId)
  | .sandboxSpawn => view.record = some (.forking, parentId) ∧ view.kv
  | .waitReady | .kvExtend | .goLive =>
    view.record = some (.forking, parentId) ∧ view.kv ∧ view.sandbox
  | .rollbackSandbox _ failed =>
    view.record = some (.forking, parentId) ∧ (failed = false → ¬ view.kv)
  | .rollbackForget _ =>
    view.record = some (.forking, parentId) ∧ ¬ view.kv ∧ ¬ view.sandbox
  | .settle _ => Settled view
  | .finished _ => True

structure StartOwns (view : View) (task : StartTask) : Prop where
  spawning : view.spawning
  notKilling : ¬ view.killing
  notLoaded : ¬ view.loaded
  owned : view.owned
  phase : task.phase.Owns view task.parentId

/-- What a kill may rely on in each phase. -/
def KillPhase.Owns (view : View) : KillPhase → Prop
  | .kvKill => ¬ view.sandbox
  | .forget _ => ¬ view.kv ∧ ¬ view.sandbox
  | _ => True

structure KillOwns (view : View) (task : KillTask) : Prop where
  notSpawning : ¬ view.spawning
  killing : view.killing
  owned : view.owned
  record : ∃ parentId, view.record = some (.killing, parentId)
  phase : task.phase.Owns view

def lifecycle : Discipline BranchId View Task where
  key := Task.branchId
  active task := task.active = true
  owns view
    | .start task => StartOwns view task
    | .kill task => KillOwns view task
  idle := Idle

/-! ## What the sections make of the view -/

section Steps

variable {config : Config} {env : Env} {origin : Finset BranchId} {shared after : Shared}

/-- Only the view of `branchId` may have changed. -/
def OnlyAt (origin : Finset BranchId) (branchId : BranchId) (before after : Shared) : Prop :=
  ∀ other, other ≠ branchId → after.view origin other = before.view origin other

theorem view_record_of_get? {branchId : BranchId} {branch : Branch}
    (found : shared.branches.get? branchId = some branch) :
    (shared.view origin branchId).record = some (branch.state, branch.parentId) := by
  rw [view, found]
  rfl

/-- One step of a start touches only its id. -/
theorem startStep_onlyAt {task : StartTask} {phase : StartPhase}
    (taken : startStep config env shared task = some (after, phase)) :
    OnlyAt origin task.branchId shared after := by
  intro other differs
  cases startStep_move taken with
  | begins => rfl
  | calls _ call replies =>
    obtain rfl | rfl := replies.state
    · cases call <;> simp [differs]
    · rfl
  | goesLive => rw [view_replaced, if_neg differs]
  | forgets => rw [view_forgotten, if_neg differs]
  | staysForking _ _ quiet | staysRecorded _ _ quiet => exact view_quiet origin other quiet
  | ends => rw [view_doneSpawning, if_neg differs]

/-- A record that was never made live counts as settled. -/
theorem Settled.of_forking {view : View} {parentId : Option BranchId} (isForking : view.record = some (.forking, parentId))
    (owned : view.owned) (notLoaded : ¬ view.loaded) : Settled view := by
  refine ⟨?_, ?_, fun _ => owned, fun loaded => absurd loaded notLoaded⟩
  · intro impossible
    rw [isForking] at impossible
    cases impossible
  · intro _ impossible
    rw [isForking] at impossible
    cases impossible

theorem StartOwns.change {view next : View} {task : StartTask} {phase : StartPhase}
    (owns : StartOwns view task) (spawning : next.spawning = view.spawning)
    (killing : next.killing = view.killing) (loaded : next.loaded = view.loaded)
    (owned : next.owned = view.owned) (here : phase.Owns next task.parentId) :
    StartOwns next { task with phase := phase } :=
  ⟨spawning ▸ owns.spawning, killing ▸ owns.notKilling, loaded ▸ owns.notLoaded,
    owned ▸ owns.owned, here⟩

/-- One step of a start that goes on. -/
theorem startStep_owns {task : StartTask} {phase : StartPhase}
    (owns : StartOwns (shared.view origin task.branchId) task)
    (taken : startStep config env shared task = some (after, phase))
    (running : ∀ outcome, phase ≠ .finished outcome) :
    StartOwns (after.view origin task.branchId) { task with phase := phase } := by
  have here := owns.phase
  cases startStep_move taken with
  | begins atPhase =>
    rw [atPhase] at here
    exact owns.change rfl rfl rfl rfl here
  | calls atPhase call replies =>
    rw [atPhase] at here
    cases call with
    | kvStart =>
      cases replies with
      | working | raised =>
        rw [view_holdKv, if_pos rfl]
        exact owns.change rfl rfl rfl rfl here
      | returned =>
        rw [view_holdKv, if_pos rfl]
        exact owns.change rfl rfl rfl rfl ⟨here, trivial⟩
      | refused => exact owns.change rfl rfl rfl rfl here
    | sandboxSpawn =>
      cases replies with
      | working =>
        rw [view_holdSandbox, if_pos rfl]
        exact owns.change rfl rfl rfl rfl here
      | returned =>
        rw [view_holdSandbox, if_pos rfl]
        refine owns.change rfl rfl rfl rfl ?_
        unfold StartTask.afterSpawn StartTask.afterReady
        split
        · exact ⟨here.1, here.2, trivial⟩
        · split
          · exact ⟨here.1, here.2, trivial⟩
          · split <;> exact ⟨here.1, here.2, trivial⟩
      | raised =>
        rw [view_holdSandbox, if_pos rfl]
        exact owns.change rfl rfl rfl rfl here.1
      | refused => exact owns.change rfl rfl rfl rfl here.1
    | waitReady =>
      cases replies with
      | working => exact owns.change rfl rfl rfl rfl here
      | returned =>
        refine owns.change rfl rfl rfl rfl ?_
        unfold StartTask.afterReady
        split <;> exact here
      | raised | refused => exact owns.change rfl rfl rfl rfl here.1
    | kvExtend =>
      cases replies with
      | working | returned => exact owns.change rfl rfl rfl rfl here
      | raised | refused => exact owns.change rfl rfl rfl rfl here.1
    | rollbackKv =>
      cases replies with
      | working =>
        rw [view_dropKv, if_pos rfl]
        exact owns.change rfl rfl rfl rfl here
      | returned =>
        rw [view_dropKv, if_pos rfl]
        exact owns.change rfl rfl rfl rfl ⟨here, fun _ => not_false⟩
      | raised =>
        rw [view_dropKv, if_pos rfl]
        exact owns.change rfl rfl rfl rfl ⟨here, nofun⟩
      | refused => exact owns.change rfl rfl rfl rfl ⟨here, nofun⟩
    | @rollbackSandbox _ failed =>
      cases replies with
      | working =>
        rw [view_dropSandbox, if_pos rfl]
        exact owns.change rfl rfl rfl rfl here
      | returned =>
        rw [view_dropSandbox, if_pos rfl]
        refine owns.change rfl rfl rfl rfl ?_
        cases failed with
        | true => exact .of_forking here.1 owns.owned owns.notLoaded
        | false => exact ⟨here.1, here.2 rfl, not_false⟩
      | raised =>
        rw [view_dropSandbox, if_pos rfl]
        exact owns.change rfl rfl rfl rfl (.of_forking here.1 owns.owned owns.notLoaded)
      | refused => exact owns.change rfl rfl rfl rfl (.of_forking here.1 owns.owned owns.notLoaded)
  | goesLive atPhase =>
    rw [atPhase] at here
    rw [view_replaced, if_pos rfl]
    exact owns.change rfl rfl rfl rfl ⟨nofun, fun _ _ _ => here.2, fun _ => owns.owned, fun loaded =>
      absurd loaded owns.notLoaded⟩
  | staysForking atPhase _ quiet =>
    rw [atPhase] at here
    rw [view_quiet origin task.branchId quiet]
    exact owns.change rfl rfl rfl rfl here.1
  | forgets atPhase =>
    rw [atPhase] at here
    rw [view_forgotten, if_pos rfl]
    exact ⟨owns.spawning, owns.notKilling, not_false, owns.owned, fun _ _ => here.2, nofun, nofun, nofun⟩
  | staysRecorded atPhase _ quiet =>
    rw [atPhase] at here
    rw [view_quiet origin task.branchId quiet]
    exact owns.change rfl rfl rfl rfl (.of_forking here.1 owns.owned owns.notLoaded)
  | ends => exact absurd rfl (running _)

theorem afterReady_ne_finished (task : StartTask) (outcome : Except Fault Branch) :
    task.afterReady ≠ .finished outcome := by
  unfold StartTask.afterReady
  split <;> nofun

theorem afterSpawn_ne_finished (config : Config) (task : StartTask) (outcome : Except Fault Branch) :
    task.afterSpawn config ≠ .finished outcome := by
  unfold StartTask.afterSpawn
  split
  · nofun
  · split
    · nofun
    · exact afterReady_ne_finished task outcome

/-- A start ends with clearing its mark. -/
theorem startStep_finished {task : StartTask} {outcome : Except Fault Branch}
    (taken : startStep config env shared task = some (after, .finished outcome)) :
    task.phase = .settle outcome ∧ after = shared.doneSpawning task.branchId := by
  generalize ending : StartPhase.finished outcome = phase at taken
  cases startStep_move taken with
  | begins | goesLive | staysForking | forgets | staysRecorded => cases ending
  | calls _ call replies =>
    cases call with
    | kvStart | kvExtend | rollbackKv => cases replies <;> cases ending
    | sandboxSpawn =>
      cases replies with
      | working | raised | refused => cases ending
      | returned => exact absurd ending.symm (afterSpawn_ne_finished config task outcome)
    | waitReady =>
      cases replies with
      | working | raised | refused => cases ending
      | returned => exact absurd ending.symm (afterReady_ne_finished task outcome)
    | @rollbackSandbox _ failed => cases replies <;> cases failed <;> cases ending
  | ends atPhase =>
    cases ending
    exact ⟨atPhase, rfl⟩

theorem startStep_idle {task : StartTask} {outcome : Except Fault Branch}
    (owns : StartOwns (shared.view origin task.branchId) task)
    (taken : startStep config env shared task = some (after, .finished outcome)) :
    Idle (after.view origin task.branchId) := by
  obtain ⟨settling, cleared⟩ := startStep_finished taken
  have settled : Settled (shared.view origin task.branchId) := by
    have here := owns.phase
    rw [settling] at here
    exact here
  subst cleared
  rw [view_doneSpawning, if_pos rfl]
  exact ⟨⟨settled.forgotten, settled.complete, settled.recorded, settled.loaded⟩, not_false,
    owns.notKilling⟩

/-! ## Kills -/

theorem killStep_onlyAt {task : KillTask} {phase : KillPhase}
    (taken : killStep config env shared task = some (after, phase)) :
    OnlyAt origin task.branchId shared after := by
  intro other differs
  cases killStep_move taken with
  | refused _ _ quiet => exact view_quiet origin other quiet
  | admitted =>
    refine (view_replaced origin (shared.markKilling task.branchId) task.branchId other config _).trans ?_
    rw [if_neg differs, view_markKilling, if_neg differs]
  | calls _ call replies =>
    obtain rfl | rfl := replies.state
    · cases call <;> simp [differs]
    · rfl
  | fails =>
    refine (view_doneKilling origin shared task.branchId other).trans ?_
    rw [if_neg differs]
  | forgets =>
    refine (view_forgotten origin (shared.doneKilling task.branchId) task.branchId other config).trans ?_
    rw [if_neg differs, view_doneKilling, if_neg differs]
  | staysRecorded _ _ quiet => rw [view_quiet origin other quiet, view_doneKilling, if_neg differs]

theorem KillOwns.change {view next : View} {task : KillTask} {phase : KillPhase} (owns : KillOwns view task)
    (spawning : next.spawning = view.spawning) (killing : next.killing = view.killing)
    (owned : next.owned = view.owned) (record : next.record = view.record) (here : phase.Owns next) :
    KillOwns next { task with phase := phase } :=
  ⟨spawning ▸ owns.notSpawning, killing ▸ owns.killing, owned ▸ owns.owned, record ▸ owns.record, here⟩

/-- The first step of a kill, if it journals its intent. -/
theorem killStep_enters {task : KillTask} {phase : KillPhase} (queued : task.phase = .queued)
    (recorded : (shared.view origin task.branchId).record.isSome = true →
      (shared.view origin task.branchId).owned)
    (taken : killStep config env shared task = some (after, phase)) :
    (∃ outcome, phase = .finished outcome ∧ Silent config shared after) ∨
    phase = .sandboxKill ∧ task.branchId ∉ shared.killing ∧ task.branchId ∉ shared.spawning ∧
      KillOwns (after.view origin task.branchId) { task with phase := phase } := by
  cases killStep_move taken with
  | refused _ _ quiet => exact .inl ⟨_, rfl, .of_quiet quiet⟩
  | @admitted previous _ found notKilling notSpawning =>
    have changed := view_replaced origin (shared.markKilling task.branchId) task.branchId task.branchId
      config (setState .killing previous)
    rw [if_pos rfl, view_markKilling, if_pos rfl] at changed
    have wasRecorded := recorded (by rw [view_record_of_get? found]; rfl)
    exact .inr ⟨rfl, notKilling, notSpawning, changed ▸ ⟨notSpawning, trivial, wasRecorded, ⟨_, rfl⟩, trivial⟩⟩
  | calls atPhase call =>
    rw [queued] at atPhase
    subst atPhase
    cases call
  | fails atPhase | forgets atPhase | staysRecorded atPhase =>
    rw [queued] at atPhase
    cases atPhase

theorem killStep_ne_queued {task : KillTask} {phase : KillPhase}
    (taken : killStep config env shared task = some (after, phase)) : phase ≠ .queued := by
  intro isQueued
  cases killStep_move taken with
  | refused | admitted | fails | forgets | staysRecorded => cases isQueued
  | calls _ call replies => cases call <;> cases replies <;> cases isQueued

/-- A later step of a kill that goes on. -/
theorem killStep_owns {task : KillTask} {phase : KillPhase} (begun : task.phase ≠ .queued)
    (owns : KillOwns (shared.view origin task.branchId) task)
    (taken : killStep config env shared task = some (after, phase))
    (running : ∀ outcome, phase ≠ .finished outcome) :
    KillOwns (after.view origin task.branchId) { task with phase := phase } := by
  have here := owns.phase
  cases killStep_move taken with
  | refused atPhase | admitted atPhase => exact absurd atPhase begun
  | calls atPhase call replies =>
    rw [atPhase] at here
    cases call with
    | sandboxKill =>
      cases replies with
      | working | raised =>
        rw [view_dropSandbox, if_pos rfl]
        exact owns.change rfl rfl rfl rfl trivial
      | returned =>
        rw [view_dropSandbox, if_pos rfl]
        exact owns.change rfl rfl rfl rfl not_false
      | refused => exact owns.change rfl rfl rfl rfl trivial
    | kvKill =>
      cases replies with
      | working =>
        rw [view_dropKv, if_pos rfl]
        exact owns.change rfl rfl rfl rfl here
      | returned =>
        rw [view_dropKv, if_pos rfl]
        exact owns.change rfl rfl rfl rfl ⟨not_false, here⟩
      | raised =>
        rw [view_dropKv, if_pos rfl]
        exact owns.change rfl rfl rfl rfl trivial
      | refused => exact owns.change rfl rfl rfl rfl trivial
  | fails | forgets | staysRecorded => exact absurd rfl (running _)

/-- A branch whose kill has raised stays recorded as being killed. -/
theorem KillOwns.idle {view next : View} {task : KillTask} (owns : KillOwns view task)
    (spawning : next.spawning = view.spawning) (owned : next.owned = view.owned)
    (record : next.record = view.record) (cleared : ¬ next.killing) : Idle next := by
  obtain ⟨parentId, isKilling⟩ := owns.record
  rw [← record] at isKilling
  refine ⟨⟨?_, ?_, fun _ => owned ▸ owns.owned, ?_⟩, spawning ▸ owns.notSpawning, cleared⟩
  · intro impossible
    rw [isKilling] at impossible
    cases impossible
  · intro _ impossible
    rw [isKilling] at impossible
    cases impossible
  · intro _
    rw [isKilling]
    rfl

theorem killStep_idle {task : KillTask} {outcome : Except Fault KillReceipt} (begun : task.phase ≠ .queued)
    (owns : KillOwns (shared.view origin task.branchId) task)
    (taken : killStep config env shared task = some (after, .finished outcome)) :
    Idle (after.view origin task.branchId) := by
  have here := owns.phase
  cases killStep_move taken with
  | refused atPhase => exact absurd atPhase begun
  | calls _ call replies => cases call <;> cases replies
  | fails =>
    have cleared := view_doneKilling origin shared task.branchId task.branchId
    rw [if_pos rfl] at cleared
    change Idle ((shared.doneKilling task.branchId).view origin task.branchId)
    rw [cleared]
    exact owns.idle rfl rfl rfl not_false
  | staysRecorded _ _ quiet =>
    rw [view_quiet origin task.branchId quiet, view_doneKilling, if_pos rfl]
    exact owns.idle rfl rfl rfl not_false
  | forgets atPhase =>
    rw [atPhase] at here
    have forgotten := view_forgotten origin (shared.doneKilling task.branchId) task.branchId
      task.branchId config
    rw [if_pos rfl, view_doneKilling, if_pos rfl] at forgotten
    change Idle (({ write config { shared.doneKilling task.branchId with
      branches := shared.branches.erase task.branchId } with
      loaded := shared.loaded.erase task.branchId } : Shared).view origin task.branchId)
    refine forgotten ▸ ?_
    exact ⟨⟨fun _ _ => here, nofun, nofun, nofun⟩, owns.notSpawning, not_false⟩

end Steps

end Agentfork.Orchestrator

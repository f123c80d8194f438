import Agentfork.Orchestrator.Invariant
import Agentfork.Orchestrator.Marks

/-! # Journaling, completeness of live branches, exclusion

What the invariant says about every state of a run. A run that starts no id
twice never journals an id that is still marked, so the invariant holds of it. -/

namespace Agentfork.Orchestrator

open Shared Transition

variable {config : Config} {world : World} {shared : Shared} {state : State}

/-! ## Runs that start no id twice -/

theorem boot_unmarked (booted : Shared.boot config world = .ok shared) : shared.spawning = ∅ := by
  unfold Shared.boot at booted
  simp only at booted
  split at booted <;> cases booted
  rfl

theorem reachable_unmarked (booted : Shared.boot config world = .ok shared)
    (reached : Reachable (State.Step config) always (State.fresh shared) state)
    (once : state.shared.started.Nodup) :
    Reachable (State.Step config) (State.Unmarked config) (State.fresh shared) state ∧
      ∀ branchId ∈ state.shared.spawning, branchId ∈ state.shared.started := by
  induction reached with
  | refl =>
    refine ⟨.refl, fun branchId member => ?_⟩
    rw [State.fresh, boot_unmarked booted] at member
    exact absurd member (Finset.notMem_empty branchId)
  | @tail before after action _ _ taken inductionHypothesis =>
    obtain ⟨more, history, marked⟩ := State.Step.history taken
    rw [history, List.nodup_append] at once
    obtain ⟨reachedBefore, markedBefore⟩ := inductionHypothesis once.1
    refine ⟨.tail reachedBefore (fun branchId journaled marked => ?_) taken, fun branchId member => ?_⟩
    · unfold State.journals at journaled
      rw [show before.step config action = some after from taken] at journaled
      simp only [history, List.drop_left] at journaled
      exact once.2.2 branchId (markedBefore branchId marked) branchId journaled rfl
    · rw [history, List.mem_append]
      exact (marked branchId member).imp_left (markedBefore branchId)

theorem disciplined_of_once (booted : Shared.boot config world = .ok shared)
    (reached : Reachable (State.Step config) always (State.fresh shared) state)
    (once : state.shared.started.Nodup) : Disciplined config shared.loaded state :=
  disciplined_of_reachable booted (reachable_unmarked booted reached once).1

/-! ## A serial orchestrator on an empty registry -/

def serialConfig : Config where
  registry := true
  parallelLifecycle := false
  waitReady := false
  externalDataPath := false
  defaultLease := none
  isDigit _ := false
  parseInt _ := .ok 0

def blank : Shared where
  file := []
  kv := ∅
  sandbox := ∅
  branches := .empty
  loaded := ∅
  spawning := ∅
  killing := ∅
  seq := 0
  closing := false
  closed := false
  metrics := ⟨0, 0, 0, 0, 0⟩
  started := []

theorem boot_blank : Shared.boot serialConfig ⟨[], ∅, ∅⟩ = .ok blank := rfl

def returns : Env := ⟨.returned, none, 0, 0, []⟩

def raises (fault : Fault) : Env := ⟨.raised fault false, none, 0, 0, []⟩

/-- The state of the serial orchestrator after the actions. -/
def serialRun (actions : List Action) : State :=
  runFrom (State.step serialConfig) (State.fresh blank) actions

theorem serialRun_reachable {guard : State → Action → Prop} {actions : List Action}
    (enabled : (run (State.step serialConfig) (State.fresh blank) actions).isSome = true)
    (meets : Meets (State.step serialConfig) guard (State.fresh blank) actions) :
    Reachable (State.Step serialConfig) guard (State.fresh blank) (serialRun actions) :=
  reachable_runFrom enabled meets

/-! ## Write-ahead journaling -/

/-- An id of this process that a backend holds is recorded. -/
theorem Disciplined.recorded_of_held {origin : Finset BranchId} (disciplined : Disciplined config origin state)
    {branchId : BranchId} (mine : (state.shared.view origin branchId).owned)
    (held : branchId ∈ state.shared.kv ∨ branchId ∈ state.shared.sandbox) :
    branchId ∈ state.shared.branches := by
  -- a view without a record has neither half
  have settledRecorded : Settled (state.shared.view origin branchId) →
      branchId ∈ state.shared.branches := by
    intro settled
    by_contra absent
    have noRecord : (state.shared.view origin branchId).record = none := by
      rw [view, Dict.get?_eq_none.2 absent]
      rfl
    obtain ⟨notKv, notSandbox⟩ := settled.forgotten noRecord mine
    obtain kv | sandbox := held
    · exact notKv kv
    · exact notSandbox sandbox
  have ofRecord : ∀ {found}, (state.shared.view origin branchId).record = some found →
      branchId ∈ state.shared.branches := by
    intro found isRecord
    obtain ⟨branch, stored, _⟩ := Option.map_eq_some_iff.1 isRecord
    exact Dict.mem_of_get? stored
  by_cases nobody : ∀ index task, state.task? index = some task → task.active = true →
      task.branchId ≠ branchId
  · exact settledRecorded (disciplined.owned.idle branchId nobody).toSettled
  · simp only [not_forall, not_not] at nobody
    obtain ⟨index, task, found, active, rfl⟩ := nobody
    have owns := disciplined.owned.owns index task found active
    cases task with
    | start task =>
      obtain ⟨branchId, parentId, tokens, phase⟩ := task
      have here := StartOwns.phase owns
      cases phase with
      | queued | kvStart | rollbackKv => exact ofRecord here
      | sandboxSpawn | waitReady | kvExtend | goLive | rollbackSandbox | rollbackForget =>
        exact ofRecord here.1
      | settle => exact settledRecorded here
      | finished => cases active
    | kill task =>
      obtain ⟨parentId, record⟩ := KillOwns.record owns
      exact ofRecord record

theorem mem_ofRecords {file : List Branch} {branchId : BranchId} :
    branchId ∈ ofRecords file ↔ ∃ branch ∈ file, branch.branchId = branchId := by
  have general : ∀ branches : Dict BranchId Branch, branchId ∈ insertAll file branches ↔
      (∃ branch ∈ file, branch.branchId = branchId) ∨ branchId ∈ branches := by
    induction file with
    | nil => intro branches; simp [insertAll]
    | cons first file inductionHypothesis =>
      intro branches
      change branchId ∈ insertAll file (branches.insert first.branchId first) ↔ _
      rw [inductionHypothesis, Dict.mem_insert]
      simp only [List.exists_mem_cons_iff, eq_comm (a := branchId), or_assoc, or_left_comm]
  rw [ofRecords, general]
  simp

/-- Memory and file list the same ids. -/
theorem Shared.Synced.mem_file (synced : Synced config shared) (registry : config.registry = true)
    {branchId : BranchId} :
    branchId ∈ shared.branches ↔ ∃ branch ∈ shared.file, branch.branchId = branchId := by
  rw [← mem_ofRecords, Dict.mem_iff_get?, Dict.mem_iff_get?, synced.file registry]

/-- Whatever a backend holds of a branch that this process has started is listed
in the registry file, in every state of every run, so also when it is cut short. -/
theorem held_is_journaled (registry : config.registry = true)
    (booted : Shared.boot config world = .ok shared)
    (reached : Reachable (State.Step config) always (State.fresh shared) state)
    (once : state.shared.started.Nodup) {branchId : BranchId} (mine : branchId ∈ state.shared.started)
    (held : branchId ∈ state.shared.kv ∨ branchId ∈ state.shared.sandbox) :
    ∃ branch ∈ state.shared.file, branch.branchId = branchId := by
  have disciplined := disciplined_of_once booted reached once
  exact (disciplined.synced.mem_file registry).1 (disciplined.recorded_of_held (.inl mine) held)

/-- The first branch is in its sandbox call. -/
def startingRun : List Action := [.invoke (.createParent "p" [] none) returns, .item 0 0 returns]

theorem startingRun_held_is_journaled : "p" ∈ (serialRun startingRun).shared.kv ∧
    ∃ branch ∈ (serialRun startingRun).shared.file, branch.branchId = "p" :=
  ⟨by decide, held_is_journaled rfl boot_blank (serialRun_reachable (by decide) meets_always)
    (by decide) (by decide) (.inl (by decide))⟩

/-! ## Live branches are complete -/

section Live

variable {origin : Finset BranchId} {env : Env} {after : Shared}

/-- A start makes a record live in the section that has found the parent live. -/
theorem startStep_live {task : StartTask} {phase : StartPhase} {parentId : Option BranchId}
    (owns : StartOwns (shared.view origin task.branchId) task)
    (taken : startStep config env shared task = some (after, phase))
    (live : (after.view origin task.branchId).record = some (.live, parentId)) :
    (shared.view origin task.branchId).record = some (.live, parentId) ∨
      parentId = task.parentId ∧ ∀ parent, task.parentId = some parent → shared.isLive parent = true := by
  cases startStep_move taken with
  | begins => exact .inl live
  | calls _ call replies =>
    obtain rfl | rfl := replies.state
    · cases call <;> exact .inl (by simpa using live)
    · exact .inl live
  | goesLive atPhase found parentLive =>
    have here := owns.phase
    simp only [atPhase, StartPhase.Owns, view_record_of_get? found, Option.some.injEq, Prod.mk.injEq] at here
    rw [view_replaced, if_pos rfl] at live
    simp only [setState, Option.some.injEq, Prod.mk.injEq, true_and] at live
    exact .inr ⟨live.symm.trans here.1.2, parentLive⟩
  | staysForking _ _ quiet | staysRecorded _ _ quiet =>
    rw [view_quiet origin task.branchId quiet] at live
    exact .inl live
  | forgets =>
    rw [view_forgotten, if_pos rfl] at live
    cases live
  | ends => exact .inl (by simpa using live)

/-- A kill makes no record live. -/
theorem killStep_live {task : KillTask} {phase : KillPhase} {parentId : Option BranchId}
    (taken : killStep config env shared task = some (after, phase))
    (live : (after.view origin task.branchId).record = some (.live, parentId)) :
    (shared.view origin task.branchId).record = some (.live, parentId) := by
  cases killStep_move taken with
  | refused _ _ quiet =>
    rw [view_quiet origin task.branchId quiet] at live
    exact live
  | @admitted previous =>
    have changed := view_replaced origin (shared.markKilling task.branchId) task.branchId task.branchId
      config (setState .killing previous)
    rw [if_pos rfl] at changed
    have isKilling := congrArg View.record changed
    cases isKilling.symm.trans live
  | calls _ call replies =>
    obtain rfl | rfl := replies.state
    · cases call <;> simpa using live
    · exact live
  | fails => exact live
  | forgets =>
    have forgotten := view_forgotten origin (shared.doneKilling task.branchId) task.branchId
      task.branchId config
    rw [if_pos rfl] at forgotten
    have noRecord := congrArg View.record forgotten
    cases noRecord.symm.trans live
  | staysRecorded _ _ quiet =>
    rw [view_quiet origin task.branchId quiet] at live
    exact live

/-- A record becomes live only while the record of its parent is live. -/
theorem Disciplined.becomes_live (disciplined : Disciplined config origin state) {action : Action}
    {next : State} (taken : state.Step config action next) {branchId parent : BranchId}
    (live : (next.shared.view origin branchId).record = some (.live, some parent)) :
    (state.shared.view origin branchId).record = some (.live, some parent) ∨
      state.shared.isLive parent = true := by
  cases State.Step.move taken with
  | @item c i _ _ task _ _ atCall atItem _ _ stepped =>
    have found : state.task? (c, i) = some task := (taskAt_of_call atCall i).trans atItem
    have moves := Task.step_moves (disciplined.recorded task.branchId) stepped
    by_cases here : branchId = task.branchId
    · subst here
      cases task with
      | start task =>
        obtain ⟨⟨_, phase⟩, startTaken, equal⟩ := Option.map_eq_some_iff.1 stepped
        cases equal
        have active : (Task.start task).active = true := active_start.2 (startStep_unfinished startTaken)
        have owns := disciplined.owned.owns (c, i) _ found active
        obtain before | ⟨isParent, parentLive⟩ := startStep_live owns startTaken live
        · exact .inl before
        · exact .inr (parentLive parent isParent.symm)
      | kill task =>
        obtain ⟨⟨_, phase⟩, killTaken, equal⟩ := Option.map_eq_some_iff.1 stepped
        cases equal
        exact .inl (killStep_live killTaken live)
    · rw [moves.onlyAt branchId here] at live
      exact .inl live
  | @journal _ _ children _ _ _ _ journaled _ _ _ _ =>
    simp only [view, journaled.branches] at live
    cases located : children.find? fun child => child.branchId = branchId with
    | none =>
      rw [located, Option.none_or] at live
      exact .inl live
    | some child =>
      rw [located, Option.some_or, Option.map_some,
        journaled.forking child (List.mem_of_find?_eq_some located)] at live
      cases live
  | invoke silent _ _ | advance _ silent _ _ _ =>
    rw [silent.view] at live
    exact .inl live

end Live

/-- Of a branch of this process that is settled or in flight: live means complete. -/
theorem Disciplined.complete {origin : Finset BranchId} (disciplined : Disciplined config origin state)
    {branchId : BranchId} {parentId : Option BranchId}
    (live : (state.shared.view origin branchId).record = some (.live, parentId))
    (notLoaded : branchId ∉ state.shared.loaded) :
    branchId ∈ state.shared.kv ∧ branchId ∈ state.shared.sandbox := by
  by_cases nobody : ∀ index task, state.task? index = some task → task.active = true →
      task.branchId ≠ branchId
  · exact (disciplined.owned.idle branchId nobody).complete parentId live notLoaded
  · simp only [not_forall, not_not] at nobody
    obtain ⟨index, task, found, active, rfl⟩ := nobody
    have owns := disciplined.owned.owns index task found active
    cases task with
    | start task =>
      obtain ⟨branchId, taskParent, tokens, phase⟩ := task
      have here := StartOwns.phase owns
      -- a record is live only in the phase after it has been made so
      have notForking : (state.shared.view origin branchId).record ≠ some (.forking, taskParent) := by
        intro forking
        exact absurd (live.symm.trans forking) nofun
      cases phase with
      | queued | kvStart | rollbackKv => exact absurd here notForking
      | sandboxSpawn | waitReady | kvExtend | goLive | rollbackSandbox | rollbackForget =>
        exact absurd here.1 notForking
      | settle => exact Settled.complete here parentId live notLoaded
      | finished => cases active
    | kill task =>
      obtain ⟨_, record⟩ := KillOwns.record owns
      exact absurd (live.symm.trans record) nofun

/-- In every state of every run: a live record of this process has both halves,
one that lacks a half is on its way in or out, and a child becomes live only in
a step that finds its parent live. -/
theorem live_is_complete (booted : Shared.boot config world = .ok shared)
    (reached : Reachable (State.Step config) always (State.fresh shared) state)
    (once : state.shared.started.Nodup) :
    (∀ branchId branch, state.shared.branches.get? branchId = some branch →
      branchId ∉ state.shared.loaded →
        (branch.state = .live → branchId ∈ state.shared.kv ∧ branchId ∈ state.shared.sandbox) ∧
        (branchId ∉ state.shared.kv ∨ branchId ∉ state.shared.sandbox →
          branch.state = .forking ∨ branch.state = .killing)) ∧
    ∀ action next branchId child parentId, state.Step config action next →
      next.shared.branches.get? branchId = some child → child.state = .live →
      child.parentId = some parentId → state.shared.isLive branchId = false →
      state.shared.isLive parentId = true := by
  have disciplined := disciplined_of_once booted reached once
  refine ⟨fun branchId branch found notLoaded => ?_, fun action next branchId child parentId taken found
    isLive isParent notBefore => ?_⟩
  · have complete : branch.state = .live →
        branchId ∈ state.shared.kv ∧ branchId ∈ state.shared.sandbox := by
      intro isLive
      have live : (state.shared.view shared.loaded branchId).record = some (.live, branch.parentId) := by
        rw [view_record_of_get? found, isLive]
      exact disciplined.complete live notLoaded
    refine ⟨complete, fun lacks => ?_⟩
    cases atState : branch.state with
    | forking => exact .inl rfl
    | killing => exact .inr rfl
    | live =>
      obtain ⟨kv, sandbox⟩ := complete atState
      obtain noKv | noSandbox := lacks
      · exact absurd kv noKv
      · exact absurd sandbox noSandbox
  · have live : (next.shared.view shared.loaded branchId).record = some (.live, some parentId) := by
      rw [view_record_of_get? found, isLive, isParent]
    obtain before | parentLive := disciplined.becomes_live taken live
    · obtain ⟨branch, stored, equal⟩ := Option.map_eq_some_iff.1 before
      rw [Shared.isLive, stored] at notBefore
      simp only [Prod.mk.injEq] at equal
      rw [Option.any_some, equal.1] at notBefore
      cases notBefore
    · exact parentLive

/-- A root is live and its child is about to go live. -/
def forkingRun : List Action :=
  [.invoke (.createParent "p" [] none) returns, .item 0 0 returns, .item 0 0 returns, .item 0 0 returns,
    .item 0 0 returns, .invoke (.fork "p" 1 (some ["c"]) none) returns, .item 1 0 returns, .item 1 0 returns,
    .item 1 0 returns]

theorem forkingRun_live_is_complete : "p" ∈ (serialRun forkingRun).shared.kv ∧
    "p" ∈ (serialRun forkingRun).shared.sandbox ∧ (serialRun forkingRun).shared.isLive "p" = true := by
  let action : Action := .item 1 0 returns
  let next := ((serialRun forkingRun).step serialConfig action).getD (State.fresh blank)
  have taken : (serialRun forkingRun).Step serialConfig action next :=
    (Option.getD_of_ne_none (Option.ne_none_iff_isSome.2 (by decide)) _).symm
  have reached : Reachable (State.Step serialConfig) always (State.fresh blank) (serialRun forkingRun) :=
    serialRun_reachable (by decide) meets_always
  obtain ⟨complete, parentLive⟩ := live_is_complete boot_blank reached (by decide)
  have both := (complete "p" ⟨"p", none, .live, 0, none⟩ (by decide) (by decide)).1 rfl
  have child : next.shared.branches.get? "c" = some ⟨"c", some "p", .live, 0, none⟩ := by decide
  exact ⟨both.1, both.2, parentLive action next "c" _ "p" taken child rfl rfl (by decide)⟩

/-! ## One operation at a time on a branch -/

/-- The task is inside a call to a backend. -/
def Task.inBackend : Task → Bool
  | .start ⟨_, _, _, phase⟩ =>
    match phase with
    | .kvStart | .sandboxSpawn | .waitReady | .kvExtend | .rollbackKv _ | .rollbackSandbox _ _ => true
    | _ => false
  | .kill ⟨_, _, phase⟩ =>
    match phase with
    | .sandboxKill | .kvKill => true
    | _ => false

theorem Task.active_of_inBackend {task : Task} (inBackend : task.inBackend = true) : task.active = true := by
  cases task with
  | start task => obtain ⟨_, _, _, phase⟩ := task; cases phase <;> first | rfl | cases inBackend
  | kill task => obtain ⟨_, _, phase⟩ := task; cases phase <;> first | rfl | cases inBackend

/-- No two operations are in backend calls on one id, and an id is marked while
a branch is being started under it. -/
structure Exclusive (state : State) : Prop where
  alone : ∀ first second firstTask secondTask, state.task? first = some firstTask →
    state.task? second = some secondTask → firstTask.inBackend = true → secondTask.inBackend = true →
    firstTask.branchId = secondTask.branchId → first = second
  marked : ∀ index task, state.task? index = some (.start task) → (Task.start task).active = true →
    task.branchId ∈ state.shared.spawning

theorem exclusive_while_unmarked (booted : Shared.boot config world = .ok shared)
    (reached : Reachable (State.Step config) (State.Unmarked config) (State.fresh shared) state) :
    Exclusive state := by
  have disciplined := disciplined_of_reachable booted reached
  refine ⟨fun first second firstTask secondTask firstFound secondFound firstIn secondIn same => ?_,
    fun index task found active => ?_⟩
  · exact disciplined.owned.unique first second firstTask secondTask firstFound secondFound
      (Task.active_of_inBackend firstIn) (Task.active_of_inBackend secondIn) same
  · exact StartOwns.spawning (disciplined.owned.owns index (.start task) found active)

/-- One creation after the other. -/
def soloRun : List Action :=
  startingRun ++ [.item 0 0 returns, .item 0 0 returns, .item 0 0 returns, .invoke (.kill "p") returns,
    .item 1 0 returns]

instance (config : Config) (state : State) (action : Action) : Decidable (state.Unmarked config action) :=
  inferInstanceAs (Decidable (∀ branchId ∈ state.journals config action, branchId ∉ state.shared.spawning))

theorem soloRun_exclusive : Exclusive (serialRun soloRun) :=
  exclusive_while_unmarked boot_blank (serialRun_reachable (by decide) (by decide))

/-- A caller retries the id of a creation that has been rolled back but has not
yet cleared its mark; that creation then clears the mark of the retry, and a kill
of the id is admitted while the retry is still in its first backend call. -/
def retriedRun : List Action :=
  [.invoke (.createParent "x" [] none) returns, .item 0 0 (raises .exception), .item 0 0 returns,
    .item 0 0 returns, .item 0 0 returns, .invoke (.createParent "x" [] none) returns, .item 0 0 returns,
    .invoke (.kill "x") returns, .item 2 0 returns]

theorem retried_id_not_exclusive : ¬ ∀ state, Reachable (State.Step serialConfig) always
    (State.fresh blank) state → Exclusive state := by
  intro claimed
  have exclusive := claimed (serialRun retriedRun) (serialRun_reachable (by decide) meets_always)
  -- both tasks are in a backend call on the id
  have starting : ((serialRun retriedRun).task? (1, 0)).any
      (fun task => task.inBackend && task.branchId = "x") = true := by decide
  have killing : ((serialRun retriedRun).task? (2, 0)).any
      (fun task => task.inBackend && task.branchId = "x") = true := by decide
  cases first : (serialRun retriedRun).task? (1, 0) with
  | none => rw [first] at starting; cases starting
  | some firstTask =>
    cases second : (serialRun retriedRun).task? (2, 0) with
    | none => rw [second] at killing; cases killing
    | some secondTask =>
      rw [first, Option.any_some, Bool.and_eq_true, decide_eq_true_iff] at starting
      rw [second, Option.any_some, Bool.and_eq_true, decide_eq_true_iff] at killing
      exact absurd (exclusive.alone (1, 0) (2, 0) firstTask secondTask first second starting.1 killing.1
        (starting.2.trans killing.2.symm)) (by decide)

end Agentfork.Orchestrator

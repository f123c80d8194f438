import Agentfork.Library.Transition
import Agentfork.Orchestrator.Steps

/-! # The invariant of the orchestrator

As long as nobody journals an id that still is in `_spawning`, every task in
flight is alone on its id and finds there what its phase relies on, and the file
lists what memory lists. -/

namespace Agentfork.Orchestrator

open Shared Transition

variable {config : Config} {origin : Finset BranchId}

/-! ## One task -/

theorem Shared.Synced.congr {before after : Shared} (synced : Synced config before)
    (file : after.file = before.file) (branches : after.branches = before.branches) :
    Synced config after :=
  ⟨branches ▸ synced.keyed, file ▸ branches ▸ synced.file⟩

theorem keyed_insert {branches : Dict BranchId Branch} (keyed : Keyed branches) {branchId : BranchId}
    {branch : Branch} (isKey : branch.branchId = branchId) : Keyed (branches.insert branchId branch) := by
  intro other stored found
  rw [Dict.get?_insert] at found
  split at found
  · next here => cases found; exact isKey.trans here.symm
  · exact keyed other stored found

theorem keyed_erase {branches : Dict BranchId Branch} (keyed : Keyed branches) (branchId : BranchId) :
    Keyed (branches.erase branchId) := by
  intro other stored found
  rw [Dict.get?_erase] at found
  split at found
  · cases found
  · exact keyed other stored found

theorem startStep_synced {env : Env} {shared after : Shared} {task : StartTask} {phase : StartPhase}
    (synced : Synced config shared) (taken : startStep config env shared task = some (after, phase)) :
    Synced config after := by
  cases startStep_move taken with
  | begins => exact synced
  | calls _ call replies =>
    obtain rfl | rfl := replies.state
    · cases call <;> exact synced.congr rfl rfl
    · exact synced
  | @goesLive previous _ found =>
    exact synced_write (keyed_insert synced.keyed (synced.keyed task.branchId previous found))
  | staysForking _ _ quiet | staysRecorded _ _ quiet => exact quiet.synced synced
  | forgets =>
    have written : Synced config (write config { shared with
        branches := shared.branches.erase task.branchId }) :=
      synced_write (keyed_erase synced.keyed task.branchId)
    exact written.congr rfl rfl
  | ends => exact synced.congr rfl rfl

theorem killStep_synced {env : Env} {shared after : Shared} {task : KillTask} {phase : KillPhase}
    (synced : Synced config shared) (taken : killStep config env shared task = some (after, phase)) :
    Synced config after := by
  cases killStep_move taken with
  | refused _ _ quiet => exact quiet.synced synced
  | @admitted previous _ found =>
    exact synced_write (keyed_insert synced.keyed (synced.keyed task.branchId previous found))
  | calls _ call replies =>
    obtain rfl | rfl := replies.state
    · cases call <;> exact synced.congr rfl rfl
    · exact synced
  | fails => exact synced.congr rfl rfl
  | forgets =>
    have written : Synced config (write config { shared.doneKilling task.branchId with
        branches := shared.branches.erase task.branchId }) :=
      synced_write (keyed_erase synced.keyed task.branchId)
    exact written.congr rfl rfl
  | staysRecorded _ _ quiet => exact quiet.synced (synced.congr rfl rfl)

theorem Task.step_synced {env : Env} {shared after : Shared} {task next : Task}
    (synced : Synced config shared) (stepped : task.step config env shared = some (after, next)) :
    Synced config after := by
  cases task with
  | start task =>
    obtain ⟨⟨_, phase⟩, taken, equal⟩ := Option.map_eq_some_iff.1 stepped
    cases equal
    exact startStep_synced synced taken
  | kill task =>
    obtain ⟨⟨_, phase⟩, taken, equal⟩ := Option.map_eq_some_iff.1 stepped
    cases equal
    exact killStep_synced synced taken

/-- What one step of a task does to its own id and to the others. -/
structure Task.Moves (origin : Finset BranchId) (before after : Shared) (task next : Task) : Prop where
  key : next.branchId = task.branchId
  onlyAt : OnlyAt origin task.branchId before after
  enters : task.active = false → next.active = true → task.branchId ∉ before.killing ∧
    task.branchId ∉ before.spawning ∧ lifecycle.owns (after.view origin task.branchId) next
  refuses : task.active = false → next.active = false →
    after.view origin task.branchId = before.view origin task.branchId
  runs : task.active = true → lifecycle.owns (before.view origin task.branchId) task →
    next.active = true → lifecycle.owns (after.view origin task.branchId) next
  leaves : task.active = true → lifecycle.owns (before.view origin task.branchId) task →
    next.active = false → Idle (after.view origin task.branchId)

theorem active_start {task : StartTask} : (Task.start task).active = true ↔
    ∀ outcome, task.phase ≠ .finished outcome := by
  obtain ⟨_, _, _, phase⟩ := task
  cases phase <;> simp [Task.active]

theorem active_kill {task : KillTask} : (Task.kill task).active = true ↔
    task.phase ≠ .queued ∧ ∀ outcome, task.phase ≠ .finished outcome := by
  obtain ⟨_, _, phase⟩ := task
  cases phase <;> simp [Task.active]

theorem Task.step_moves {env : Env} {shared after : Shared} {task next : Task}
    (recorded : (shared.view origin task.branchId).record.isSome = true →
      (shared.view origin task.branchId).owned)
    (stepped : task.step config env shared = some (after, next)) :
    task.Moves origin shared after next := by
  cases task with
  | start task =>
    obtain ⟨⟨_, phase⟩, taken, equal⟩ := Option.map_eq_some_iff.1 stepped
    cases equal
    -- a finished start takes no step
    have wasActive : (Task.start task).active = true := active_start.2 (startStep_unfinished taken)
    refine ⟨rfl, startStep_onlyAt taken, fun inactive => ?_, fun inactive => ?_, fun _ owns active => ?_,
      fun _ owns inactive => ?_⟩
    · rw [wasActive] at inactive
      cases inactive
    · rw [wasActive] at inactive
      cases inactive
    · exact startStep_owns owns taken (active_start.1 active)
    · cases phase with
      | finished outcome => exact startStep_idle owns taken
      | _ => cases inactive
  | kill task =>
    obtain ⟨⟨_, phase⟩, taken, equal⟩ := Option.map_eq_some_iff.1 stepped
    cases equal
    have isQueued : (Task.kill task).active = false → task.phase = .queued := by
      intro inactive
      by_contra begun
      rw [active_kill.2 ⟨begun, killStep_unfinished taken⟩] at inactive
      cases inactive
    refine ⟨rfl, killStep_onlyAt taken, fun inactive active => ?_, fun inactive refused => ?_,
      fun active owns running => ?_, fun active owns inactive => ?_⟩
    · obtain ⟨outcome, rfl, _⟩ | ⟨_, entered⟩ := killStep_enters (isQueued inactive) recorded taken
      · cases active
      · exact entered
    · obtain ⟨outcome, rfl, silent⟩ | ⟨rfl, _⟩ := killStep_enters (isQueued inactive) recorded taken
      · exact silent.view origin task.branchId
      · cases refused
    · exact killStep_owns (active_kill.1 active).1 owns taken (active_kill.1 running).2
    · cases phase with
      | finished outcome => exact killStep_idle (active_kill.1 active).1 owns taken
      | queued => exact absurd rfl (killStep_ne_queued taken)
      | _ => cases inactive

/-! ## The whole system -/

structure Disciplined (config : Config) (origin : Finset BranchId) (state : State) : Prop where
  owned : Owned lifecycle (state.shared.view origin) state.task?
  synced : Synced config state.shared

/-- The ids that a step journals. -/
def State.journals (config : Config) (state : State) (action : Action) : List BranchId :=
  match state.step config action with
  | some after => after.shared.started.drop state.shared.started.length
  | none => []

/-- No `create_parent` or `fork` is admitted on an id that still is in `_spawning`. -/
def State.Unmarked (config : Config) (state : State) (action : Action) : Prop :=
  ∀ branchId ∈ state.journals config action, branchId ∉ state.shared.spawning

namespace Disciplined

variable {state after : State} {action : Action}

/-- Every recorded id was loaded or journaled by this process. -/
theorem recorded (disciplined : Disciplined config origin state) (branchId : BranchId)
    (record : (state.shared.view origin branchId).record.isSome = true) :
    (state.shared.view origin branchId).owned := by
  by_cases nobody : ∀ index task, state.task? index = some task → task.active = true →
      task.branchId ≠ branchId
  · exact (disciplined.owned.idle branchId nobody).recorded record
  · simp only [not_forall, not_not] at nobody
    obtain ⟨index, task, found, active, rfl⟩ := nobody
    have owns := disciplined.owned.owns index task found active
    cases task with
    | start task => exact StartOwns.owned owns
    | kill task => exact KillOwns.owned owns

/-- An active task has marked its id. -/
theorem marked (disciplined : Disciplined config origin state) {index : Nat × Nat} {task : Task}
    (found : state.task? index = some task) (active : task.active = true) :
    task.branchId ∈ state.shared.spawning ∨ task.branchId ∈ state.shared.killing ∧
      task.branchId ∈ state.shared.branches := by
  have owns := disciplined.owned.owns index task found active
  cases task with
  | start task => exact .inl (StartOwns.spawning owns)
  | kill task =>
    refine .inr ⟨KillOwns.killing owns, ?_⟩
    obtain ⟨parentId, record⟩ := KillOwns.record owns
    obtain ⟨branch, recorded, _⟩ := Option.map_eq_some_iff.1 record
    exact Dict.mem_of_get? recorded

theorem boot {world : World} {shared : Shared} (booted : Shared.boot config world = .ok shared) :
    Disciplined config shared.loaded (State.fresh shared) := by
  unfold Shared.boot at booted
  simp only at booted
  split at booted
  · cases booted
  · cases booted
    refine ⟨Owned.empty (fun index => rfl) fun branchId => ?_, keyed_insertAll keyed_empty, fun _ _ => rfl⟩
    have loadedIff : branchId ∈ (ofRecords world.file).keys.toFinset ↔
        ((ofRecords world.file).get? branchId).isSome = true := by
      rw [List.mem_toFinset, Dict.mem_keys, Dict.mem_iff_get?, Option.isSome_iff_exists]
    refine ⟨⟨?_, ?_, ?_, ?_⟩, Finset.notMem_empty _, Finset.notMem_empty _⟩
    · intro absent owned
      simp only [view, State.fresh, List.not_mem_nil, false_or, loadedIff, Option.map_eq_none_iff] at owned absent
      rw [absent] at owned
      cases owned
    · intro parentId live notLoaded
      refine absurd ?_ notLoaded
      simp only [view, State.fresh] at live ⊢
      rw [loadedIff]
      obtain ⟨branch, found, _⟩ := Option.map_eq_some_iff.1 live
      rw [found]
      rfl
    · intro recorded
      refine .inr ?_
      simp only [view, State.fresh, Option.isSome_map] at recorded ⊢
      exact loadedIff.2 recorded
    · intro loaded
      simp only [view, State.fresh, Option.isSome_map] at loaded ⊢
      exact loadedIff.1 loaded

/-- Nobody works on an id that is about to be journaled. -/
theorem nobody (disciplined : Disciplined config origin state) {branchId : BranchId}
    (unmarked : branchId ∉ state.shared.spawning) (absent : branchId ∉ state.shared.branches) :
    ∀ index task, state.task? index = some task → task.active = true → task.branchId ≠ branchId := by
  rintro index task found active rfl
  obtain spawning | ⟨_, recorded⟩ := disciplined.marked found active
  · exact unmarked spawning
  · exact absent recorded

/-- A new branch gives its task what the first phase relies on. -/
theorem owns_journaled (disciplined : Disciplined config origin state) {children : List Branch}
    {shared : Shared} (journaled : Journaled config state.shared children shared)
    (unmarked : ∀ child ∈ children, child.branchId ∉ state.shared.spawning) {child : Branch}
    (member : child ∈ children) (tokens : List Nat) {phase : StartPhase}
    (fresh : phase = .queued ∨ phase = .kvStart) :
    StartOwns (shared.view origin child.branchId) ⟨child.branchId, child.parentId, tokens, phase⟩ := by
  have idle := disciplined.owned.idle child.branchId
    (disciplined.nobody (unmarked child member) (journaled.absent child member))
  have noRecord : (state.shared.view origin child.branchId).record = none := by
    rw [view, Dict.get?_eq_none.2 (journaled.absent child member)]
    rfl
  have isMember : child.branchId ∈ children.map Branch.branchId := List.mem_map.2 ⟨child, member, rfl⟩
  have record : (shared.view origin child.branchId).record = some (.forking, child.parentId) := by
    rw [view, journaled.branches, find?_of_mem journaled.distinct member, ← journaled.forking child member]
    rfl
  refine ⟨?_, ?_, ?_, ?_, ?_⟩
  · simp only [view, journaled.spawning, Finset.mem_union, List.mem_toFinset]
    exact .inr isMember
  · simp only [view, journaled.killing]
    exact idle.notKilling
  · simp only [view, journaled.loaded]
    intro loaded
    have isRecorded := idle.loaded loaded
    rw [noRecord] at isRecorded
    cases isRecorded
  · simp only [view, journaled.started, List.mem_append]
    exact .inl (.inr isMember)
  · obtain rfl | rfl := fresh <;> exact record

theorem view_journaled {children : List Branch} {before shared : Shared}
    (journaled : Journaled config before children shared) {branchId : BranchId}
    (other : ∀ child ∈ children, child.branchId ≠ branchId) :
    shared.view origin branchId = before.view origin branchId := by
  have notMember : branchId ∉ children.map Branch.branchId := by
    intro member
    obtain ⟨child, isChild, same⟩ := List.mem_map.1 member
    exact other child isChild same
  simp [view, journaled.branches, find?_of_notMem notMember, journaled.kv, journaled.sandbox, journaled.spawning,
    journaled.killing, journaled.loaded, journaled.started, notMember]

/-- Silent steps may add tasks that have not begun. -/
theorem silent (disciplined : Disciplined config origin state)
    (silent : Silent config state.shared after.shared)
    (kept : ∀ index task, state.task? index = some task → after.task? index = some task)
    (dormant : ∀ index task, after.task? index = some task → state.task? index = none →
      task.active = false) : Disciplined config origin after := by
  have absurdActive : ∀ index task, after.task? index = some task → state.task? index = none →
      task.active = true → False := by
    intro index task found isNew active
    rw [dormant index task found isNew] at active
    cases active
  refine ⟨disciplined.owned.join kept ?_ ?_ ?_, silent.synced disciplined.synced⟩
  · intro index task found isNew active
    exact (absurdActive index task found isNew active).elim
  · intro first _ task _ found _ isNew _ active _ _
    exact (absurdActive first task found isNew active).elim
  · intro branchId _
    exact .of_eq (silent.view origin branchId)

theorem journal (disciplined : Disciplined config origin state) {children : List Branch}
    {shared : Shared} {call : Call} {phase : StartPhase} {tokens : List Nat}
    (journaled : Journaled config state.shared children shared)
    (unmarked : ∀ child ∈ children, child.branchId ∉ state.shared.spawning)
    (fresh : phase = .queued ∨ phase = .kvStart) (items : call.items = children.map (startTask phase tokens)) :
    Disciplined config origin ⟨shared, state.calls ++ [call]⟩ := by
  -- a task that was not there belongs to the new call and to one of the children
  have newTask : ∀ index task, (State.mk shared (state.calls ++ [call])).task? index = some task →
      state.task? index = none → index.1 = state.calls.length ∧ ∃ child, children[index.2]? = some child ∧
        task = startTask phase tokens child := by
    intro index task found isNew
    rw [State.task?, taskAt_append] at found
    split at found
    · next here =>
      rw [items, List.getElem?_map] at found
      obtain ⟨child, atChild, rfl⟩ := Option.map_eq_some_iff.1 found
      exact ⟨here, child, atChild, rfl⟩
    · exact absurd (isNew.symm.trans found) nofun
  refine ⟨disciplined.owned.join ?_ ?_ ?_ ?_, journaled.synced disciplined.synced.keyed⟩
  · intro index task found
    exact taskAt_append_of_some found
  · intro index task found isNew _
    obtain ⟨_, child, atChild, rfl⟩ := newTask index task found isNew
    have member := List.mem_of_getElem? atChild
    exact ⟨disciplined.owns_journaled journaled unmarked member tokens fresh,
      disciplined.nobody (unmarked child member) (journaled.absent child member)⟩
  · intro first second firstTask secondTask firstFound secondFound firstNew secondNew _ _ same
    obtain ⟨firstCall, firstChild, firstAt, rfl⟩ := newTask first firstTask firstFound firstNew
    obtain ⟨secondCall, secondChild, secondAt, rfl⟩ := newTask second secondTask secondFound secondNew
    refine Prod.ext (firstCall.trans secondCall.symm) ?_
    exact index_of_key journaled.distinct firstAt secondAt same
  · intro branchId untouched
    refine .of_eq (view_journaled journaled fun child member => ?_)
    obtain ⟨position, inside, isChild⟩ := List.mem_iff_getElem.1 member
    have found : (State.mk shared (state.calls ++ [call])).task? (state.calls.length, position) =
        some (startTask phase tokens child) := by
      rw [State.task?, taskAt_append, if_pos rfl, items, List.getElem?_map,
        List.getElem?_eq_getElem inside, isChild]
      rfl
    exact untouched _ _ found (taskAt_length _ _) (active_startTask fresh tokens child)

theorem item (disciplined : Disciplined config origin state) {c i : Nat} {env : Env} {call : Call}
    {task next : Task} {shared : Shared} (atCall : state.calls[c]? = some call)
    (atItem : call.items[i]? = some task)
    (stepped : task.step config env state.shared = some (shared, next)) :
    Disciplined config origin
      ⟨shared, state.calls.set c { call with items := call.items.set i next }⟩ := by
  have moves := Task.step_moves (disciplined.recorded task.branchId) stepped
  have tasks := taskAt_item atCall atItem next
  have found : state.task? (c, i) = some task := (taskAt_of_call atCall i).trans atItem
  refine ⟨disciplined.owned.step (i := (c, i)) found moves.key ?_ ?_
    (fun branchId differs => .of_eq (moves.onlyAt branchId differs)) ?_ ?_ ?_ ?_,
    Task.step_synced disciplined.synced stepped⟩
  · exact (tasks (c, i)).trans (if_pos rfl)
  · intro index differs
    exact (tasks index).trans (if_neg differs)
  · intro inactive active index worker workerFound workerActive same
    obtain ⟨notKilling, notSpawning, _⟩ := moves.enters (by simpa [lifecycle] using inactive) active
    have same : worker.branchId = task.branchId := same
    obtain spawning | ⟨killing, _⟩ := disciplined.marked workerFound workerActive
    · exact notSpawning (same ▸ spawning)
    · exact notKilling (same ▸ killing)
  · intro active
    cases wasActive : task.active with
    | true => exact moves.runs wasActive (disciplined.owned.owns (c, i) task found wasActive) active
    | false => exact (moves.enters wasActive active).2.2
  · intro wasActive inactive
    exact moves.leaves wasActive (disciplined.owned.owns (c, i) task found wasActive)
      (by simpa [lifecycle] using inactive)
  · intro wasInactive inactive
    exact .of_eq (moves.refuses (by simpa [lifecycle] using wasInactive) (by simpa [lifecycle] using inactive))

theorem step (disciplined : Disciplined config origin state) (unmarked : state.Unmarked config action)
    (taken : state.Step config action after) : Disciplined config origin after := by
  cases State.Step.move taken with
  | item atCall atItem _ _ stepped => exact disciplined.item atCall atItem stepped
  | journal journaled fresh items _ _ =>
    refine disciplined.journal journaled (fun child member => unmarked child.branchId ?_) fresh items
    unfold State.journals
    rw [show state.step config _ = some _ from taken]
    simp only [journaled.started, List.drop_left]
    exact List.mem_map.2 ⟨child, member, rfl⟩
  | invoke quiet dormant _ =>
    refine disciplined.silent quiet (fun index task found => taskAt_append_of_some found)
      fun index task found isNew => ?_
    rw [State.task?, taskAt_append] at found
    split at found
    · exact dormant task (List.mem_of_getElem? found)
    · exact absurd (isNew.symm.trans found) nofun
  | advance atCall quiet dormant items _ =>
    refine disciplined.silent quiet (fun index task found => taskAt_advance_of_some atCall items found)
      fun index task found isNew => ?_
    rw [State.task?, taskAt_set atCall] at found
    split at found
    · next here =>
      obtain ⟨c, i⟩ := index
      simp only at here
      subst here
      rw [State.task?, taskAt_of_call atCall] at isNew
      rw [items, List.getElem?_append_right (List.getElem?_eq_none_iff.1 isNew)] at found
      exact dormant task (List.mem_of_getElem? found)
    · exact absurd (isNew.symm.trans found) nofun

end Disciplined

theorem disciplined_of_reachable {world : World} {shared : Shared} {state : State}
    (booted : Shared.boot config world = .ok shared)
    (reached : Reachable (State.Step config) (State.Unmarked config) (State.fresh shared) state) :
    Disciplined config shared.loaded state :=
  reached.invariant (Disciplined.boot booted) fun _ _ _ disciplined unmarked taken =>
    disciplined.step unmarked taken

end Agentfork.Orchestrator

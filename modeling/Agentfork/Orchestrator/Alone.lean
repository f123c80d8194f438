import Agentfork.Orchestrator.ForkRun
import Agentfork.Orchestrator.Recovery

/-! # Calls that start branches and return

While nothing else moves, a call that starts branches returns only if none of its
tasks has ever failed: a task that has begun to roll back ends with an exception.
So its run goes by the plan that nothing raises, and what it has done is what the
lemmas about planned forks say. -/

namespace Agentfork.Orchestrator

open Shared Transition Kv

variable {config : Config} {env : Env} {shared after : Shared}

/-! ## Starts that do not fail -/

def StartPhase.failing : StartPhase → Bool
  | .rollbackKv _ | .rollbackSandbox _ _ | .rollbackForget _ => true
  | .settle (.error _) | .finished (.error _) => true
  | _ => false

/-- A start that has begun to fail goes on to fail. -/
theorem startStep_failing {task : StartTask} {phase : StartPhase} (failing : task.phase.failing = true)
    (taken : startStep config env shared task = some (after, phase)) : phase.failing = true := by
  cases startStep_move taken with
  | begins atPhase | goesLive atPhase | staysForking atPhase =>
    rw [atPhase] at failing
    cases failing
  | calls atPhase call replies =>
    rw [atPhase] at failing
    cases call with
    | kvStart | sandboxSpawn | waitReady | kvExtend => cases failing
    | rollbackKv => cases replies <;> rfl
    | @rollbackSandbox _ failed => cases replies <;> cases failed <;> rfl
  | forgets | staysRecorded => rfl
  | @ends outcome atPhase =>
    rw [atPhase] at failing
    cases outcome with
    | ok => cases failing
    | error => rfl

/-- A step that does not lead to failing goes by the plan that nothing raises. -/
theorem startStep_going {task : StartTask} {phase : StartPhase} (going : phase.failing = false)
    (taken : startStep config env shared task = some (after, phase)) :
    task.goesBy config (fun _ => none) env shared = true := by
  have notFailing : task.phase.failing = false := by
    by_contra failing
    rw [startStep_failing (by simpa using failing) taken] at going
    cases going
  unfold StartTask.goesBy
  cases startStep_move taken with
  | begins atPhase | ends atPhase => rw [atPhase]
  | calls atPhase call replies =>
    rw [atPhase] at notFailing ⊢
    cases call with
    | kvStart | sandboxSpawn =>
      cases replies with
      | working replied | returned replied =>
        simp only [replied]
        rfl
      | raised | refused => cases going
    | waitReady | kvExtend => rfl
    | rollbackKv | rollbackSandbox => cases notFailing
  | goesLive atPhase _ _ written =>
    simp only [atPhase, written]
    rfl
  | staysForking => cases going
  | forgets atPhase | staysRecorded atPhase =>
    rw [atPhase] at notFailing
    cases notFailing

/-! ## Calls that start branches -/

namespace Task

def failing : Task → Bool
  | .start task => task.phase.failing
  | .kill _ => false

/-- The task a step comes from is failing only if the one it leads to is. -/
theorem step_going {task next : Task} (going : next.failing = false)
    (stepped : task.step config env shared = some (after, next)) : task.failing = false := by
  cases task with
  | kill => rfl
  | start task =>
    obtain ⟨⟨_, phase⟩, taken, equal⟩ := Option.map_eq_some_iff.1 stepped
    cases equal
    by_contra failing
    have failed : phase.failing = true := startStep_failing (by simpa [Task.failing] using failing) taken
    rw [show phase.failing = false from going] at failed
    cases failed

theorem failing_of_aborts {task : Task} (isStart : task.isStart = true) (aborts : task.aborts = true) :
    task.failing = true := by
  cases task with
  | kill => cases isStart
  | start task =>
    obtain ⟨branchId, parentId, tokens, phase⟩ := task
    cases phase with
    | finished outcome =>
      cases outcome with
      | ok => cases aborts
      | error => rfl
    | _ => cases aborts

/-- A start that has ended without an exception has not failed. -/
theorem going_of_finished {task : Task} (finished : task.finished = true) (noFault : task.fault? = none) :
    task.failing = false := by
  cases task with
  | kill => rfl
  | start task =>
    obtain ⟨branchId, parentId, tokens, phase⟩ := task
    cases phase with
    | finished outcome =>
      cases outcome with
      | ok => rfl
      | error => cases noFault
    | _ => cases finished

end Task

/-- Without an exception the loop has come to the last item. -/
theorem Call.all_finished {call : Call} (ended : call.fanOutEnded config = true)
    (noFault : ∀ task ∈ call.items, task.fault? = none) : ∀ task ∈ call.items, task.finished = true := by
  unfold Call.fanOutEnded at ended
  rw [Bool.or_eq_true, Bool.and_eq_true, List.all_eq_true] at ended
  obtain finished | ⟨_, someAborts⟩ := ended
  · exact finished
  · obtain ⟨aborting, isItem, aborts⟩ := List.any_eq_true.1 someAborts
    unfold Task.aborts at aborts
    rw [noFault aborting isItem] at aborts
    cases aborts

/-- Some tasks of a call that starts branches may have failed, but not if the
call has returned. -/
structure Call.Starting (call : Call) : Prop where
  starts : call.op.starts = true
  items : ∀ task ∈ call.items, task.isStart = true
  stage : call.stage = .fanOut ∨ ∃ outcome, call.stage = .finished outcome ∧
    ∀ value, outcome = .ok value → ∀ task ∈ call.items, task.failing = false

namespace Call.Starting

variable {call next : Call}

theorem item (starting : call.Starting) {i : Nat} {task moved : Task} (atItem : call.items[i]? = some task)
    (running : call.isOver = false) (stepped : task.step config env shared = some (after, moved)) :
    Starting { call with items := call.items.set i moved } := by
  refine ⟨starting.starts, fun other member => ?_, ?_⟩
  · obtain before | rfl := List.mem_or_eq_of_mem_set member
    · exact starting.items other before
    · rw [Task.step_isStart stepped]
      exact starting.items task (List.mem_of_getElem? atItem)
  · obtain atStage | ⟨outcome, atStage, _⟩ := starting.stage
    · exact .inl atStage
    · unfold Call.isOver at running
      rw [atStage] at running
      cases running

theorem advance (starting : call.Starting) (advanced : call.advance config shared = some (after, next)) :
    next.Starting ∧ next.op = call.op ∧ next.items = call.items := by
  obtain atStage | ⟨outcome, atStage, _⟩ := starting.stage
  · obtain ⟨ended, op, items, outcome, finished, concluded⟩ := Call.advance_starts starting.starts atStage advanced
    refine ⟨⟨op ▸ starting.starts, items ▸ starting.items, .inr ⟨outcome, finished, ?_⟩⟩, op, items⟩
    rintro value rfl task member
    rw [items] at member
    exact Task.going_of_finished (Call.all_finished ended concluded.2 task member) (concluded.2 task member)
  · exact absurd atStage (Call.advance_unfinished advanced outcome)

end Call.Starting

/-! ## A call while nothing else moves -/

namespace Managed

theorem Step.moved {before next : Managed} {action : Action} {clock : Nat} {entered : Bool}
    (taken : before.Step config (.take action clock entered) next) : before.state.Step config action next.state := by
  obtain ⟨state, moved, taken⟩ := Option.bind_eq_some_iff.1 taken
  split at taken
  · cases taken
    exact moved
  · obtain ⟨cache, _, rfl⟩ := Option.map_eq_some_iff.1 taken
    exact moved

/-- What a call may do in a run: it is careful, and only the call moves. -/
def CarefulAlone (config : Config) (c : Nat) (managed : Managed) (action : ManagedAction) : Prop :=
  managed.Careful config action ∧ action.isOf c = true

variable {managed before first final : Managed} {c : Nat} {call : Call}

/-- The step of a task that has not failed is careful if its cache call is permitted. -/
theorem careful_item {i clock : Nat} {env : Env} {entered : Bool} {task : Task} {next : Managed}
    (atCall : managed.state.calls[c]? = some call) (atItem : call.items[i]? = some task)
    (going : task.failing = false)
    (permitted : ∀ op, task.cacheCall clock = some op → op.named = true ∧
      Tracked.NamespaceFree ⟨managed.cache, PrefixModel.init⟩ op)
    (taken : managed.Step config (.take (.item c i env) clock entered) next)
    (same : next.state.shared.started = managed.state.shared.started) :
    managed.Careful config (.take (.item c i env) clock entered) := by
  refine ⟨⟨State.Unmarked.of_started taken.moved same, fun asked isCall => ?_⟩, ?_⟩
  · rw [cacheCall_item clock atCall atItem] at isCall
    obtain ⟨op, isOp, rfl⟩ := Option.map_eq_some_iff.1 isCall
    exact permitted op isOp
  · change managed.state.stopsEarly config (.item c i env) = false
    unfold State.stopsEarly
    simp only [atCall, atItem]
    split
    · next isSettling =>
      cases isSettling
      cases going
    · rw [Bool.and_false]

theorem careful_advance {clock : Nat} {entered : Bool} {next : Managed}
    (taken : managed.Step config (.take (.advance c) clock entered) next)
    (same : next.state.shared.started = managed.state.shared.started) :
    managed.Careful config (.take (.advance c) clock entered) :=
  ⟨⟨State.Unmarked.of_started taken.moved same, fun asked isCall => absurd isCall (Option.not_mem_none asked)⟩, rfl⟩

/-- A call that is over makes no step. -/
theorem unmoved (atCall : first.state.calls[c]? = some call) (isOver : call.isOver = true)
    (reached : Reachable (Managed.Step config) (fun _ action => action.isOf c = true) first final) :
    final = first := by
  induction reached with
  | refl => rfl
  | tail _ own taken inductionHypothesis =>
    subst inductionHypothesis
    cases taken.own own atCall with
    | item _ running _ _ _ =>
      rw [isOver] at running
      cases running
    | advance advanced =>
      unfold Call.isOver at isOver
      split at isOver
      · next outcome atStage => exact absurd atStage (Call.advance_unfinished advanced outcome)
      · cases isOver

end Managed

section Starting

variable {before first final : Managed} {base : PrefixModel Nat} {parentId : Option BranchId} {children : List Branch}
  {opening : Call}

/-- As long as none of its tasks fails, a call that starts branches is careful. -/
theorem careful_of_going (admitted : Admitted config parentId children)
    (initial : Forking config (fun _ => none) before base parentId children first opening)
    (starting : opening.Starting)
    (permits : ∀ managed call, Forking config (fun _ => none) before base parentId children managed call →
      ∀ task ∈ call.items, task.failing = false → ∀ clock op, task.cacheCall clock = some op →
        op.named = true ∧ Tracked.NamespaceFree ⟨managed.cache, PrefixModel.init⟩ op)
    (reached : Reachable (Managed.Step config) (fun _ action => action.isOf before.state.calls.length = true)
      first final) :
    ∃ call, final.state.calls[before.state.calls.length]? = some call ∧ call.op = opening.op ∧ call.Starting ∧
      ((∀ task ∈ call.items, task.failing = false) →
        Forking config (fun _ => none) before base parentId children final call ∧
        Reachable (Managed.Step config) (fun managed action => managed.Careful config action ∧
          action.isOf before.state.calls.length = true ∧ managed.goesBy config (fun _ => none) action = true)
          first final) := by
  induction reached with
  | refl => exact ⟨opening, initial.atCall, rfl, starting, fun _ => ⟨initial, .refl⟩⟩
  | @tail managed after action _ own taken inductionHypothesis =>
    obtain ⟨call, atCall, op, starting, of_going⟩ := inductionHypothesis
    have inside := (List.getElem?_eq_some_iff.1 atCall).1
    cases taken.own own atCall with
    | @item i clock env entered task next shared cache atItem running allowed stepped called =>
      refine ⟨_, List.getElem?_set_self inside, op, starting.item atItem running stepped, fun going => ?_⟩
      have within := (List.getElem?_eq_some_iff.1 atItem).1
      have nextGoing : next.failing = false := going next (List.mem_of_getElem? (List.getElem?_set_self within))
      have goingBefore : ∀ other ∈ call.items, other.failing = false := by
        intro other member
        obtain ⟨j, atOther⟩ := List.mem_iff_getElem?.1 member
        by_cases here : i = j
        · subst here
          rw [atItem] at atOther
          cases atOther
          exact Task.step_going nextGoing stepped
        · exact going other (List.mem_of_getElem? ((List.getElem?_set_ne here).trans atOther))
      obtain ⟨forking, careful⟩ := of_going goingBefore
      have member := List.mem_of_getElem? atItem
      have permitted := permits managed call forking task member (goingBefore task member) clock
      have goes : ∀ start, task = .start start →
          start.goesBy config (fun _ => none) env managed.state.shared = true := by
        rintro start rfl
        obtain ⟨⟨_, phase⟩, moved, equal⟩ := Option.map_eq_some_iff.1 stepped
        cases equal
        exact startStep_going nextGoing moved
      have goesBy : managed.goesBy config (fun _ => none)
          (.take (.item before.state.calls.length i env) clock entered) = true := by
        have found : managed.state.task? (before.state.calls.length, i) = some task :=
          (taskAt_of_call atCall i).trans atItem
        simp only [Managed.goesBy, found]
        split
        · next start isStart =>
          cases isStart
          exact goes start rfl
        · rfl
      have isCareful := Managed.careful_item atCall atItem (goingBefore task member) permitted taken
        (Task.step_marks stepped).1
      refine ⟨forking.item admitted clock entered atItem running allowed (fun _ isStart aborts => ?_) goes stepped
        permitted called, careful.tail ⟨isCareful, own, goesBy⟩ taken⟩
      rw [Task.failing_of_aborts isStart aborts] at nextGoing
      cases nextGoing
    | @advance clock entered shared next advanced =>
      obtain ⟨nextStarting, sameOp, items⟩ := starting.advance advanced
      refine ⟨next, List.getElem?_set_self inside, sameOp.trans op, nextStarting, fun going => ?_⟩
      obtain ⟨forking, careful⟩ := of_going (items ▸ going)
      obtain ⟨metrics, closing, closed, rfl⟩ := advance_flags advanced
      exact ⟨forking.advance advanced, careful.tail ⟨Managed.careful_advance taken rfl, own, rfl⟩ taken⟩

/-- A call that starts branches and returns has been careful, and none of its
tasks has failed. -/
theorem careful_of_returned {value : Value} (admitted : Admitted config parentId children)
    (initial : Forking config (fun _ => none) before base parentId children first opening)
    (starting : opening.Starting)
    (permits : ∀ managed call, Forking config (fun _ => none) before base parentId children managed call →
      ∀ task ∈ call.items, task.failing = false → ∀ clock op, task.cacheCall clock = some op →
        op.named = true ∧ Tracked.NamespaceFree ⟨managed.cache, PrefixModel.init⟩ op)
    (reached : Reachable (Managed.Step config) (fun _ action => action.isOf before.state.calls.length = true)
      first final)
    (returned : (final.state.calls[before.state.calls.length]?).map Call.stage = some (.finished (.ok value))) :
    (∃ call, call.op = opening.op ∧ call.stage = .finished (.ok value) ∧
      Forking config (fun _ => none) before base parentId children final call) ∧
    Reachable (Managed.Step config) (fun managed action => managed.Careful config action ∧
      action.isOf before.state.calls.length = true ∧ managed.goesBy config (fun _ => none) action = true) first final := by
  obtain ⟨call, atCall, op, isStarting, of_going⟩ := careful_of_going admitted initial starting permits reached
  rw [atCall] at returned
  have ended : call.stage = .finished (.ok value) := Option.some.inj returned
  have going : ∀ task ∈ call.items, task.failing = false := by
    obtain atStage | ⟨outcome, atStage, going⟩ := isStarting.stage
    · rw [ended] at atStage
      cases atStage
    · rw [ended] at atStage
      cases atStage
      exact going value rfl
  obtain ⟨forking, careful⟩ := of_going going
  exact ⟨⟨call, op, ended, forking⟩, careful⟩

end Starting

/-! ## Between two calls -/

/-- From `before` to `after` a call is made and ends, and nothing else moves. -/
def Managed.Alone (config : Config) (before : Managed) (op : Op) (outcome : Except Fault Value) (after : Managed) : Prop :=
  ∃ env first, before.Step config (.take (.invoke op env) 0 false) first ∧
    Reachable (Managed.Step config) (fun _ action => action.isOf before.state.calls.length = true) first after ∧
    (after.state.calls[before.state.calls.length]?).map Call.stage = some (.finished outcome)

/-- No call is running. -/
structure Resting (config : Config) (origin : Finset BranchId) (managed : Managed) : Prop where
  sound : managed.Sound config origin
  draining : Draining config managed.state
  settled : ∀ call ∈ managed.state.calls, call.isOver = true

namespace Managed

variable {before first final : Managed} {op : Op} {opening : Call}

theorem Step.invoked (taken : before.Step config (.take (.invoke op env) 0 false) first) :
    ∃ shared call, invoke config env before.state.shared op = some (shared, call) ∧
      first = ⟨⟨shared, before.state.calls ++ [call]⟩, before.cache⟩ := by
  obtain ⟨state, moved, taken⟩ := Option.bind_eq_some_iff.1 taken
  obtain ⟨⟨shared, call⟩, invoked, rfl⟩ := Option.map_eq_some_iff.1 moved
  cases taken
  exact ⟨shared, call, invoked, rfl⟩

/-- The other calls stay as they are. -/
theorem calls_alone (begun : first.state.calls = before.state.calls ++ [opening])
    (reached : Reachable (Managed.Step config) (fun _ action => action.isOf before.state.calls.length = true) first final) :
    ∃ call, final.state.calls = before.state.calls ++ [call] := by
  refine reached.invariant (motive := fun managed => ∃ call, managed.state.calls = before.state.calls ++ [call])
    ⟨opening, begun⟩ fun managed action after same own taken => ?_
  obtain ⟨call, same⟩ := same
  have atCall : managed.state.calls[before.state.calls.length]? = some call := by
    rw [same, List.getElem?_concat_length]
  cases taken.own own atCall with
  | item => exact ⟨_, set_last same _⟩
  | advance => exact ⟨_, set_last same _⟩

end Managed

namespace Resting

variable {origin : Finset BranchId} {before first final : Managed} {op : Op} {outcome : Except Fault Value}

theorem unmarked (resting : Resting config origin before) :
    before.state.shared.spawning = ∅ ∧ before.state.shared.killing = ∅ := by
  have nobody : ∀ branchId, ¬ (branchId ∈ before.state.shared.spawning ∨ branchId ∈ before.state.shared.killing) := by
    intro branchId marked
    obtain ⟨call, member, running, _⟩ := resting.draining.owner marked
    rw [resting.settled call member] at running
    cases running
  constructor
  · exact Finset.eq_empty_of_forall_notMem fun branchId member => nobody branchId (.inl member)
  · exact Finset.eq_empty_of_forall_notMem fun branchId member => nobody branchId (.inr member)

theorem boot {world : World} {capacity : Int} {budget : Option Int} {cache : TreeKVCache Nat}
    (booted : Shared.boot config world = .ok shared) (noCache : world.kv = ∅)
    (recorded : ∀ branchId ∈ world.sandbox, ∃ branch ∈ world.file, branch.branchId = branchId)
    (created : TreeKVCache.new capacity budget = .ok cache) :
    Resting config shared.loaded ⟨State.fresh shared, cache⟩ :=
  ⟨Managed.Sound.boot booted noCache recorded created, boot_draining booted, fun _ member => absurd member List.not_mem_nil⟩

/-- The cache call of an `extend` leaves the orchestrator at rest. -/
theorem extend (resting : Resting config origin before) (clock : Nat) (branchId : BranchId) (tokens : List Nat) :
    Resting config origin ⟨before.state, before.cache.perform (.extend clock branchId tokens)⟩ := by
  have orderly : before.Orderly config (.extend clock branchId tokens) := trivial
  have taken : before.Step config (.extend clock branchId tokens)
    ⟨before.state, before.cache.perform (.extend clock branchId tokens)⟩ := rfl
  exact ⟨resting.sound.step orderly taken, resting.draining, resting.settled⟩

/-- After a call that has been careful, the orchestrator is at rest again. -/
theorem careful (resting : Resting config origin before) (invoked : before.Step config (.take (.invoke op env) 0 false) first)
    (reached : Reachable (Managed.Step config) (Managed.CarefulAlone config before.state.calls.length) first final)
    (ended : (final.state.calls[before.state.calls.length]?).map Call.stage = some (.finished outcome)) :
    Resting config origin final := by
  have orderly : before.Orderly config (.take (.invoke op env) 0 false) := by
    refine ⟨fun branchId _ => ?_, fun asked isCall => absurd isCall (Option.not_mem_none asked)⟩
    rw [resting.unmarked.1]
    exact Finset.notMem_empty branchId
  have sound : Managed.Sound config origin final :=
    Managed.sound_of_reachable (resting.sound.step orderly invoked) (reached.weaken fun _ _ guard => guard.1.1)
  have attempts : before.state.Attempts config (.invoke op env) := rfl
  have draining : Draining config final.state := by
    refine reached.invariant (motive := fun managed => Draining config managed.state)
      (resting.draining.step attempts invoked.moved) fun managed action after draining guard taken => ?_
    cases action with
    | extend => cases guard.2
    | take action clock entered => exact draining.step guard.1.2 taken.moved
  obtain ⟨shared, opening, _, rfl⟩ := invoked.invoked
  obtain ⟨call, calls⟩ := Managed.calls_alone rfl (reached.weaken fun _ _ guard => guard.2)
  refine ⟨sound, draining, fun other member => ?_⟩
  rw [calls] at member
  obtain old | here := List.mem_append.1 member
  · exact resting.settled other old
  · obtain rfl := List.mem_singleton.1 here
    rw [calls, List.getElem?_concat_length, Option.map_some] at ended
    unfold Call.isOver
    rw [Option.some.inj ended]

/-- A fork that returns, with no empty child id, has gone by the plan that
nothing raises. -/
theorem fork_returns {parentId : BranchId} {n : Int} {childIds : Option (List BranchId)} {lease : Option Int}
    {value : Value} {base : PrefixModel Nat} (resting : Resting config origin before)
    (holds : CacheHolds before.cache before.state.shared.kv base) (named : ∀ ids, childIds = some ids → "" ∉ ids)
    (alone : before.Alone config (.fork parentId n childIds lease) (.ok value) final) :
    Resting config origin final ∧ ∃ run : ForkRun config (Managed.Careful config) (fun _ => none) before,
      run.final = final ∧ run.parentId = parentId ∧ run.n = n ∧ run.childIds = childIds ∧ run.outcome = .ok value := by
  obtain ⟨env, first, taken, reached, returned⟩ := alone
  obtain ⟨shared, opening, invoked, rfl⟩ := taken.invoked
  cases invoke_move invoked with
  | kills listed => cases listed
  | refused =>
    -- the call has ended in its first section
    rw [Managed.unmoved List.getElem?_concat_length rfl reached, List.getElem?_concat_length] at returned
    cases returned
  | @fork _ _ _ _ children shared admits =>
    obtain ⟨isAdmitted, _, _, initial⟩ := Forking.of_admitFork (fun _ => none) resting.sound holds admits
    have starting : Call.Starting ⟨.fork parentId n childIds lease, children.map (startTask .queued []), .fanOut, []⟩ := by
      refine ⟨rfl, fun task member => ?_, .inl rfl⟩
      obtain ⟨_, _, rfl⟩ := List.mem_map.1 member
      rfl
    have nonempty := admitFork_named named admits
    have careful := (careful_of_returned isAdmitted initial starting (fun managed call forking task member going clock op isCall => by
      obtain ⟨i, atItem⟩ := List.mem_iff_getElem?.1 member
      obtain ⟨child, phase, atChild, rfl, stands⟩ := forking.child_of_item atItem
      cases phase with
      | kvStart =>
        cases isCall
        exact ⟨decide_eq_true (nonempty child (List.mem_of_getElem? atChild)), trivial⟩
      | kvExtend => exact stands.elim
      | rollbackKv => cases going
      | _ => cases isCall) reached returned).2
    refine ⟨resting.careful taken (careful.weaken fun _ _ guard => ⟨guard.1, guard.2.1⟩) returned, ?_⟩
    exact ⟨⟨parentId, n, childIds, lease, env, children, shared, final, .ok value, admits, careful, returned⟩,
      rfl, rfl, rfl, rfl, rfl⟩

/-- A root that has been created over an empty cache is the only branch in it. -/
theorem createParent_returns {rootId : BranchId} {lease : Option Int} {value : Value} {base : PrefixModel Nat}
    (resting : Resting config origin before) (holds : CacheHolds before.cache before.state.shared.kv base)
    (empty : ∀ branchId, base.live.get? branchId = none) (direct : config.waitReady = false)
    (alone : before.Alone config (.createParent rootId [] lease) (.ok value) final) :
    Resting config origin final ∧
      (∃ branch, branch.branchId = rootId ∧ branch.parentId = none ∧ branch.state = .live ∧
        final.state.shared.branches.get? rootId = some branch) ∧
      (∀ branchId, branchId ≠ rootId →
        final.state.shared.holdingOf branchId = before.state.shared.holdingOf branchId) ∧
      ∃ model, CacheHolds final.cache final.state.shared.kv model ∧
        ∀ branchId, model.live.get? branchId = if branchId = rootId then some ⟨rootId, []⟩ else none := by
  obtain ⟨env, first, taken, reached, returned⟩ := alone
  obtain ⟨shared, opening, invoked, rfl⟩ := taken.invoked
  have coherent := invoke_coherent invoked
  cases invoke_move invoked with
  | kills listed => cases listed
  | refused =>
    rw [Managed.unmoved List.getElem?_concat_length rfl reached, List.getElem?_concat_length] at returned
    cases returned
  | @createParent _ _ _ child shared _ isRoot noParent journaled =>
    have isAdmitted : Admitted config none [child] :=
      ⟨journaled.distinct, fun parent isParent => (by cases isParent), fun _ => direct⟩
    have initial : Forking config (fun _ => none) before base none [child]
        ⟨⟨shared, before.state.calls ++ [⟨.createParent rootId [] lease, [startTask .kvStart [] child], .fanOut, []⟩]⟩,
          before.cache⟩ ⟨.createParent rootId [] lease, [startTask .kvStart [] child], .fanOut, []⟩ :=
      Forking.start resting.sound holds rfl journaled (.inr rfl)
        (fun other member => by rw [List.mem_singleton.1 member]; exact noParent) coherent
    have starting : Call.Starting ⟨.createParent rootId [] lease, [startTask .kvStart [] child], .fanOut, []⟩ := by
      refine ⟨rfl, fun task member => ?_, .inl rfl⟩
      rw [List.mem_singleton.1 member]
      rfl
    obtain ⟨⟨call, _, ended, forking⟩, careful⟩ := careful_of_returned isAdmitted initial starting
      (fun managed call forking task member going clock op isCall => by
        obtain ⟨i, atItem⟩ := List.mem_iff_getElem?.1 member
        obtain ⟨other, phase, atChild, rfl, stands⟩ := forking.child_of_item atItem
        cases phase with
        | kvStart =>
          cases isCall
          refine ⟨rfl, fun tid isTree _ => ?_⟩
          obtain ⟨model, held, lineage⟩ := forking.holds
          -- the root is not in the cache yet, and nothing else is
          have noneLive : ∀ branchId, model.live.get? branchId = none := by
            intro branchId
            by_cases member : branchId ∈ [child].map Branch.branchId
            · have isChild := List.mem_singleton.1 (List.mem_of_getElem? atChild)
              rw [List.mem_singleton.1 member, ← isChild, Dict.get?_eq_none, held.held]
              exact stands.2
            · rw [lineage.others branchId member, empty]
          obtain ⟨branchId, found⟩ := Dict.mem_values.1 isTree
          have tree := held.agrees.trees branchId
          rw [noneLive, found] at tree
          cases tree
        | kvExtend => exact stands.elim
        | rollbackKv => cases going
        | _ => cases isCall) reached returned
    refine ⟨resting.careful taken (careful.weaken fun _ _ guard => ⟨guard.1, guard.2.1⟩) returned, ?_⟩
    obtain ⟨result, _, stands⟩ := (forking.ended ended).2 0 child rfl
    cases result with
    | error fault => exact absurd rfl stands.1
    | ok branch =>
      obtain ⟨_, isLive, record, inKv, _⟩ := stands
      obtain ⟨model, held, lineage⟩ := forking.holds
      refine ⟨⟨branch, ?_, ?_, ?_, ?_⟩, fun branchId differs => ?_, model, held, fun branchId => ?_⟩
      · rw [isLive]
        exact isRoot
      · rw [isLive]
        exact noParent
      · rw [isLive]
        rfl
      · rw [← isRoot]
        exact record
      · exact forking.elsewhere branchId (by simpa [isRoot] using differs)
      · have isMember : rootId ∈ [child].map Branch.branchId := List.mem_singleton.2 isRoot.symm
        split
        · next here =>
          subst here
          obtain ⟨live, found⟩ := Dict.mem_iff_get?.1 ((held.held branchId).2 (isRoot ▸ inKv))
          rw [found]
          exact (lineage.children branchId isMember live found).symm
        · next differs =>
          rw [lineage.others branchId (by simpa [isRoot] using differs), empty]

end Resting

end Agentfork.Orchestrator

import Agentfork.Orchestrator.Journal

/-! # The marks drain

Every mark belongs to a task that is not done with its id, and a call is over
only when its tasks are done or have never begun. A marked child that its fork
never attempts breaks the second half, so the marks drain in every run in which
no loop over children ends before the last child. -/

namespace Agentfork.Orchestrator

open Shared Transition

variable {config : Config} {state after : State} {action : Action}

/-! ## Marks have owners -/

structure Marked (state : State) : Prop where
  spawning : ∀ branchId ∈ state.shared.spawning, ∃ index task,
    state.task? index = some (.start task) ∧ task.branchId = branchId ∧ (Task.start task).active = true
  killing : ∀ branchId ∈ state.shared.killing, ∃ index task,
    state.task? index = some (.kill task) ∧ task.branchId = branchId ∧ (Task.kill task).active = true

namespace Marked

theorem item (marked : Marked state) {c i : Nat} {env : Env} {call : Call} {task next : Task}
    {shared : Shared} (atCall : state.calls[c]? = some call) (atItem : call.items[i]? = some task)
    (stepped : task.step config env state.shared = some (shared, next)) :
    Marked ⟨shared, state.calls.set c { call with items := call.items.set i next }⟩ := by
  have tasks := taskAt_item atCall atItem next
  have found : state.task? (c, i) = some task := (taskAt_of_call atCall i).trans atItem
  cases task with
  | start task =>
    obtain ⟨⟨_, phase⟩, taken, equal⟩ := Option.map_eq_some_iff.1 stepped
    cases equal
    obtain ⟨_, killing, spawning⟩ := startStep_marks taken
    constructor
    · intro branchId member
      obtain ⟨index, owner, owned, isId, active⟩ := marked.spawning branchId
        ((Task.step_marks stepped).2 member)
      by_cases here : index = (c, i)
      · subst here
        rw [found] at owned
        cases owned
        refine ⟨(c, i), { task with phase := phase }, (tasks _).trans (if_pos rfl), isId, ?_⟩
        refine active_start.2 fun outcome isFinished => ?_
        -- a start that ends takes its mark with it
        simp only at isFinished
        subst isFinished
        rw [(startStep_finished taken).2] at member
        exact Finset.notMem_erase _ _ (isId ▸ member)
      · exact ⟨index, owner, (tasks index).trans ((if_neg here).trans owned), isId, active⟩
    · intro branchId member
      simp only [killing] at member
      obtain ⟨index, owner, owned, isId, active⟩ := marked.killing branchId member
      refine ⟨index, owner, (tasks index).trans ((if_neg ?_).trans owned), isId, active⟩
      rintro rfl
      rw [found] at owned
      cases owned
  | kill task =>
    obtain ⟨⟨_, phase⟩, taken, equal⟩ := Option.map_eq_some_iff.1 stepped
    cases equal
    obtain ⟨_, spawning, killing, cleared⟩ := killStep_marks taken
    constructor
    · intro branchId member
      simp only [spawning] at member
      obtain ⟨index, owner, owned, isId, active⟩ := marked.spawning branchId member
      refine ⟨index, owner, (tasks index).trans ((if_neg ?_).trans owned), isId, active⟩
      rintro rfl
      rw [found] at owned
      cases owned
    · intro branchId member
      obtain before | ⟨isId, rfl⟩ := killing branchId member
      · obtain ⟨index, owner, owned, isId, active⟩ := marked.killing branchId before
        by_cases here : index = (c, i)
        · subst here
          rw [found] at owned
          cases owned
          refine ⟨(c, i), { task with phase := phase }, (tasks _).trans (if_pos rfl), isId, ?_⟩
          refine active_kill.2 ⟨killStep_ne_queued taken, fun outcome isFinished => ?_⟩
          exact cleared (active_kill.1 active).1 outcome isFinished (isId ▸ member)
        · exact ⟨index, owner, (tasks index).trans ((if_neg here).trans owned), isId, active⟩
      · exact ⟨(c, i), { task with phase := .sandboxKill }, (tasks _).trans (if_pos rfl), isId.symm, rfl⟩

/-- Steps that keep all tasks and mark nothing. -/
theorem grow (marked : Marked state)
    (kept : ∀ index task, state.task? index = some task → after.task? index = some task)
    (spawning : after.shared.spawning = state.shared.spawning)
    (killing : after.shared.killing = state.shared.killing) : Marked after := by
  constructor
  · intro branchId member
    rw [spawning] at member
    obtain ⟨index, owner, owned, rest⟩ := marked.spawning branchId member
    exact ⟨index, owner, kept index _ owned, rest⟩
  · intro branchId member
    rw [killing] at member
    obtain ⟨index, owner, owned, rest⟩ := marked.killing branchId member
    exact ⟨index, owner, kept index _ owned, rest⟩

theorem step (marked : Marked state) (taken : state.Step config action after) : Marked after := by
  cases State.Step.move taken with
  | item atCall atItem _ _ stepped => exact marked.item atCall atItem stepped
  | @journal _ _ children phase tokens shared call journaled fresh items _ _ =>
    constructor
    · intro branchId member
      rw [show shared.spawning = _ from journaled.spawning, Finset.mem_union, List.mem_toFinset] at member
      obtain before | isChild := member
      · obtain ⟨index, owner, owned, rest⟩ := marked.spawning branchId before
        exact ⟨index, owner, taskAt_append_of_some owned, rest⟩
      · obtain ⟨child, childMember, rfl⟩ := List.mem_map.1 isChild
        obtain ⟨position, inside, atChild⟩ := List.mem_iff_getElem.1 childMember
        refine ⟨(state.calls.length, position), ⟨child.branchId, child.parentId, tokens, phase⟩, ?_, rfl,
          active_startTask fresh tokens child⟩
        rw [State.task?, taskAt_append, if_pos rfl, items, List.getElem?_map,
          List.getElem?_eq_getElem inside, atChild]
        rfl
    · intro branchId member
      rw [show shared.killing = _ from journaled.killing] at member
      obtain ⟨index, owner, owned, rest⟩ := marked.killing branchId member
      exact ⟨index, owner, taskAt_append_of_some owned, rest⟩
  | invoke silent _ _ =>
    exact marked.grow (fun _ _ found => taskAt_append_of_some found) silent.spawning silent.killing
  | advance atCall silent _ items _ =>
    exact marked.grow (fun _ _ found => taskAt_advance_of_some atCall items found) silent.spawning
      silent.killing

end Marked

/-! ## Calls end after their tasks -/

theorem Task.inactive_of_finished {task : Task} (finished : task.finished = true) : task.active = false := by
  cases task with
  | start task => obtain ⟨_, _, _, phase⟩ := task; cases phase <;> first | rfl | cases finished
  | kill task => obtain ⟨_, _, phase⟩ := task; cases phase <;> first | rfl | cases finished

theorem Task.step_finished {env : Env} {shared : Shared} {task : Task} (finished : task.finished = true) :
    task.step config env shared = none := by
  cases task with
  | start task => obtain ⟨_, _, _, phase⟩ := task; cases phase <;> first | rfl | cases finished
  | kill task => obtain ⟨_, _, phase⟩ := task; cases phase <;> first | rfl | cases finished

theorem Task.not_queued_of_finished {task : Task} (finished : task.finished = true) :
    task.queued = false := by
  cases task with
  | start task => obtain ⟨_, _, _, phase⟩ := task; cases phase <;> first | rfl | cases finished
  | kill task => obtain ⟨_, _, phase⟩ := task; cases phase <;> first | rfl | cases finished

theorem Task.finished_of_fault {task : Task} {fault : Fault} (ended : task.fault? = some fault) :
    task.finished = true := by
  cases task with
  | start task => obtain ⟨_, _, _, phase⟩ := task; cases phase <;> first | rfl | cases ended
  | kill task => obtain ⟨_, _, phase⟩ := task; cases phase <;> first | rfl | cases ended

theorem Task.finished_of_receipt {task : Task} {receipt : KillReceipt} (ended : task.receipt? = some receipt) :
    task.finished = true := by
  cases task with
  | start task => cases ended
  | kill task => obtain ⟨_, _, phase⟩ := task; cases phase <;> first | rfl | cases ended

theorem Task.finished_of_aborts {task : Task} (aborts : task.aborts = true) : task.finished = true := by
  unfold Task.aborts at aborts
  cases ended : task.fault? with
  | none => rw [ended] at aborts; cases aborts
  | some fault => exact Task.finished_of_fault ended

def Task.isStart : Task → Bool
  | .start _ => true
  | .kill _ => false

theorem Task.step_isStart {env : Env} {shared next : Shared} {task stepped : Task}
    (taken : task.step config env shared = some (next, stepped)) : stepped.isStart = task.isStart := by
  cases task with
  | start task =>
    obtain ⟨_, _, equal⟩ := Option.map_eq_some_iff.1 taken
    cases equal
    rfl
  | kill task =>
    obtain ⟨_, _, equal⟩ := Option.map_eq_some_iff.1 taken
    cases equal
    rfl

theorem Task.inactive_kill {task : Task} (isKill : task.isStart = false) (queued : task.queued = true) :
    task.active = false := by
  cases task with
  | start task => cases isKill
  | kill task => obtain ⟨_, _, phase⟩ := task; cases phase <;> first | rfl | cases queued

/-- One call starts branches or kills them. -/
def Uniform (items : List Task) : Prop := ∃ kind, ∀ task ∈ items, task.isStart = kind

/-- What the loop over the items keeps: it comes to an item after the ones
before it have ended, and no child but the last stops it. -/
structure Serial (items : List Task) : Prop where
  inOrder : ∀ (i j : Nat) (first second : Task), i < j → items[i]? = some first → items[j]? = some second →
    second.queued = false → first.finished = true ∧ first.aborts = false
  last : ∀ (i : Nat) (task : Task), items[i]? = some task → task.isStart = true → task.aborts = true →
    i + 1 = items.length

theorem serial_queued {items : List Task} (queued : ∀ task ∈ items, task.queued = true) : Serial items := by
  constructor
  · intro i j first second _ _ atSecond notQueued
    rw [queued second (List.mem_of_getElem? atSecond)] at notQueued
    cases notQueued
  · intro i task atTask _ aborts
    have notQueued := Task.not_queued_of_finished (Task.finished_of_aborts aborts)
    rw [queued task (List.mem_of_getElem? atTask)] at notQueued
    cases notQueued

theorem serial_singleton {task : Task} : Serial [task] := by
  constructor
  · intro i j first second before _ atSecond
    obtain ⟨inside, _⟩ := List.getElem?_eq_some_iff.1 atSecond
    rw [List.length_singleton] at inside
    omega
  · intro i other atOther _ _
    obtain ⟨inside, _⟩ := List.getElem?_eq_some_iff.1 atOther
    rw [List.length_singleton] at inside ⊢
    omega

theorem kills_queued (allowClosing : Bool) (branchIds : List BranchId) :
    ∀ task ∈ branchIds.map (killTask allowClosing), task.queued = true ∧ task.isStart = false := by
  intro task member
  obtain ⟨branchId, _, rfl⟩ := List.mem_map.1 member
  exact ⟨rfl, rfl⟩

namespace Call

/-- What the stage of a call says about its tasks. -/
def Coherent (config : Config) (call : Call) : Prop :=
  match call.stage with
  | .fanOut => Uniform call.items ∧ (call.threaded config = false → Serial call.items)
  | .tally _ | .sweep _ _ => ∀ task ∈ call.items, task.finished = true
  | .retry _ _ => ∀ task ∈ call.items.dropLast, task.finished = true
  | .draining | .awaitClosed => call.items = []
  | .finished _ => ∀ task ∈ call.items, task.active = false

/-! ### The end of a fan-out -/

/-- A fan-out that has ended leaves no task running. -/
theorem inactive_of_ended {call : Call} (uniform : Uniform call.items)
    (serial : call.threaded config = false → Serial call.items) (ended : call.fanOutEnded config = true) :
    ∀ task ∈ call.items, task.active = false := by
  intro task member
  unfold fanOutEnded at ended
  rw [Bool.or_eq_true, Bool.and_eq_true, Bool.not_eq_true'] at ended
  obtain allFinished | ⟨loop, someAborts⟩ := ended
  · exact Task.inactive_of_finished (List.all_eq_true.1 allFinished task member)
  · have serial := serial loop
    obtain ⟨aborting, abortingMember, aborts⟩ := List.any_eq_true.1 someAborts
    obtain ⟨k, atAborting⟩ := List.mem_iff_getElem?.1 abortingMember
    obtain ⟨j, atTask⟩ := List.mem_iff_getElem?.1 member
    obtain before | rfl | behind := Nat.lt_trichotomy j k
    · have notQueued := Task.not_queued_of_finished (Task.finished_of_aborts aborts)
      exact Task.inactive_of_finished (serial.inOrder j k task aborting before atTask atAborting notQueued).1
    · rw [atTask] at atAborting
      cases atAborting
      exact Task.inactive_of_finished (Task.finished_of_aborts aborts)
    · -- the loop has not come to an item behind the one that stopped it
      have queued : task.queued = true := by
        by_contra notQueued
        have noAbort := (serial.inOrder k j aborting task behind atAborting atTask (by simpa using notQueued)).2
        rw [aborts] at noAbort
        cases noAbort
      obtain ⟨kind, uniform⟩ := uniform
      cases kind with
      | false => exact Task.inactive_kill (uniform task member) queued
      | true =>
        have isLast := serial.last k aborting atAborting (uniform aborting abortingMember) aborts
        obtain ⟨inside, _⟩ := List.getElem?_eq_some_iff.1 atTask
        omega

theorem finished_of_fanOut {call : Call} (ended : call.fanOutEnded config = true)
    (noFault : fanOutFault call.items = none) : ∀ task ∈ call.items, task.finished = true := by
  unfold fanOutEnded at ended
  rw [Bool.or_eq_true, Bool.and_eq_true, List.all_eq_true] at ended
  obtain allFinished | ⟨_, someAborts⟩ := ended
  · exact allFinished
  · obtain ⟨aborting, member, aborts⟩ := List.any_eq_true.1 someAborts
    unfold fanOutFault at noFault
    cases located : call.items.find? Task.aborts with
    | none =>
      rw [List.find?_eq_none] at located
      exact absurd aborts (located aborting member)
    | some first =>
      have firstAborts := List.find?_some located
      unfold Task.aborts at firstAborts
      rw [located, Option.bind_some] at noFault
      cases outcome : first.fault? with
      | none => rw [outcome] at firstAborts; cases firstAborts
      | some fault => rw [outcome] at noFault; cases noFault

theorem noFault_of_fanOut {items : List Task} (noFault : fanOutFault items = none) :
    ∀ task ∈ items, task.fault? = none := by
  unfold fanOutFault at noFault
  split at noFault
  · cases noFault
  · exact List.findSome?_eq_none_iff.1 noFault

/-! ### Coherence is kept -/

theorem finished_of_last {items : List Task} {last : Task} (earlier : ∀ task ∈ items.dropLast, task.finished = true)
    (isLast : items.getLast? = some last) (finished : last.finished = true) : ∀ task ∈ items, task.finished = true := by
  intro task member
  rw [← List.dropLast_append_getLast? last isLast, List.mem_append, List.mem_singleton] at member
  obtain before | rfl := member
  · exact earlier task before
  · exact finished

theorem coherent_kills (config : Config) (op : Op) (allowClosing : Bool) (branchIds expired : List BranchId) :
    (Call.mk op (branchIds.map (killTask allowClosing)) .fanOut expired).Coherent config := by
  have queued := kills_queued allowClosing branchIds
  exact ⟨⟨false, fun task member => (queued task member).2⟩,
    fun _ => serial_queued fun task member => (queued task member).1⟩

theorem advance_coherent {shared next : Shared} {call advanced : Call} (coherent : call.Coherent config)
    (taken : call.advance config shared = some (next, advanced)) : advanced.Coherent config := by
  unfold Coherent at coherent
  cases advance_move taken with
  | fanOut atStage ended isFault move =>
    simp only [atStage] at coherent
    have inactive := inactive_of_ended coherent.1 coherent.2 ended
    cases move with
    | sweeps | reconciled => exact finished_of_fanOut ended isFault
    | raised | reconcileRaised | closeRaised | started | forked | killed | renewed | reaped | closed => exact inactive
  | tally atStage =>
    simp only [atStage] at coherent
    exact fun task member => Task.inactive_of_finished (coherent task member)
  | sweep atStage move =>
    simp only [atStage] at coherent
    cases move with
    | ends => exact fun task member => Task.inactive_of_finished (coherent task member)
    | reaped | gone => exact coherent
    | waits =>
      unfold Coherent
      simp only [atStage]
      exact coherent
    | killsAgain =>
      unfold Coherent
      simp only [List.dropLast_concat]
      exact coherent
  -- the call goes on when the last task has ended too
  | retryRaised atStage isLast faulted =>
    simp only [atStage] at coherent
    have finished := finished_of_last coherent isLast (Task.finished_of_fault faulted)
    exact fun task member => Task.inactive_of_finished (finished task member)
  | retried atStage isLast _ isReceipt =>
    simp only [atStage] at coherent
    exact finished_of_last coherent isLast (Task.finished_of_receipt isReceipt)
  | drained atStage =>
    simp only [atStage] at coherent
    simp only [coherent, List.nil_append]
    exact coherent_kills config call.op true _ _
  | follows atStage =>
    simp only [atStage] at coherent
    intro task member
    simp only [finish, coherent, List.not_mem_nil] at member

end Call

theorem invoke_coherent {env : Env} {shared next : Shared} {op : Op} {call : Call}
    (invoked : invoke config env shared op = some (next, call)) : call.Coherent config := by
  cases invoke_move invoked with
  | refused | renewLease | closed => exact fun _ member => absurd member List.not_mem_nil
  | createParent =>
    refine ⟨⟨true, fun task member => ?_⟩, fun _ => serial_singleton⟩
    rw [List.mem_singleton.1 member]
    rfl
  | fork =>
    refine ⟨⟨true, fun task member => ?_⟩, fun _ => serial_queued fun task member => ?_⟩
    · obtain ⟨_, _, rfl⟩ := List.mem_map.1 member
      rfl
    · obtain ⟨_, _, rfl⟩ := List.mem_map.1 member
      rfl
  | kills => exact Call.coherent_kills config op false _ _
  | closing | closes => rfl

theorem Uniform.set {items : List Task} {i : Nat} {task next : Task} (uniform : Uniform items)
    (atItem : items[i]? = some task) (same : next.isStart = task.isStart) : Uniform (items.set i next) := by
  obtain ⟨kind, uniform⟩ := uniform
  refine ⟨kind, fun other member => ?_⟩
  obtain before | rfl := List.mem_or_eq_of_mem_set member
  · exact uniform other before
  · exact same.trans (uniform task (List.mem_of_getElem? atItem))

/-- The loop has ended the items before the one that runs, none by an exception it
does not catch. -/
def InOrder (items : List Task) : Prop :=
  ∀ (i j : Nat) (first second : Task), i < j → items[i]? = some first → items[j]? = some second →
    second.queued = false → first.finished = true ∧ first.aborts = false

theorem InOrder.set {items : List Task} {i : Nat} {task next : Task} (inOrder : InOrder items)
    (atItem : items[i]? = some task) (unfinished : task.finished = false)
    (turn : task.queued = true → ∀ first ∈ items.take i, first.finished = true ∧ first.aborts = false) :
    InOrder (items.set i next) := by
  intro j k first second before atFirst atSecond notQueued
  by_cases firstHere : i = j
  · -- an item behind the one that runs has not begun
    subst firstHere
    rw [List.getElem?_set_ne (Nat.ne_of_lt before)] at atSecond
    have ended := (inOrder i k task second before atItem atSecond notQueued).1
    rw [unfinished] at ended
    cases ended
  · rw [List.getElem?_set_ne firstHere] at atFirst
    by_cases secondHere : i = k
    · subst secondHere
      cases queued : task.queued with
      | true => exact turn queued first (List.mem_of_getElem? ((List.getElem?_take_of_lt before).trans atFirst))
      | false => exact inOrder j i first task before atFirst atItem queued
    · rw [List.getElem?_set_ne secondHere] at atSecond
      exact inOrder j k first second before atFirst atSecond notQueued

/-- The turn of a queued item of the loop has come. -/
theorem Call.turn_of_mayStart {call : Call} {i : Nat} (atStage : call.stage = .fanOut)
    (loop : call.threaded config = false) (allowed : call.mayStart config i = true) :
    ∀ first ∈ call.items.take i, first.finished = true ∧ first.aborts = false := by
  simp only [mayStart, atStage, loop, Bool.false_eq_true, if_false, List.all_eq_true, Bool.and_eq_true,
    Bool.not_eq_true'] at allowed
  exact allowed

/-- One item of the loop takes a step. -/
theorem Serial.set {items : List Task} {i : Nat} {task next : Task} (serial : Serial items)
    (atItem : items[i]? = some task) (unfinished : task.finished = false)
    (turn : task.queued = true → ∀ first ∈ items.take i, first.finished = true ∧ first.aborts = false)
    (onward : next.isStart = true → next.aborts = true → i + 1 = items.length) :
    Serial (items.set i next) := by
  obtain ⟨inside, _⟩ := List.getElem?_eq_some_iff.1 atItem
  have atNext : (items.set i next)[i]? = some next := List.getElem?_set_self inside
  constructor
  · exact InOrder.set serial.inOrder atItem unfinished turn
  · intro j other atOther isStart aborts
    rw [List.length_set]
    by_cases here : i = j
    · subst here
      rw [atNext] at atOther
      cases atOther
      exact onward isStart aborts
    · rw [List.getElem?_set_ne here] at atOther
      exact serial.last j other atOther isStart aborts

theorem Call.item_coherent {env : Env} {shared after : Shared} {call : Call} {i : Nat} {task next : Task}
    (coherent : call.Coherent config) (atItem : call.items[i]? = some task) (running : call.isOver = false)
    (allowed : task.queued = true → call.mayStart config i = true)
    (onward : call.threaded config = false → next.isStart = true → next.aborts = true →
      i + 1 = call.items.length)
    (stepped : task.step config env shared = some (after, next)) :
    Coherent config { call with items := call.items.set i next } := by
  have unfinished : task.finished = false := by
    by_contra finished
    rw [Task.step_finished (by simpa using finished)] at stepped
    cases stepped
  have member := List.mem_of_getElem? atItem
  unfold Coherent at coherent ⊢
  cases atStage : call.stage with
  | fanOut =>
    simp only [atStage] at coherent
    refine ⟨coherent.1.set atItem (Task.step_isStart stepped), fun loop => ?_⟩
    have loop : call.threaded config = false := by
      rw [threaded, List.length_set] at loop
      exact loop
    exact (coherent.2 loop).set atItem unfinished (fun queued => turn_of_mayStart atStage loop (allowed queued)) (onward loop)
  | tally receipts | sweep receipts pending =>
    simp only [atStage] at coherent
    rw [coherent task member] at unfinished
    cases unfinished
  | retry receipts pending =>
    simp only [atStage] at coherent
    simp only
    -- only the last task of the call can take a step
    have isLast : call.items.dropLast.length ≤ i := by
      by_contra earlier
      have atEarlier : call.items.dropLast[i]? = some task := by
        rw [List.length_dropLast, Nat.not_le] at earlier
        rw [List.getElem?_dropLast, if_pos earlier]
        exact atItem
      rw [coherent task (List.mem_of_getElem? atEarlier)] at unfinished
      cases unfinished
    rw [List.dropLast_eq_take, List.length_set, List.take_set_of_le (by simpa using isLast),
      ← List.dropLast_eq_take]
    exact coherent
  | draining | awaitClosed =>
    simp only [atStage] at coherent
    rw [coherent] at member
    cases member
  | finished outcome =>
    unfold isOver at running
    rw [atStage] at running
    cases running

/-! ## Runs -/

/-- A child of a loop leaves `spawn_one` with a `BaseException` although it is
not the last one. -/
def State.stopsEarly (config : Config) (state : State) : Action → Bool
  | .item c i _ =>
    match state.calls[c]? with
    | none => false
    | some call => !call.threaded config && decide (i + 1 ≠ call.items.length) &&
      match call.items[i]? with
      | some (.start ⟨_, _, _, .settle (.error fault)⟩) => !fault.ordinary
      | _ => false
  | _ => false

/-- Every child is attempted. -/
def State.Attempts (config : Config) (state : State) (action : Action) : Prop :=
  state.stopsEarly config action = false

instance (config : Config) (state : State) (action : Action) : Decidable (state.Attempts config action) :=
  inferInstanceAs (Decidable (_ = false))

/-- The child that a step ends with a `BaseException` is the last one. -/
theorem State.Attempts.onward {c i : Nat} {env : Env} {call : Call} {task next : Task} {shared : Shared}
    (attempts : state.Attempts config (.item c i env)) (atCall : state.calls[c]? = some call)
    (atItem : call.items[i]? = some task)
    (stepped : task.step config env state.shared = some (shared, next))
    (loop : call.threaded config = false) (isStart : next.isStart = true) (aborts : next.aborts = true) :
    i + 1 = call.items.length := by
  cases task with
  | kill task =>
    rw [Task.step_isStart stepped] at isStart
    cases isStart
  | start task =>
    obtain ⟨⟨_, phase⟩, taken, equal⟩ := Option.map_eq_some_iff.1 stepped
    cases equal
    cases phase with
    | finished outcome =>
      obtain ⟨settling, _⟩ := startStep_finished taken
      cases outcome with
      | ok branch => cases aborts
      | error fault =>
        obtain ⟨branchId, parentId, tokens, phase⟩ := task
        simp only at settling
        subst settling
        have ordinary : fault.ordinary = false := by simpa [Task.aborts, Task.fault?] using aborts
        simpa [Attempts, stopsEarly, atCall, atItem, loop, ordinary] using attempts
    | _ => cases aborts

/-- The marks and the calls of a state fit together. -/
structure Draining (config : Config) (state : State) : Prop where
  marked : Marked state
  coherent : ∀ call ∈ state.calls, call.Coherent config

namespace Draining

theorem step (draining : Draining config state) (attempts : state.Attempts config action)
    (taken : state.Step config action after) : Draining config after := by
  refine ⟨draining.marked.step taken, fun call member => ?_⟩
  cases State.Step.move taken with
  | item atCall atItem running allowed stepped =>
    obtain before | rfl := List.mem_or_eq_of_mem_set member
    · exact draining.coherent call before
    · exact Call.item_coherent (draining.coherent _ (List.mem_of_getElem? atCall)) atItem running allowed
        (attempts.onward atCall atItem stepped) stepped
  | journal _ _ _ _ invoked | invoke _ _ invoked =>
    obtain before | here := List.mem_append.1 member
    · exact draining.coherent call before
    · rw [List.mem_singleton.1 here]
      exact invoke_coherent invoked
  | advance atCall _ _ _ advanced =>
    obtain before | rfl := List.mem_or_eq_of_mem_set member
    · exact draining.coherent call before
    · exact Call.advance_coherent (draining.coherent _ (List.mem_of_getElem? atCall)) advanced

/-- A marked id belongs to a call that is not over. -/
theorem owner (draining : Draining config state) {branchId : BranchId}
    (marked : branchId ∈ state.shared.spawning ∨ branchId ∈ state.shared.killing) :
    ∃ call ∈ state.calls, call.isOver = false ∧
      ∃ task ∈ call.items, task.branchId = branchId ∧ task.active = true := by
  have owned : ∃ index task, state.task? index = some task ∧ task.branchId = branchId ∧
      task.active = true := by
    obtain spawning | killing := marked
    · obtain ⟨index, task, found, isId, active⟩ := draining.marked.spawning branchId spawning
      exact ⟨index, .start task, found, isId, active⟩
    · obtain ⟨index, task, found, isId, active⟩ := draining.marked.killing branchId killing
      exact ⟨index, .kill task, found, isId, active⟩
  obtain ⟨⟨c, i⟩, task, found, isId, active⟩ := owned
  obtain ⟨call, atCall, atItem⟩ := Option.bind_eq_some_iff.1 found
  have member := List.mem_of_getElem? atCall
  refine ⟨call, member, ?_, task, List.mem_of_getElem? atItem, isId, active⟩
  -- a call that is over has no active task
  have coherent := draining.coherent call member
  cases atStage : call.stage with
  | finished outcome =>
    unfold Call.Coherent at coherent
    simp only [atStage] at coherent
    rw [coherent task (List.mem_of_getElem? atItem)] at active
    cases active
  | _ => unfold Call.isOver; rw [atStage]

end Draining

theorem boot_draining {world : World} {shared : Shared} (booted : Shared.boot config world = .ok shared) :
    Draining config (State.fresh shared) := by
  unfold Shared.boot at booted
  simp only at booted
  split at booted
  · cases booted
  · cases booted
    exact ⟨⟨fun branchId member => absurd member (Finset.notMem_empty branchId),
      fun branchId member => absurd member (Finset.notMem_empty branchId)⟩,
      fun call member => absurd member List.not_mem_nil⟩

/-- A running call works on the id. -/
def State.Busy (state : State) (branchId : BranchId) : Prop :=
  ∃ call ∈ state.calls, call.isOver = false ∧
    ∃ task ∈ call.items, task.branchId = branchId ∧ task.active = true

/-- No mark outlives the call that has set it, so a waiting `close` waits for a
call that is running and every recorded branch can be collected once no call
works on it. -/
structure MarksDrain (config : Config) (state : State) : Prop where
  returned : ∀ call ∈ state.calls, call.isOver = true → ∀ task ∈ call.items, task.active = false
  owned : ∀ branchId, branchId ∈ state.shared.spawning ∨ branchId ∈ state.shared.killing →
    state.Busy branchId
  closes : ∀ c call, state.calls[c]? = some call → call.stage = .draining →
    state.step config (.advance c) = none → ∃ branchId, state.Busy branchId ∧
      (branchId ∈ state.shared.spawning ∨ branchId ∈ state.shared.killing)
  kills : ∀ branchId ∈ state.shared.branches, ¬ state.Busy branchId → ∀ allowClosing,
    state.shared.ensureOpen allowClosing = .ok () →
      (admitKill config none ⟨branchId, allowClosing, .queued⟩ state.shared).2 = .sandboxKill
  reconciles : ∀ branchId branch, state.shared.branches.get? branchId = some branch →
    branch.branchId = branchId → ¬ state.Busy branchId → branch.state ≠ .live →
      ∀ order, branchId ∈ state.shared.stuck order

theorem admitKill_unowned {branchId : BranchId} {shared : Shared} {allowClosing : Bool}
    (opened : shared.ensureOpen allowClosing = .ok ()) (recorded : branchId ∈ shared.branches)
    (notSpawning : branchId ∉ shared.spawning) (notKilling : branchId ∉ shared.killing) :
    (admitKill config none ⟨branchId, allowClosing, .queued⟩ shared).2 = .sandboxKill := by
  obtain ⟨branch, found⟩ := Dict.mem_iff_get?.1 recorded
  unfold admitKill
  simp only [opened, recorded, notSpawning, notKilling, not_true_eq_false, or_self, if_false]
  unfold replaceBranch persist
  cases registry : config.registry <;> simp [markKilling, found]

theorem marks_drain {world : World} {shared : Shared} (booted : Shared.boot config world = .ok shared)
    (reached : Reachable (State.Step config) (State.Attempts config) (State.fresh shared) state) :
    MarksDrain config state := by
  have draining : Draining config state :=
    reached.invariant (boot_draining booted) fun _ _ _ draining attempts taken => draining.step attempts taken
  have idle : ∀ branchId, ¬ state.Busy branchId →
      branchId ∉ state.shared.spawning ∧ branchId ∉ state.shared.killing := by
    intro branchId notBusy
    exact ⟨fun spawning => notBusy (draining.owner (.inl spawning)),
      fun killing => notBusy (draining.owner (.inr killing))⟩
  constructor
  · intro call member isOver task isTask
    have coherent := draining.coherent call member
    unfold Call.isOver at isOver
    cases atStage : call.stage with
    | finished outcome =>
      unfold Call.Coherent at coherent
      simp only [atStage] at coherent
      exact coherent task isTask
    | _ => rw [atStage] at isOver; cases isOver
  · exact fun branchId marked => draining.owner marked
  · intro c call atCall atStage waits
    simp only [State.step, atCall, Option.bind_some, Call.advance, atStage, Option.map_eq_none_iff] at waits
    split at waits
    · cases waits
    · next notDrained =>
      have someMark : ∃ branchId, branchId ∈ state.shared.spawning ∨ branchId ∈ state.shared.killing := by
        by_contra none
        simp only [not_exists, not_or] at none
        exact notDrained ⟨Finset.eq_empty_of_forall_notMem fun branchId => (none branchId).1,
          Finset.eq_empty_of_forall_notMem fun branchId => (none branchId).2⟩
      obtain ⟨branchId, marked⟩ := someMark
      exact ⟨branchId, draining.owner marked, marked⟩
  · intro branchId recorded notBusy allowClosing opened
    obtain ⟨notSpawning, notKilling⟩ := idle branchId notBusy
    exact admitKill_unowned opened recorded notSpawning notKilling
  · intro branchId branch found isId notBusy notLive order
    obtain ⟨notSpawning, notKilling⟩ := idle branchId notBusy
    refine List.mem_append_left _ (List.mem_map.2 ⟨branch, ?_, isId⟩)
    rw [List.mem_filter]
    refine ⟨Dict.mem_values.2 ⟨branchId, found⟩, ?_⟩
    simp [unowned, isId, notSpawning, notKilling, notLive]

/-- A fork of one child that a `KeyboardInterrupt` rolls back. -/
def interruptedRun : List Action :=
  [.invoke (.createParent "p" [] none) returns, .item 0 0 returns, .item 0 0 returns, .item 0 0 returns,
    .item 0 0 returns, .advance 0, .invoke (.fork "p" 1 (some ["a"]) none) returns, .item 1 0 returns,
    .item 1 0 (raises .baseException), .item 1 0 returns, .item 1 0 returns, .item 1 0 returns,
    .item 1 0 returns, .advance 1]

theorem interruptedRun_marks_drain : MarksDrain serialConfig (serialRun interruptedRun) :=
  marks_drain boot_blank (serialRun_reachable (by decide) (by decide))

/-- The same with a second child: the loop ends with the first one. -/
def abandonedRun : List Action :=
  [.invoke (.createParent "p" [] none) returns, .item 0 0 returns, .item 0 0 returns, .item 0 0 returns,
    .item 0 0 returns, .advance 0, .invoke (.fork "p" 2 (some ["a", "b"]) none) returns, .item 1 0 returns,
    .item 1 0 (raises .baseException), .item 1 0 returns, .item 1 0 returns, .item 1 0 returns,
    .item 1 0 returns, .advance 1, .invoke .close returns]

theorem abandoned_child_stays_marked : ¬ ∀ state, Reachable (State.Step serialConfig) always
    (State.fresh blank) state → MarksDrain serialConfig state := by
  intro claimed
  have drains := claimed (serialRun abandonedRun) (serialRun_reachable (by decide) meets_always)
  -- `fork` has returned and `close` waits, but no call runs that works on a branch
  have marked : "b" ∈ (serialRun abandonedRun).shared.spawning := by decide
  obtain ⟨call, member, running, task, isTask, _⟩ := drains.owned "b" (.inl marked)
  have nobody : ((serialRun abandonedRun).calls.all fun call =>
      call.isOver || call.items.isEmpty) = true := by decide
  have here := List.all_eq_true.1 nobody call member
  rw [running, Bool.false_or, List.isEmpty_iff] at here
  rw [here] at isTask
  cases isTask

end Agentfork.Orchestrator

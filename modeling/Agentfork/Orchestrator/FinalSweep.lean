import Agentfork.Orchestrator.Closing

/-! # The final sweep

Once `close` sweeps nobody else changes a record, so every record left belongs to
one of its kills that has not ended. A sweep in which nothing fails leaves none,
and what is not recorded neither backend holds. -/

namespace Agentfork.Orchestrator

open Shared Transition

variable {config : Config} {env : Env} {shared after : Shared} {state next : State} {action : Action}

/-! ## A sweep in which nothing fails -/

def Reply.fails : Reply → Bool
  | .raised _ _ => true
  | .working | .returned => false

/-- A backend kill or a registry write of the final sweep fails. -/
def State.failsInSweep (state : State) : Action → Bool
  | .item c _ env => (state.calls[c]?).any fun call =>
      decide (call.op = .close) && (env.reply.fails || env.persist.isSome)
  | _ => false

def State.SweepsCleanly (state : State) (action : Action) : Prop := state.failsInSweep action = false

instance (state : State) (action : Action) : Decidable (state.SweepsCleanly action) :=
  inferInstanceAs (Decidable (_ = false))

/-- No backend call and no registry write of the task has failed. -/
def Task.smooth : Task → Bool
  | .kill ⟨_, _, .failed _⟩ => false
  | .kill ⟨_, _, .finished (.error _)⟩ => false
  | _ => true

theorem Task.fault_of_smooth {task : Task} (sweeps : task.sweeps = true) (smooth : task.smooth = true) :
    task.fault? = none := by
  obtain ⟨⟨branchId, allowClosing, phase⟩, rfl, _⟩ := Task.kill_of_sweeps sweeps
  cases phase with
  | finished outcome =>
    cases outcome with
    | ok receipt => rfl
    | error fault => cases smooth
  | _ => rfl

theorem persist_none (config : Config) (shared : Shared) :
    persist config none shared = (.ok (), write config shared) := by
  unfold persist write
  cases config.registry <;> rfl

/-- A kill of a sweep in which nothing fails ends without its record. -/
theorem killStep_smooth {task : KillTask} {phase : KillPhase}
    (taken : killStep config env shared task = some (after, phase))
    (opened : shared.ensureOpen task.allowClosing = .ok ())
    (unmarked : task.phase = .queued → task.branchId ∉ shared.killing ∧ task.branchId ∉ shared.spawning)
    (replies : env.reply.fails = false) (writes : env.persist = none) (smooth : (Task.kill task).smooth = true) :
    (Task.kill { task with phase := phase }).smooth = true ∧ ∀ branchId ∈ after.branches,
      branchId ∈ shared.branches ∧ (branchId = task.branchId → ∀ outcome, phase ≠ .finished outcome) := by
  cases killStep_move taken with
  | refused atPhase refuses quiet =>
    obtain ⟨notKilling, notSpawning⟩ := unmarked atPhase
    have unrecorded : task.branchId ∉ shared.branches := by
      intro recorded
      obtain ⟨branch, found⟩ := Dict.mem_iff_get?.1 recorded
      have foundMarked : (shared.markKilling task.branchId).branches.get? task.branchId = some branch := found
      unfold admitKill at refuses
      simp only [opened, recorded, notKilling, notSpawning, not_true_eq_false, or_self, if_false, replaceBranch,
        foundMarked, writes, persist_none] at refuses
      cases refuses
    unfold admitKill at refuses
    simp only [opened, unrecorded, not_false_eq_true, true_or, if_true] at refuses
    cases refuses
    exact ⟨rfl, fun branchId member => ⟨member, fun here => absurd (here ▸ member) unrecorded⟩⟩
  | admitted _ found =>
    refine ⟨rfl, fun branchId member => ⟨?_, fun _ outcome ended => by cases ended⟩⟩
    rw [write_branches] at member
    obtain rfl | stays := Dict.mem_insert.1 member
    · exact Dict.mem_of_get? found
    · exact stays
  | calls _ call backend =>
    cases backend with
    | working | returned => cases call <;> exact ⟨rfl, fun branchId member => ⟨member, fun _ outcome ended => by cases ended⟩⟩
    | raised replied | refused replied =>
      rw [replied] at replies
      cases replies
  | fails atPhase =>
    obtain ⟨branchId, allowClosing, phase⟩ := task
    simp only at atPhase
    subst atPhase
    cases smooth
  | forgets =>
    refine ⟨rfl, fun branchId member => ?_⟩
    have member : branchId ∈ shared.branches.erase task.branchId := by
      simpa only [write_branches, doneKilling] using member
    obtain ⟨differs, stays⟩ := Dict.mem_erase.1 member
    exact ⟨stays, fun here => absurd here differs⟩
  | staysRecorded _ raises =>
    simp only [forget, writes, persist_none] at raises
    cases raises

/-! ## What the sweep leaves -/

/-- Every record left has a kill of the sweep that has not ended. -/
structure Sweeping (shared : Shared) (call : Call) : Prop where
  distinct : (call.items.map Task.branchId).Nodup
  smooth : ∀ task ∈ call.items, task.smooth = true
  pending : ∀ branchId ∈ shared.branches, ∃ task ∈ call.items, task.branchId = branchId ∧ task.finished = false

structure Clearing (state : State) : Prop where
  sweeping : ∀ call ∈ state.calls, call.op = .close → call.stage = .fanOut → Sweeping state.shared call
  cleared : state.shared.closed = true → ∀ branchId, branchId ∉ state.shared.branches
  returned : ∀ call ∈ state.calls, call.op = .close → ∀ outcome, call.stage = .finished outcome →
    outcome = .ok .none ∧ state.shared.closed = true

namespace Clearing

/-- Beside a sweep, and after it, a task of another call changes nothing. -/
theorem still (closing : Closing config state) {c i : Nat} {call : Call} {task stepped : Task} {shared : Shared}
    (atCall : state.calls[c]? = some call) (atItem : call.items[i]? = some task) (running : call.isOver = false)
    (taken : task.step config env state.shared = some (shared, stepped))
    (beside : state.shared.closed = true ∨ ∃ (d : Nat) (other : Call), state.calls[d]? = some other ∧ d ≠ c ∧
      other.op = .close ∧ other.stage = .fanOut) : shared = state.shared := by
  have found : state.task? (c, i) = some task := (taskAt_of_call atCall i).trans atItem
  have inactive : task.active = false := by
    by_contra active
    have active : task.active = true := by simpa using active
    obtain isClosed | ⟨d, other, atOther, differs, isClose, isSweep⟩ := beside
    · rw [closing.released isClosed _ _ found] at active
      cases active
    · exact differs (closing.alone d other atOther isClose isSweep _ _ found active).symm
  obtain ⟨kill, rfl, _, opened | ⟨same, _⟩⟩ := Task.enters taken inactive
  · obtain ⟨notClosed, forClosing⟩ := ensureOpen_ok_iff.1 opened
    obtain isClosed | ⟨d, other, atOther, differs, isClose, isSweep⟩ := beside
    · rw [notClosed] at isClosed
      cases isClosed
    · -- a kill that is let in would belong to a second sweep
      have otherCloses : other.Closes := ⟨isClose, .inr isSweep⟩
      obtain ⟨isClosing, _⟩ := closing.flag other (List.mem_of_getElem? atOther) otherCloses
      obtain ⟨mine, mySweep⟩ := closing.sweep_of_item atCall atItem running (forClosing isClosing)
      exact absurd (closing.single d c other call atOther atCall otherCloses ⟨mine, .inr mySweep⟩) differs
  · exact same

/-- A kill of the sweep takes a step. -/
theorem sweeping_item (closing : Closing config state) (marked : Marked state) {c i : Nat} {call : Call}
    {task stepped : Task} {shared : Shared} (sweeping : Sweeping state.shared call)
    (atCall : state.calls[c]? = some call) (atItem : call.items[i]? = some task)
    (isClose : call.op = .close) (isSweep : call.stage = .fanOut)
    (clean : state.SweepsCleanly (.item c i env))
    (taken : task.step config env state.shared = some (shared, stepped)) :
    Sweeping shared { call with items := call.items.set i stepped } := by
  have member := List.mem_of_getElem? atItem
  have isCall := List.mem_of_getElem? atCall
  have allSweep := ((closing.shaped call isCall).close isClose).2.2
  obtain ⟨isClosing, notClosed⟩ := closing.flag call isCall ⟨isClose, .inr isSweep⟩
  obtain ⟨replies, writes⟩ : env.reply.fails = false ∧ env.persist = none := by
    simpa [State.SweepsCleanly, State.failsInSweep, atCall, isClose] using clean
  obtain ⟨kill, rfl, allowClosing⟩ := Task.kill_of_sweeps (allSweep task member)
  obtain ⟨⟨_, phase⟩, isStep, equal⟩ := Option.map_eq_some_iff.1 taken
  cases equal
  -- every mark is that of a kill of the sweep
  have unmarked : kill.phase = .queued → kill.branchId ∉ state.shared.killing ∧ kill.branchId ∉ state.shared.spawning := by
    intro queued
    constructor
    · intro isKilling
      obtain ⟨⟨d, j⟩, owner, owned, sameId, active⟩ := marked.killing kill.branchId isKilling
      have here := closing.alone c call atCall isClose isSweep _ _ owned active
      simp only at here
      subst here
      rw [State.task?, taskAt_of_call atCall] at owned
      obtain rfl := index_of_key sweeping.distinct atItem owned sameId.symm
      rw [atItem] at owned
      cases owned
      exact absurd queued (active_kill.1 active).1
    · intro isSpawning
      obtain ⟨⟨d, j⟩, owner, owned, _, active⟩ := marked.spawning kill.branchId isSpawning
      have here := closing.alone c call atCall isClose isSweep _ _ owned active
      simp only at here
      subst here
      rw [State.task?, taskAt_of_call atCall] at owned
      have impossible := allSweep _ (List.mem_of_getElem? owned)
      cases impossible
  obtain ⟨smooth, kept⟩ := killStep_smooth isStep (ensureOpen_ok_iff.2 ⟨notClosed, fun _ => allowClosing⟩) unmarked
    replies writes (sweeping.smooth _ member)
  refine ⟨?_, ?_, ?_⟩
  · have sameIds : (call.items.set i (.kill { kill with phase := phase })).map Task.branchId =
        call.items.map Task.branchId := ids_set atItem rfl
    simp only
    rw [sameIds]
    exact sweeping.distinct
  · intro other isOther
    obtain old | rfl := List.mem_or_eq_of_mem_set isOther
    · exact sweeping.smooth other old
    · exact smooth
  · intro branchId recorded
    obtain ⟨was, unfinished⟩ := kept branchId recorded
    obtain ⟨worker, isWorker, isId, running⟩ := sweeping.pending branchId was
    obtain ⟨j, atWorker⟩ := List.mem_iff_getElem?.1 isWorker
    by_cases here : i = j
    · subst here
      rw [atItem] at atWorker
      cases atWorker
      refine ⟨_, List.mem_of_getElem? (List.getElem?_set_self (List.getElem?_eq_some_iff.1 atItem).1), isId, ?_⟩
      have notFinished := unfinished isId.symm
      cases phase with
      | finished outcome => exact absurd rfl (notFinished outcome)
      | _ => rfl
    · exact ⟨worker, List.mem_of_getElem? ((List.getElem?_set_ne here).trans atWorker), isId, running⟩

theorem item (clearing : Clearing state) (closing : Closing config state) (marked : Marked state) {c i : Nat}
    {call : Call} {task stepped : Task} {shared : Shared} (atCall : state.calls[c]? = some call)
    (atItem : call.items[i]? = some task) (running : call.isOver = false)
    (clean : state.SweepsCleanly (.item c i env))
    (taken : task.step config env state.shared = some (shared, stepped)) :
    Clearing ⟨shared, state.calls.set c { call with items := call.items.set i stepped }⟩ := by
  have closed := (Task.step_continues taken).closed
  constructor
  · intro other member isClose isSweep
    obtain ⟨d, atOther⟩ := List.mem_iff_getElem?.1 member
    obtain ⟨rfl, rfl⟩ | ⟨differs, kept⟩ := call_of_set atOther
    · exact sweeping_item closing marked
        (clearing.sweeping call (List.mem_of_getElem? atCall) isClose isSweep) atCall atItem isClose isSweep clean taken
    · have same := still closing atCall atItem running taken (.inr ⟨d, other, kept, differs, isClose, isSweep⟩)
      subst same
      exact clearing.sweeping other (List.mem_of_getElem? kept) isClose isSweep
  · intro isClosed
    have wasClosed := closed.symm.trans isClosed
    have same := still closing atCall atItem running taken (.inl wasClosed)
    subst same
    exact clearing.cleared wasClosed
  · intro other member isClose outcome isOver
    obtain ⟨d, atOther⟩ := List.mem_iff_getElem?.1 member
    obtain ⟨rfl, rfl⟩ | ⟨_, kept⟩ := call_of_set atOther
    · unfold Call.isOver at running
      simp only at isOver
      rw [isOver] at running
      cases running
    · obtain ⟨isNone, wasClosed⟩ := clearing.returned other (List.mem_of_getElem? kept) isClose outcome isOver
      exact ⟨isNone, closed.trans wasClosed⟩

theorem invoke (clearing : Clearing state) (closing : Closing config state) {op : Op} {call : Call} {shared : Shared}
    (invoked : Orchestrator.invoke config env state.shared op = some (shared, call)) :
    Clearing ⟨shared, state.calls ++ [call]⟩ := by
  have same : state.shared.closing = true ∨ state.shared.closed = true → shared = state.shared := by
    refine fun flags => (invoke_shut invoked fun opened => ?_).1
    obtain ⟨notClosed, notClosing⟩ := ensureOpen_ok_iff.1 opened
    obtain isClosing | isClosed := flags
    · exact absurd (notClosing isClosing) nofun
    · exact absurd (notClosed.symm.trans isClosed) nofun
  -- a new call of `close` sweeps later, and returns at once only when all is over
  have new : call.op = .close → call.stage ≠ .fanOut ∧ ∀ outcome, call.stage = .finished outcome →
      outcome = .ok .none ∧ state.shared.closed = true := by
    intro isClose
    rw [← invoke_op invoked, isClose] at invoked
    obtain ⟨wasClosed, _, rfl⟩ | ⟨_, _, _, rfl⟩ | ⟨_, _, _, rfl⟩ := invoke_close invoked
    · refine ⟨nofun, fun outcome isOver => ?_⟩
      cases isOver
      exact ⟨rfl, wasClosed⟩
    · exact ⟨nofun, nofun⟩
    · exact ⟨nofun, nofun⟩
  constructor
  · intro other member isClose isSweep
    obtain before | here := List.mem_append.1 member
    · have isClosing := (closing.flag other before ⟨isClose, .inr isSweep⟩).1
      rw [same (.inl isClosing)]
      exact clearing.sweeping other before isClose isSweep
    · rw [List.mem_singleton.1 here] at isClose isSweep
      exact absurd isSweep (new isClose).1
  · intro isClosed
    have wasClosed : state.shared.closed = true := by
      by_cases isClosing : op = .close
      · subst isClosing
        obtain ⟨wasClosed, _⟩ | ⟨_, _, rfl, _⟩ | ⟨_, _, rfl, _⟩ := invoke_close invoked
        · exact wasClosed
        · exact isClosed
        · exact isClosed
      · exact (invoke_continues invoked isClosing).closed.symm.trans isClosed
    rw [same (.inr wasClosed)]
    exact clearing.cleared wasClosed
  · intro other member isClose outcome isOver
    have settled : outcome = .ok .none ∧ state.shared.closed = true := by
      obtain before | here := List.mem_append.1 member
      · exact clearing.returned other before isClose outcome isOver
      · rw [List.mem_singleton.1 here] at isClose isOver
        exact (new isClose).2 outcome isOver
    rw [same (.inr settled.2)]
    exact settled

/-- The sweep has ended and nothing is recorded. -/
theorem swept {call : Call} {shared : Shared} (sweeping : Sweeping shared call)
    (sweeps : ∀ task ∈ call.items, task.sweeps = true) (ended : call.fanOutEnded config = true) :
    Call.fanOutFault call.items = none ∧ ∀ branchId, branchId ∉ shared.branches := by
  have noFault : ∀ task ∈ call.items, task.fault? = none :=
    fun task member => Task.fault_of_smooth (sweeps task member) (sweeping.smooth task member)
  have noFaultAtAll : Call.fanOutFault call.items = none := by
    have nobodyAborts : call.items.find? Task.aborts = none := by
      rw [List.find?_eq_none]
      intro task member aborts
      unfold Task.aborts at aborts
      rw [noFault task member] at aborts
      cases aborts
    unfold Call.fanOutFault
    rw [nobodyAborts]
    exact List.findSome?_eq_none_iff.2 noFault
  refine ⟨noFaultAtAll, fun branchId recorded => ?_⟩
  obtain ⟨task, member, _, running⟩ := sweeping.pending branchId recorded
  rw [Call.finished_of_fanOut ended noFaultAtAll task member] at running
  cases running

theorem close (clearing : Clearing state) (closing : Closing config state) {c : Nat} {call moved : Call}
    {shared : Shared} (atCall : state.calls[c]? = some call)
    (advanced : call.advance config state.shared = some (shared, moved)) (isClose : call.op = .close) :
    Clearing ⟨shared, state.calls.set c moved⟩ := by
  have isCall := List.mem_of_getElem? atCall
  obtain ⟨ofClose, coherent, sweeps⟩ := (closing.shaped call isCall).close isClose
  have only : call.Closes → ∀ {d : Nat} {other : Call}, d ≠ c → state.calls[d]? = some other → ¬ other.Closes :=
    fun closes d other differs atOther otherCloses =>
      differs (closing.single d c other call atOther atCall otherCloses closes)
  cases advance_close advanced isClose ofClose with
  | sweep waited drained =>
    have closes : call.Closes := ⟨isClose, .inl waited⟩
    have notClosed := (closing.flag call isCall closes).2
    have noItems : call.items = [] := by
      unfold Call.Coherent at coherent
      simpa only [waited] using coherent
    constructor
    · intro other member otherClose otherSweep
      obtain ⟨d, atOther⟩ := List.mem_iff_getElem?.1 member
      obtain ⟨rfl, rfl⟩ | ⟨differs, kept⟩ := call_of_set atOther
      · -- one kill for each record
        have ids : (([] ++ state.shared.branches.keys.map (killTask true)).map Task.branchId) =
            state.shared.branches.keys := by
          rw [List.nil_append, List.map_map]
          exact List.map_id _
        rw [noItems]
        refine ⟨?_, ?_, ?_⟩
        · simp only
          rw [ids]
          exact state.shared.branches.keys_nodup
        · intro task isTask
          obtain ⟨branchId, _, rfl⟩ := List.mem_map.1 isTask
          rfl
        · intro branchId recorded
          exact ⟨killTask true branchId, List.mem_map.2 ⟨branchId, Dict.mem_keys.2 recorded, rfl⟩, rfl, rfl⟩
      · exact absurd ⟨otherClose, .inr otherSweep⟩ (only closes differs kept)
    · intro isClosed
      rw [notClosed] at isClosed
      cases isClosed
    · intro other member otherClose outcome isOver
      obtain old | rfl := List.mem_or_eq_of_mem_set member
      · exact clearing.returned other old otherClose outcome isOver
      · cases isOver
  | release isSweep ended =>
    have closes : call.Closes := ⟨isClose, .inr isSweep⟩
    obtain ⟨noFault, cleared⟩ := swept (clearing.sweeping call isCall isClose isSweep) sweeps ended
    rw [noFault]
    constructor
    · intro other member otherClose otherSweep
      obtain ⟨d, atOther⟩ := List.mem_iff_getElem?.1 member
      obtain ⟨rfl, rfl⟩ | ⟨differs, kept⟩ := call_of_set atOther
      · cases otherSweep
      · exact absurd ⟨otherClose, .inr otherSweep⟩ (only closes differs kept)
    · exact fun _ => cleared
    · intro other member otherClose outcome isOver
      obtain old | rfl := List.mem_or_eq_of_mem_set member
      · exact ⟨(clearing.returned other old otherClose outcome isOver).1, rfl⟩
      · cases isOver
        exact ⟨rfl, rfl⟩
  | follow waited released =>
    constructor
    · intro other member otherClose otherSweep
      obtain old | rfl := List.mem_or_eq_of_mem_set member
      · exact clearing.sweeping other old otherClose otherSweep
      · cases otherSweep
    · exact clearing.cleared
    · intro other member otherClose outcome isOver
      obtain old | rfl := List.mem_or_eq_of_mem_set member
      · exact clearing.returned other old otherClose outcome isOver
      · cases isOver
        exact ⟨rfl, released⟩

theorem other (clearing : Clearing state) (closing : Closing config state) {c : Nat} {call moved : Call}
    {shared : Shared} (atCall : state.calls[c]? = some call)
    (advanced : call.advance config state.shared = some (shared, moved)) (notClose : call.op ≠ .close) :
    Clearing ⟨shared, state.calls.set c moved⟩ := by
  obtain ⟨notDraining, others⟩ := (closing.shaped call (List.mem_of_getElem? atCall)).other notClose
  obtain ⟨_, sameClosed, _⟩ := advance_other advanced notClose notDraining others
  have notCloses : moved.op ≠ .close := fun isClose => notClose ((advance_op advanced).symm.trans isClose)
  obtain ⟨metrics, isClosing, isClosed, rfl⟩ := advance_flags advanced
  constructor
  · intro other member otherClose otherSweep
    obtain old | rfl := List.mem_or_eq_of_mem_set member
    · have sweeping := clearing.sweeping other old otherClose otherSweep
      exact ⟨sweeping.distinct, sweeping.smooth, sweeping.pending⟩
    · exact absurd otherClose notCloses
  · exact fun closed => clearing.cleared (sameClosed.symm.trans closed)
  · intro other member otherClose outcome isOver
    obtain old | rfl := List.mem_or_eq_of_mem_set member
    · obtain ⟨isNone, wasClosed⟩ := clearing.returned other old otherClose outcome isOver
      exact ⟨isNone, sameClosed.trans wasClosed⟩
    · exact absurd otherClose notCloses

theorem step (clearing : Clearing state) (closing : Closing config state) (marked : Marked state)
    (clean : state.SweepsCleanly action) (taken : state.Step config action next) : Clearing next := by
  cases State.Step.move taken with
  | item atCall atItem running _ stepped => exact clearing.item closing marked atCall atItem running clean stepped
  | journal _ _ _ _ invoked => exact clearing.invoke closing invoked
  | invoke _ _ invoked => exact clearing.invoke closing invoked
  | @advance c shared call moved more atCall _ _ _ advanced =>
    by_cases isClose : call.op = .close
    · exact clearing.close closing atCall advanced isClose
    · exact clearing.other closing atCall advanced isClose

end Clearing

/-! ## Close drains everything -/

/-- The registry lock is not taken again. -/
theorem Closing.stays (closing : Closing config state) (taken : state.Step config action next)
    (isClosed : state.shared.closed = true) : next.shared.closed = true := by
  have invoked : ∀ {op : Op} {env : Env} {shared : Shared} {call : Call},
      Orchestrator.invoke config env state.shared op = some (shared, call) → shared.closed = true := by
    intro op env shared call invoked
    have shut : state.shared.ensureOpen false ≠ .ok () := by
      intro opened
      rw [(ensureOpen_ok_iff.1 opened).1] at isClosed
      cases isClosed
    rw [(invoke_shut invoked shut).1]
    exact isClosed
  cases State.Step.move taken with
  | item _ _ _ _ stepped => exact (Task.step_continues stepped).closed.trans isClosed
  | journal _ _ _ _ admitted => exact invoked admitted
  | invoke _ _ admitted => exact invoked admitted
  | @advance c shared call moved more atCall _ _ _ advanced =>
    have shaped := closing.shaped call (List.mem_of_getElem? atCall)
    by_cases isClose : call.op = .close
    · cases advance_close advanced isClose (shaped.close isClose).1 with
      | sweep | follow => exact isClosed
      | release => rfl
    · obtain ⟨notDraining, others⟩ := shaped.other isClose
      obtain ⟨_, sameClosed, _⟩ := advance_other advanced isClose notDraining others
      exact sameClosed.trans isClosed

theorem once_before {released : State} (onward : Reachable (State.Step config) always released state)
    (once : state.shared.started.Nodup) : released.shared.started.Nodup := by
  induction onward with
  | refl => exact once
  | tail _ _ taken inductionHypothesis =>
    obtain ⟨more, history, _⟩ := State.Step.history taken
    rw [history, List.nodup_append] at once
    exact inductionHypothesis once.1

theorem closed_onward {world : World} {released : State} (booted : Shared.boot config world = .ok shared)
    (reached : Reachable (State.Step config) always (State.fresh shared) released)
    (onward : Reachable (State.Step config) always released state) (once : state.shared.started.Nodup)
    (isClosed : released.shared.closed = true) : state.shared.closed = true := by
  induction onward with
  | refl => exact isClosed
  | tail onwardBefore _ taken inductionHypothesis =>
    have onceBefore := once_before (.tail .refl trivial taken) once
    exact (closing_of_reachable booted (reached.trans onwardBefore) onceBefore).stays taken
      (inductionHypothesis onceBefore)

theorem clearing_of_reachable {world : World} (booted : Shared.boot config world = .ok shared)
    (reached : Reachable (State.Step config) State.SweepsCleanly (State.fresh shared) state)
    (once : state.shared.started.Nodup) : Clearing state := by
  induction reached with
  | refl =>
    constructor
    · exact fun call member => absurd member List.not_mem_nil
    · intro isClosed
      unfold Shared.boot at booted
      simp only at booted
      split at booted <;> cases booted
      cases isClosed
    · exact fun call member => absurd member List.not_mem_nil
  | @tail before after action reachedBefore clean taken inductionHypothesis =>
    have reachedAlways := reachedBefore.weaken fun _ _ _ => trivial
    have onceBefore := once_before (.tail .refl trivial taken) once
    have marked : Marked before := reachedAlways.invariant (boot_draining booted).marked
      fun _ _ _ marked _ taken => marked.step taken
    exact (inductionHypothesis onceBefore).step (closing_of_reachable booted reachedAlways onceBefore) marked clean taken

/-- From the release of the lock on no backend call runs. If nothing has failed
in the sweep, neither backend holds a branch of the orchestrator when a `close`
has returned, and the registry file lists none. -/
theorem close_drains {world : World} {released : State} (booted : Shared.boot config world = .ok shared)
    (reached : Reachable (State.Step config) always (State.fresh shared) released)
    (onward : Reachable (State.Step config) always released state) (once : state.shared.started.Nodup) :
    (released.shared.closed = true →
      ∀ call ∈ state.calls, ∀ task ∈ call.items, task.inBackend = false) ∧
    (Reachable (State.Step config) State.SweepsCleanly (State.fresh shared) state →
      ∀ call ∈ state.calls, call.op = .close → call.isOver = true →
        (∀ branchId, branchId ∈ shared.loaded ∨ branchId ∈ state.shared.started →
          branchId ∉ state.shared.kv ∧ branchId ∉ state.shared.sandbox) ∧
        (config.registry = true → state.shared.file = [])) := by
  constructor
  · intro isClosed call isCall task isTask
    have stays := closed_onward booted reached onward once isClosed
    have closing := closing_of_reachable booted (reached.trans onward) once
    obtain ⟨c, atCall⟩ := List.mem_iff_getElem?.1 isCall
    obtain ⟨i, atTask⟩ := List.mem_iff_getElem?.1 isTask
    have inactive := closing.released stays (c, i) task ((taskAt_of_call atCall i).trans atTask)
    by_contra inBackend
    rw [Task.active_of_inBackend (by simpa using inBackend)] at inactive
    cases inactive
  · intro clean call isCall isClose isOver
    have clearing := clearing_of_reachable booted clean once
    have disciplined := disciplined_of_once booted (reached.trans onward) once
    have cleared : ∀ branchId, branchId ∉ state.shared.branches := by
      unfold Call.isOver at isOver
      cases atStage : call.stage with
      | finished outcome => exact clearing.cleared (clearing.returned call isCall isClose outcome atStage).2
      | _ => rw [atStage] at isOver; cases isOver
    constructor
    · intro branchId mine
      have owned : (state.shared.view shared.loaded branchId).owned := mine.symm
      exact ⟨fun held => cleared branchId (disciplined.recorded_of_held owned (.inl held)),
        fun held => cleared branchId (disciplined.recorded_of_held owned (.inr held))⟩
    · intro registry
      refine List.eq_nil_iff_forall_not_mem.2 fun branch listed => ?_
      exact cleared branch.branchId ((disciplined.synced.mem_file registry).2 ⟨branch, listed, rfl⟩)

/-- Two threads close an orchestrator with one branch; the second one waits. -/
def closingRun : List Action :=
  [.invoke (.createParent "p" [] none) returns, .item 0 0 returns, .item 0 0 returns, .item 0 0 returns,
    .item 0 0 returns, .advance 0, .invoke .close returns, .invoke .close returns, .advance 1,
    .item 1 0 returns, .item 1 0 returns, .item 1 0 returns, .item 1 0 returns, .advance 1]

theorem closingRun_drains :
    "p" ∉ (serialRun closingRun).shared.kv ∧ (serialRun closingRun).shared.file = [] ∧
      ∀ call ∈ (runFrom (State.step serialConfig) (serialRun closingRun) [.advance 2]).calls,
        ∀ task ∈ call.items, task.inBackend = false := by
  have enabled : (run (State.step serialConfig) (State.fresh blank) closingRun).isSome = true := by decide
  have reached := serialRun_reachable enabled meets_always
  have onward : Reachable (State.Step serialConfig) always (serialRun closingRun)
      (runFrom (State.step serialConfig) (serialRun closingRun) [.advance 2]) :=
    reachable_runFrom (by decide) meets_always
  obtain ⟨_, drained⟩ := close_drains boot_blank reached .refl (by decide)
  obtain ⟨call, atCall⟩ := Option.isSome_iff_exists.1 (show (serialRun closingRun).calls[1]?.isSome = true by decide)
  have isReturned : ((serialRun closingRun).calls[1]?).map (fun call => (call.op, call.isOver)) =
      some (.close, true) := by decide
  rw [atCall] at isReturned
  obtain ⟨isClose, isOver⟩ := Prod.mk.inj (Option.some.inj isReturned)
  obtain ⟨nowhere, noRecord⟩ := drained (serialRun_reachable enabled (by decide)) call
    (List.mem_of_getElem? atCall) isClose isOver
  exact ⟨(nowhere "p" (.inr (by decide))).1, noRecord rfl,
    (close_drains boot_blank reached onward (by decide)).1 (by decide)⟩

end Agentfork.Orchestrator

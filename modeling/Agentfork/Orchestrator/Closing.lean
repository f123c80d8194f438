import Agentfork.Orchestrator.Control
import Agentfork.Orchestrator.Drain

/-! # Closing

`close` waits for the marks to go, kills what is recorded and only then gives up
the registry. While it waits nobody is let in, and once it sweeps every running
task is one of its own kills, so nothing runs when the lock is released. -/

namespace Agentfork.Orchestrator

open Shared Transition

variable {config : Config} {env : Env} {shared after : Shared} {state next : State} {action : Action}

/-! ## The call that closes -/

/-- A kill of the final sweep. -/
def Task.sweeps : Task → Bool
  | .kill task => task.allowClosing
  | .start _ => false

/-- The stages of `close`. -/
def Stage.ofClose : Stage → Prop
  | .fanOut | .draining | .awaitClosed | .finished _ => True
  | .tally _ | .sweep _ _ | .retry _ _ => False

namespace Call

/-- The call waits for the marks to go, or sweeps. -/
def Closes (call : Call) : Prop := call.op = .close ∧ (call.stage = .draining ∨ call.stage = .fanOut)

/-- Only `close` kills while the orchestrator is closing, and it does nothing else. -/
structure Shaped (config : Config) (call : Call) : Prop where
  other : call.op ≠ .close → call.stage ≠ .draining ∧ ∀ task ∈ call.items, task.sweeps = false
  close : call.op = .close → call.stage.ofClose ∧ call.Coherent config ∧ ∀ task ∈ call.items, task.sweeps = true

end Call

theorem Task.step_sweeps {task stepped : Task} (taken : task.step config env shared = some (after, stepped)) :
    stepped.sweeps = task.sweeps := by
  cases task with
  | start task =>
    obtain ⟨_, _, equal⟩ := Option.map_eq_some_iff.1 taken
    cases equal
    rfl
  | kill task =>
    obtain ⟨_, _, equal⟩ := Option.map_eq_some_iff.1 taken
    cases equal
    rfl

theorem Task.kill_of_sweeps {task : Task} (sweeps : task.sweeps = true) :
    ∃ kill : KillTask, task = .kill kill ∧ kill.allowClosing = true := by
  cases task with
  | start task => cases sweeps
  | kill task => exact ⟨task, rfl, sweeps⟩

theorem ensureOpen_ok_iff {allowClosing : Bool} :
    shared.ensureOpen allowClosing = .ok () ↔
      shared.closed = false ∧ (shared.closing = true → allowClosing = true) := by
  unfold ensureOpen
  cases shared.closed <;> cases shared.closing <;> cases allowClosing <;> simp

/-- A kill that is let in has found the orchestrator open to it. -/
theorem admitKill_shut {task : KillTask} (shut : shared.ensureOpen task.allowClosing ≠ .ok ())
    (config : Config) (failure : Option Fault) :
    ∃ outcome, admitKill config failure task shared = (shared, .finished outcome) := by
  unfold admitKill
  cases outcome : shared.ensureOpen task.allowClosing with
  | ok => exact absurd outcome shut
  | error fault => exact ⟨.error fault, rfl⟩

/-- A task that begins to work does so in the first section of a kill. -/
theorem Task.enters {task stepped : Task} (taken : task.step config env shared = some (after, stepped))
    (inactive : task.active = false) :
    ∃ kill : KillTask, task = .kill kill ∧ kill.phase = .queued ∧
      (shared.ensureOpen kill.allowClosing = .ok () ∨ after = shared ∧ stepped.active = false) := by
  cases task with
  | start task =>
    obtain ⟨branchId, parentId, tokens, phase⟩ := task
    cases phase with
    | finished outcome => cases taken
    | _ => cases inactive
  | kill task =>
    obtain ⟨⟨_, phase⟩, isStep, equal⟩ := Option.map_eq_some_iff.1 taken
    cases equal
    have queued : task.phase = .queued := by
      by_contra begun
      rw [active_kill.2 ⟨begun, killStep_unfinished isStep⟩] at inactive
      cases inactive
    refine ⟨task, rfl, queued, ?_⟩
    by_cases opened : shared.ensureOpen task.allowClosing = .ok ()
    · exact .inl opened
    · obtain ⟨outcome, refused⟩ := admitKill_shut opened config env.persist
      simp only [killStep, queued, refused] at isStep
      cases isStep
      exact .inr ⟨rfl, rfl⟩

/-! ## First sections -/

theorem not_sweeps_kills (branchIds : List BranchId) : ∀ task ∈ branchIds.map (killTask false), task.sweeps = false := by
  intro task member
  obtain ⟨branchId, _, rfl⟩ := List.mem_map.1 member
  rfl

theorem not_sweeps_starts (phase : StartPhase) (tokens : List Nat) (children : List Branch) :
    ∀ task ∈ children.map (startTask phase tokens), task.sweeps = false := by
  intro task member
  obtain ⟨child, _, rfl⟩ := List.mem_map.1 member
  rfl

theorem invoke_shaped {op : Op} {call : Call} (invoked : invoke config env shared op = some (after, call)) :
    call.Shaped config := by
  have coherent := invoke_coherent invoked
  have isOp := invoke_op invoked
  have none : ∀ {sweeps : Bool}, ∀ task ∈ ([] : List Task), task.sweeps = sweeps :=
    fun task member => absurd member List.not_mem_nil
  by_cases isClose : op = .close
  · subst isClose
    refine ⟨fun other => absurd isOp other, fun _ => ?_⟩
    obtain ⟨_, _, rfl⟩ | ⟨_, _, _, rfl⟩ | ⟨_, _, _, rfl⟩ := invoke_close invoked
    · exact ⟨trivial, coherent, none⟩
    · exact ⟨trivial, coherent, none⟩
    · exact ⟨trivial, coherent, none⟩
  · refine ⟨fun _ => ?_, fun close => absurd (isOp.symm.trans close) isClose⟩
    cases invoke_move invoked with
    | refused | renewLease => exact ⟨nofun, none⟩
    | createParent => exact ⟨nofun, not_sweeps_starts .kvStart _ [_]⟩
    | fork => exact ⟨nofun, not_sweeps_starts _ _ _⟩
    | kills => exact ⟨nofun, not_sweeps_kills _⟩
    | closed | closing | closes => exact absurd rfl isClose

/-- While the orchestrator is not open a call is turned away, or brings kills
that will be. -/
theorem invoke_shut {op : Op} {call : Call} (invoked : invoke config env shared op = some (after, call))
    (shut : shared.ensureOpen false ≠ .ok ()) : after = shared ∧ Dormant call.items := by
  obtain ⟨fault, refused⟩ : ∃ fault, shared.ensureOpen false = .error fault := by
    cases outcome : shared.ensureOpen false with
    | ok => exact absurd outcome shut
    | error fault => exact ⟨fault, rfl⟩
  cases invoke_move invoked with
  | refused refuses =>
    cases refuses with
    | createParent raises =>
      rw [admitParent, refused] at raises
      cases raises
      exact ⟨rfl, dormant_nil⟩
    | fork raises =>
      rw [admitFork, refused] at raises
      cases raises
      exact ⟨rfl, dormant_nil⟩
    | renewLease raises =>
      rw [Shared.renewLease, refused] at raises
      cases raises
      exact ⟨rfl, dormant_nil⟩
    | killLosers | noWinner | reapExpired | reconcile => exact ⟨rfl, dormant_nil⟩
  | createParent admits =>
    rw [admitParent, refused] at admits
    cases admits
  | fork admits =>
    rw [admitFork, refused] at admits
    cases admits
  | renewLease _ renews =>
    rw [Shared.renewLease, refused] at renews
    cases renews
  | kills => exact ⟨rfl, dormant_kills _ _⟩
  | closed | closing => exact ⟨rfl, dormant_nil⟩
  | closes notClosed notClosing =>
    exact absurd (ensureOpen_ok_iff.2 ⟨notClosed, fun closing => absurd (notClosing.symm.trans closing) nofun⟩) shut

/-! ## Later sections -/

/-- A call other than `close` leaves the flags alone, and does not wait for the
marks afterwards. -/
theorem advance_other {call moved : Call} (advanced : call.advance config shared = some (after, moved))
    (notClose : call.op ≠ .close) (notDraining : call.stage ≠ .draining)
    (others : ∀ task ∈ call.items, task.sweeps = false) :
    after.closing = shared.closing ∧ after.closed = shared.closed ∧ moved.stage ≠ .draining ∧
      ∀ task ∈ moved.items, task.sweeps = false := by
  have more : ∀ branchId, ∀ task ∈ call.items ++ [killTask false branchId], task.sweeps = false := by
    intro branchId task member
    obtain old | new := List.mem_append.1 member
    · exact others task old
    · exact not_sweeps_kills [branchId] task new
  cases Call.advance_move advanced with
  | fanOut _ _ _ move =>
    cases move with
    | closeRaised isOp | closed isOp => exact absurd isOp notClose
    | raised | reconcileRaised | started | forked | killed | sweeps | renewed | reaped | reconciled =>
      exact ⟨rfl, rfl, nofun, others⟩
  | sweep _ move =>
    cases move with
    | ends | reaped | gone => exact ⟨rfl, rfl, nofun, others⟩
    | waits => exact ⟨rfl, rfl, notDraining, others⟩
    | killsAgain => exact ⟨rfl, rfl, nofun, more _⟩
  | tally | retryRaised | retried | follows => exact ⟨rfl, rfl, nofun, others⟩
  | drained atStage => exact absurd atStage notDraining

/-- The sweep has ended with the exception, if any. -/
def sweepOutcome : Option Fault → Except Fault Value
  | some fault => .error fault
  | none => .ok .none

/-- What `close` does in its later sections. -/
inductive CloseMove (config : Config) (shared : Shared) (call : Call) : Shared → Call → Prop where
  | sweep (waited : call.stage = .draining) (drained : shared.spawning = ∅ ∧ shared.killing = ∅) :
    CloseMove config shared call shared
      { call with items := call.items ++ shared.branches.keys.map (killTask true), stage := .fanOut }
  | release (swept : call.stage = .fanOut) (ended : call.fanOutEnded config = true) :
    CloseMove config shared call { shared with closed := true, closing := false }
      (call.finish (sweepOutcome (Call.fanOutFault call.items)))
  | follow (waited : call.stage = .awaitClosed) (released : shared.closed = true) :
    CloseMove config shared call shared (call.finish (.ok .none))

theorem advance_close {call moved : Call} (advanced : call.advance config shared = some (after, moved))
    (isClose : call.op = .close) (ofClose : call.stage.ofClose) : CloseMove config shared call after moved := by
  cases Call.advance_move advanced with
  | fanOut atStage ended isFault move =>
    have moves : CloseMove config shared call { shared with closed := true, closing := false }
        (call.finish (sweepOutcome (Call.fanOutFault call.items))) := .release atStage ended
    rw [isFault] at moves
    cases move with
    | closeRaised | closed => exact moves
    | raised _ notClose => exact absurd isClose notClose
    | started isOp | forked isOp | killed isOp | sweeps isOp | renewed isOp | reaped isOp | reconciled isOp
    | reconcileRaised isOp =>
      rw [isClose] at isOp
      cases isOp
  | drained atStage noMarks => exact .sweep atStage noMarks
  | follows atStage isClosed => exact .follow atStage isClosed
  | tally atStage | sweep atStage | retryRaised atStage | retried atStage =>
    rw [atStage] at ofClose
    exact ofClose.elim

theorem advance_shaped {call moved : Call} (shaped : call.Shaped config)
    (advanced : call.advance config shared = some (after, moved)) : moved.Shaped config := by
  have isOp := advance_op advanced
  by_cases isClose : call.op = .close
  · obtain ⟨ofClose, coherent, sweeps⟩ := shaped.close isClose
    have nextCoherent := Call.advance_coherent coherent advanced
    refine ⟨fun other => absurd (isOp.trans isClose) other, fun _ => ?_⟩
    cases advance_close advanced isClose ofClose with
    | sweep waited drained =>
      refine ⟨trivial, nextCoherent, fun task member => ?_⟩
      obtain old | new := List.mem_append.1 member
      · exact sweeps task old
      · obtain ⟨branchId, _, rfl⟩ := List.mem_map.1 new
        rfl
    | release | follow => exact ⟨trivial, nextCoherent, sweeps⟩
  · obtain ⟨notDraining, others⟩ := shaped.other isClose
    obtain ⟨_, _, stays⟩ := advance_other advanced isClose notDraining others
    exact ⟨fun _ => stays, fun close => absurd (isOp.symm.trans close) isClose⟩

theorem item_shaped {call : Call} {i : Nat} {task stepped : Task} (shaped : call.Shaped config)
    (atItem : call.items[i]? = some task) (running : call.isOver = false)
    (allowed : task.queued = true → call.mayStart config i = true)
    (taken : task.step config env shared = some (after, stepped)) :
    Call.Shaped config { call with items := call.items.set i stepped } := by
  have same := Task.step_sweeps taken
  have member := List.mem_of_getElem? atItem
  have all : ∀ {sweeps : Bool}, (∀ task ∈ call.items, task.sweeps = sweeps) →
      ∀ task ∈ call.items.set i stepped, task.sweeps = sweeps := by
    intro sweeps holds other isOther
    obtain before | rfl := List.mem_or_eq_of_mem_set isOther
    · exact holds other before
    · exact same.trans (holds task member)
  constructor
  · intro notClose
    obtain ⟨notDraining, others⟩ := shaped.other notClose
    exact ⟨notDraining, all others⟩
  · intro isClose
    obtain ⟨ofClose, coherent, sweeps⟩ := shaped.close isClose
    refine ⟨ofClose, Call.item_coherent coherent atItem running allowed ?_ taken, all sweeps⟩
    -- the items of a sweep are kills
    intro _ isStart _
    obtain ⟨kill, rfl, _⟩ := Task.kill_of_sweeps (same.trans (sweeps task member))
    cases isStart

/-! ## Nothing runs when the lock is released -/

theorem call_of_set {calls : List Call} {c d : Nat} {moved call : Call}
    (atCall : (calls.set c moved)[d]? = some call) : d = c ∧ call = moved ∨ d ≠ c ∧ calls[d]? = some call := by
  rw [List.getElem?_set] at atCall
  split at atCall
  · next here =>
    split at atCall
    · cases atCall
      exact .inl ⟨here.symm, rfl⟩
    · cases atCall
  · next differs => exact .inr ⟨Ne.symm differs, atCall⟩

theorem call_of_append {calls : List Call} {d : Nat} {last call : Call}
    (atCall : (calls ++ [last])[d]? = some call) : d = calls.length ∧ call = last ∨ calls[d]? = some call := by
  rw [List.getElem?_append] at atCall
  split at atCall
  · exact .inr atCall
  · next outside =>
    rw [List.getElem?_singleton] at atCall
    split at atCall
    · cases atCall
      exact .inl ⟨by omega, rfl⟩
    · cases atCall

/-- One call closes at a time. It sweeps alone, and when the lock is released
nobody works on a branch. -/
structure Closing (config : Config) (state : State) : Prop where
  shaped : ∀ call ∈ state.calls, call.Shaped config
  flag : ∀ call ∈ state.calls, call.Closes → state.shared.closing = true ∧ state.shared.closed = false
  single : ∀ (c d : Nat) (first second : Call), state.calls[c]? = some first → state.calls[d]? = some second →
    first.Closes → second.Closes → c = d
  alone : ∀ (c : Nat) (call : Call), state.calls[c]? = some call → call.op = .close → call.stage = .fanOut →
    ∀ index task, state.task? index = some task → task.active = true → index.1 = c
  released : state.shared.closed = true → ∀ index task, state.task? index = some task → task.active = false

namespace Closing

/-- A call that works on its items and may kill while the orchestrator closes is
the sweep. -/
theorem sweep_of_item (closing : Closing config state) {c i : Nat} {call : Call} {task : Task}
    (atCall : state.calls[c]? = some call) (atItem : call.items[i]? = some task) (running : call.isOver = false)
    (sweeps : task.sweeps = true) : call.op = .close ∧ call.stage = .fanOut := by
  have shaped := closing.shaped call (List.mem_of_getElem? atCall)
  have member := List.mem_of_getElem? atItem
  have isClose : call.op = .close := by
    by_contra other
    rw [(shaped.other other).2 task member] at sweeps
    cases sweeps
  refine ⟨isClose, ?_⟩
  obtain ⟨ofClose, coherent, _⟩ := shaped.close isClose
  unfold Call.Coherent at coherent
  unfold Call.isOver at running
  cases atStage : call.stage with
  | fanOut => rfl
  | draining | awaitClosed =>
    -- a call that waits has no items
    simp only [atStage] at coherent
    rw [coherent] at member
    cases member
  | finished => rw [atStage] at running; cases running
  | tally | sweep | retry => rw [atStage] at ofClose; exact ofClose.elim

theorem item (closing : Closing config state) {c i : Nat} {call : Call} {task stepped : Task} {shared : Shared}
    (atCall : state.calls[c]? = some call) (atItem : call.items[i]? = some task) (running : call.isOver = false)
    (allowed : task.queued = true → call.mayStart config i = true)
    (taken : task.step config env state.shared = some (shared, stepped)) :
    Closing config ⟨shared, state.calls.set c { call with items := call.items.set i stepped }⟩ := by
  have continues := Task.step_continues taken
  have found : state.task? (c, i) = some task := (taskAt_of_call atCall i).trans atItem
  have tasks := taskAt_item atCall atItem stepped
  -- a call keeps its operation and its stage
  have before : ∀ (d : Nat) (other : Call), (state.calls.set c { call with items := call.items.set i stepped })[d]? = some other →
      ∃ same : Call, state.calls[d]? = some same ∧ other.op = same.op ∧ other.stage = same.stage := by
    intro d other atOther
    obtain ⟨rfl, rfl⟩ | ⟨_, kept⟩ := call_of_set atOther
    · exact ⟨call, atCall, rfl, rfl⟩
    · exact ⟨other, kept, rfl, rfl⟩
  have closes : ∀ {other same : Call}, other.op = same.op → other.stage = same.stage → other.Closes → same.Closes := by
    intro other same sameOp sameStage closes
    exact ⟨sameOp ▸ closes.1, sameStage ▸ closes.2⟩
  refine ⟨?_, ?_, ?_, ?_, ?_⟩
  · intro other member
    obtain old | rfl := List.mem_or_eq_of_mem_set member
    · exact closing.shaped other old
    · exact item_shaped (closing.shaped call (List.mem_of_getElem? atCall)) atItem running allowed taken
  · intro other member isCloser
    obtain ⟨d, atOther⟩ := List.mem_iff_getElem?.1 member
    obtain ⟨same, atSame, sameOp, sameStage⟩ := before d other atOther
    obtain ⟨isClosing, notClosed⟩ := closing.flag same (List.mem_of_getElem? atSame) (closes sameOp sameStage isCloser)
    exact ⟨continues.closing.trans isClosing, continues.closed.trans notClosed⟩
  · intro d e first second atFirst atSecond firstCloses secondCloses
    obtain ⟨sameFirst, wasFirst, firstOp, firstStage⟩ := before d first atFirst
    obtain ⟨sameSecond, wasSecond, secondOp, secondStage⟩ := before e second atSecond
    exact closing.single d e sameFirst sameSecond wasFirst wasSecond
      (closes firstOp firstStage firstCloses) (closes secondOp secondStage secondCloses)
  · intro d other atOther isClose isSweep index worker isWorker active
    obtain ⟨same, atSame, sameOp, sameStage⟩ := before d other atOther
    have sweeping : same.op = .close ∧ same.stage = .fanOut := ⟨sameOp ▸ isClose, sameStage ▸ isSweep⟩
    have alone := closing.alone d same atSame sweeping.1 sweeping.2
    have isNow := (tasks index).symm.trans isWorker
    split at isNow
    · next here =>
      subst here
      cases isNow
      cases wasActive : task.active with
      | true => exact alone (c, i) task found wasActive
      | false =>
        obtain ⟨kill, rfl, _, opened | ⟨_, stays⟩⟩ := Task.enters taken wasActive
        · -- only a kill of the sweep is let in while the orchestrator closes
          obtain ⟨isClosing, _⟩ := closing.flag same (List.mem_of_getElem? atSame) ⟨sweeping.1, .inr sweeping.2⟩
          have mine := closing.sweep_of_item atCall atItem running ((ensureOpen_ok_iff.1 opened).2 isClosing)
          exact closing.single c d call same atCall atSame ⟨mine.1, .inr mine.2⟩ ⟨sweeping.1, .inr sweeping.2⟩
        · rw [stays] at active
          cases active
    · exact alone index worker isNow active
  · intro isClosed index worker isWorker
    have isClosed : state.shared.closed = true := continues.closed.symm.trans isClosed
    have isNow := (tasks index).symm.trans isWorker
    split at isNow
    · cases isNow
      obtain ⟨kill, rfl, _, opened | ⟨_, stays⟩⟩ := Task.enters taken (closing.released isClosed (c, i) task found)
      · rw [(ensureOpen_ok_iff.1 opened).1] at isClosed
        cases isClosed
      · exact stays
    · exact closing.released isClosed index worker isNow

theorem invoke (closing : Closing config state) {op : Op} {call : Call} {shared : Shared}
    (invoked : Orchestrator.invoke config env state.shared op = some (shared, call)) :
    Closing config ⟨shared, state.calls ++ [call]⟩ := by
  have isOp := invoke_op invoked
  -- while a call closes, and afterwards, nobody is let in
  have shut : state.shared.closing = true ∨ state.shared.closed = true → state.shared.ensureOpen false ≠ .ok () := by
    intro flags opened
    obtain ⟨notClosed, notClosing⟩ := ensureOpen_ok_iff.1 opened
    obtain isClosing | isClosed := flags
    · exact absurd (notClosing isClosing) nofun
    · exact absurd (notClosed.symm.trans isClosed) nofun
  have tasks : ∀ index worker, (State.mk shared (state.calls ++ [call])).task? index = some worker →
      Dormant call.items → worker.active = true → state.task? index = some worker := by
    intro index worker isWorker dormant active
    rw [State.task?, taskAt_append] at isWorker
    split at isWorker
    · rw [dormant worker (List.mem_of_getElem? isWorker)] at active
      cases active
    · exact isWorker
  -- a call that closes has found no other that does
  have closer : call.Closes → state.shared.closing = false ∧ state.shared.closed = false ∧
      shared.closing = true ∧ shared.closed = false ∧ call.stage ≠ .fanOut := by
    intro closes
    rw [← isOp, closes.1] at invoked
    obtain ⟨_, _, rfl⟩ | ⟨_, _, _, rfl⟩ | ⟨notClosed, notClosing, rfl, rfl⟩ := invoke_close invoked
    · exact absurd closes.2 (by rintro (impossible | impossible) <;> cases impossible)
    · exact absurd closes.2 (by rintro (impossible | impossible) <;> cases impossible)
    · exact ⟨notClosing, notClosed, rfl, notClosed, fun fansOut => by cases fansOut⟩
  have old : ∀ other ∈ state.calls, other.Closes → shared = state.shared ∧ Dormant call.items := by
    intro other member closes
    exact invoke_shut invoked (shut (.inl (closing.flag other member closes).1))
  refine ⟨?_, ?_, ?_, ?_, ?_⟩
  · intro other member
    obtain before | new := List.mem_append.1 member
    · exact closing.shaped other before
    · rw [List.mem_singleton.1 new]
      exact invoke_shaped invoked
  · intro other member closes
    obtain before | new := List.mem_append.1 member
    · rw [(old other before closes).1]
      exact closing.flag other before closes
    · rw [List.mem_singleton.1 new] at closes
      obtain ⟨_, _, isClosing, notClosed, _⟩ := closer closes
      exact ⟨isClosing, notClosed⟩
  · intro d e first second atFirst atSecond firstCloses secondCloses
    have clash : ∀ {position : Nat} {other : Call}, state.calls[position]? = some other → other.Closes → ¬ call.Closes := by
      intro position other atOther otherCloses closes
      have isClosing := (closing.flag other (List.mem_of_getElem? atOther) otherCloses).1
      rw [(closer closes).1] at isClosing
      cases isClosing
    obtain ⟨rfl, rfl⟩ | wasFirst := call_of_append atFirst
    · obtain ⟨rfl, rfl⟩ | wasSecond := call_of_append atSecond
      · rfl
      · exact absurd firstCloses (clash wasSecond secondCloses)
    · obtain ⟨rfl, rfl⟩ | wasSecond := call_of_append atSecond
      · exact absurd secondCloses (clash wasFirst firstCloses)
      · exact closing.single d e first second wasFirst wasSecond firstCloses secondCloses
  · intro d other atOther isClose isSweep index worker isWorker active
    obtain ⟨rfl, rfl⟩ | before := call_of_append atOther
    · exact absurd isSweep (closer ⟨isClose, .inr isSweep⟩).2.2.2.2
    · have dormant := (old other (List.mem_of_getElem? before) ⟨isClose, .inr isSweep⟩).2
      exact closing.alone d other before isClose isSweep index worker (tasks index worker isWorker dormant active) active
  · intro isClosed index worker isWorker
    by_contra active
    have active : worker.active = true := by simpa using active
    have wasClosed : state.shared.closed = true := by
      by_cases isClosing : op = .close
      · subst isClosing
        obtain ⟨wasClosed, _⟩ | ⟨_, _, rfl, _⟩ | ⟨_, _, rfl, _⟩ := invoke_close invoked
        · exact wasClosed
        · exact isClosed
        · exact isClosed
      · exact (invoke_continues invoked isClosing).closed.symm.trans isClosed
    have dormant := (invoke_shut invoked (shut (.inr wasClosed))).2
    rw [closing.released wasClosed index worker (tasks index worker isWorker dormant active)] at active
    cases active

/-- A later section of another call. -/
theorem other (closing : Closing config state) {c : Nat} {call moved : Call} {shared : Shared}
    (atCall : state.calls[c]? = some call) (advanced : call.advance config state.shared = some (shared, moved))
    (notClose : call.op ≠ .close)
    (tasks : ∀ index worker, (State.mk shared (state.calls.set c moved)).task? index = some worker →
      worker.active = true → state.task? index = some worker) :
    Closing config ⟨shared, state.calls.set c moved⟩ := by
  have shaped := closing.shaped call (List.mem_of_getElem? atCall)
  obtain ⟨notDraining, others⟩ := shaped.other notClose
  obtain ⟨sameClosing, sameClosed, _⟩ := advance_other advanced notClose notDraining others
  have notCloses : moved.op ≠ .close := fun isClose => notClose ((advance_op advanced).symm.trans isClose)
  have before : ∀ {d : Nat} {other : Call}, (state.calls.set c moved)[d]? = some other → other.op = .close →
      state.calls[d]? = some other := by
    intro d other atOther isClose
    obtain ⟨rfl, rfl⟩ | ⟨_, kept⟩ := call_of_set atOther
    · exact absurd isClose notCloses
    · exact kept
  refine ⟨?_, ?_, ?_, ?_, ?_⟩
  · intro other member
    obtain old | rfl := List.mem_or_eq_of_mem_set member
    · exact closing.shaped other old
    · exact advance_shaped shaped advanced
  · intro other member closes
    obtain ⟨d, atOther⟩ := List.mem_iff_getElem?.1 member
    obtain ⟨isClosing, notClosed⟩ := closing.flag other (List.mem_of_getElem? (before atOther closes.1)) closes
    exact ⟨sameClosing.trans isClosing, sameClosed.trans notClosed⟩
  · intro d e first second atFirst atSecond firstCloses secondCloses
    exact closing.single d e first second (before atFirst firstCloses.1) (before atSecond secondCloses.1)
      firstCloses secondCloses
  · intro d other atOther isClose isSweep index worker isWorker active
    exact closing.alone d other (before atOther isClose) isClose isSweep index worker
      (tasks index worker isWorker active) active
  · intro isClosed index worker isWorker
    by_contra active
    have active : worker.active = true := by simpa using active
    rw [closing.released (sameClosed.symm.trans isClosed) index worker (tasks index worker isWorker active)] at active
    cases active

/-- A later section of `close`. -/
theorem close (closing : Closing config state) {c : Nat} {call moved : Call} {shared : Shared}
    (atCall : state.calls[c]? = some call) (advanced : call.advance config state.shared = some (shared, moved))
    (isClose : call.op = .close)
    (marked : ∀ index task, state.task? index = some task → task.active = true →
      task.branchId ∈ state.shared.spawning ∨ task.branchId ∈ state.shared.killing)
    (tasks : ∀ index worker, (State.mk shared (state.calls.set c moved)).task? index = some worker →
      worker.active = true → state.task? index = some worker) :
    Closing config ⟨shared, state.calls.set c moved⟩ := by
  have member := List.mem_of_getElem? atCall
  have shaped := closing.shaped call member
  obtain ⟨ofClose, coherent, _⟩ := shaped.close isClose
  have allShaped : ∀ other ∈ state.calls.set c moved, other.Shaped config := by
    intro other isOther
    obtain old | rfl := List.mem_or_eq_of_mem_set isOther
    · exact closing.shaped other old
    · exact advance_shaped shaped advanced
  -- another call that closes would not be the only one
  have alone : call.Closes → ∀ {d : Nat} {other : Call}, d ≠ c → state.calls[d]? = some other → ¬ other.Closes :=
    fun closes d other differs atOther otherCloses => differs (closing.single d c other call atOther atCall otherCloses closes)
  cases advance_close advanced isClose ofClose with
  | sweep waited drained =>
    have closes : call.Closes := ⟨isClose, .inl waited⟩
    have nobody : ∀ index worker, state.task? index = some worker → worker.active = true → False := by
      intro index worker found active
      obtain spawning | killing := marked index worker found active
      · rw [drained.1] at spawning
        exact Finset.notMem_empty _ spawning
      · rw [drained.2] at killing
        exact Finset.notMem_empty _ killing
    refine ⟨allShaped, ?_, ?_, ?_, ?_⟩
    · exact fun _ _ _ => closing.flag call member closes
    · intro d e first second atFirst atSecond firstCloses secondCloses
      obtain ⟨rfl, _⟩ | ⟨differs, kept⟩ := call_of_set atFirst
      · obtain ⟨rfl, _⟩ | ⟨differs, kept⟩ := call_of_set atSecond
        · rfl
        · exact absurd secondCloses (alone closes differs kept)
      · exact absurd firstCloses (alone closes differs kept)
    · intro d other atOther _ _ index worker isWorker active
      exact (nobody index worker (tasks index worker isWorker active) active).elim
    · intro isClosed
      rw [(closing.flag call member closes).2] at isClosed
      cases isClosed
  | release swept ended =>
    have closes : call.Closes := ⟨isClose, .inr swept⟩
    have noCloser : ∀ other ∈ state.calls.set c (call.finish (sweepOutcome (Call.fanOutFault call.items))),
        ¬ other.Closes := by
      intro other isOther otherCloses
      obtain ⟨d, atOther⟩ := List.mem_iff_getElem?.1 isOther
      obtain ⟨rfl, rfl⟩ | ⟨differs, kept⟩ := call_of_set atOther
      · obtain impossible | impossible := otherCloses.2 <;> cases impossible
      · exact alone closes differs kept otherCloses
    unfold Call.Coherent at coherent
    simp only [swept] at coherent
    refine ⟨allShaped, ?_, ?_, ?_, ?_⟩
    · exact fun other isOther otherCloses => absurd otherCloses (noCloser other isOther)
    · exact fun d e first second atFirst _ firstCloses _ =>
        absurd firstCloses (noCloser first (List.mem_of_getElem? atFirst))
    · exact fun d other atOther isClose isSweep =>
        absurd ⟨isClose, .inr isSweep⟩ (noCloser other (List.mem_of_getElem? atOther))
    · intro _ index worker isWorker
      by_contra active
      have active : worker.active = true := by simpa using active
      -- whoever works is one of the kills of the sweep, and they have ended
      have found := tasks index worker isWorker active
      have here := closing.alone c call atCall isClose swept index worker found active
      obtain ⟨c, i⟩ := index
      simp only at here
      subst here
      rw [State.task?, taskAt_of_call atCall] at found
      rw [Call.inactive_of_ended coherent.1 coherent.2 ended worker (List.mem_of_getElem? found)] at active
      cases active
  | follow waited released =>
    have before : ∀ {d : Nat} {other : Call}, (state.calls.set c (call.finish (.ok .none)))[d]? = some other →
        (other.stage = .draining ∨ other.stage = .fanOut) → state.calls[d]? = some other := by
      intro d other atOther stage
      obtain ⟨rfl, rfl⟩ | ⟨_, kept⟩ := call_of_set atOther
      · obtain impossible | impossible := stage <;> cases impossible
      · exact kept
    refine ⟨allShaped, ?_, ?_, ?_, ?_⟩
    · intro other isOther closes
      obtain ⟨d, atOther⟩ := List.mem_iff_getElem?.1 isOther
      exact closing.flag other (List.mem_of_getElem? (before atOther closes.2)) closes
    · intro d e first second atFirst atSecond firstCloses secondCloses
      exact closing.single d e first second (before atFirst firstCloses.2) (before atSecond secondCloses.2)
        firstCloses secondCloses
    · intro d other atOther isClose isSweep index worker isWorker active
      exact closing.alone d other (before atOther (.inr isSweep)) isClose isSweep index worker
        (tasks index worker isWorker active) active
    · intro isClosed index worker isWorker
      by_contra active
      have active : worker.active = true := by simpa using active
      rw [closing.released isClosed index worker (tasks index worker isWorker active)] at active
      cases active

theorem step (closing : Closing config state)
    (marked : ∀ index task, state.task? index = some task → task.active = true →
      task.branchId ∈ state.shared.spawning ∨ task.branchId ∈ state.shared.killing)
    (taken : state.Step config action next) : Closing config next := by
  cases State.Step.move taken with
  | item atCall atItem running allowed stepped => exact closing.item atCall atItem running allowed stepped
  | journal _ _ _ _ invoked => exact closing.invoke invoked
  | invoke _ _ invoked => exact closing.invoke invoked
  | @advance c shared call moved more atCall _ dormant items advanced =>
    have tasks : ∀ index worker, (State.mk shared (state.calls.set c moved)).task? index = some worker →
        worker.active = true → state.task? index = some worker := by
      intro index worker isWorker active
      rw [State.task?, taskAt_set atCall] at isWorker
      split at isWorker
      · next here =>
        obtain ⟨c, i⟩ := index
        simp only at here isWorker
        subst here
        rw [items, List.getElem?_append] at isWorker
        split at isWorker
        · exact (taskAt_of_call atCall i).trans isWorker
        · rw [dormant worker (List.mem_of_getElem? isWorker)] at active
          cases active
      · exact isWorker
    by_cases isClose : call.op = .close
    · exact closing.close atCall advanced isClose marked tasks
    · exact closing.other atCall advanced isClose tasks

end Closing

theorem closing_boot (shared : Shared) : Closing config (State.fresh shared) := by
  constructor
  · exact fun call member => absurd member List.not_mem_nil
  · exact fun call member => absurd member List.not_mem_nil
  · intro c d first second atFirst
    cases atFirst
  · intro c call atCall
    cases atCall
  · intro _ index task found
    cases found

theorem closing_of_reachable {world : World} {shared : Shared} (booted : Shared.boot config world = .ok shared)
    (reached : Reachable (State.Step config) always (State.fresh shared) state)
    (once : state.shared.started.Nodup) : Closing config state := by
  induction reached with
  | refl => exact closing_boot shared
  | @tail before after action reachedBefore allowed taken inductionHypothesis =>
    obtain ⟨more, history, _⟩ := State.Step.history taken
    have onceBefore : before.shared.started.Nodup := by
      rw [history, List.nodup_append] at once
      exact once.1
    have disciplined := disciplined_of_once booted reachedBefore onceBefore
    refine (inductionHypothesis onceBefore).step (fun index task found active => ?_) taken
    exact (disciplined.marked found active).imp_right And.left

end Agentfork.Orchestrator

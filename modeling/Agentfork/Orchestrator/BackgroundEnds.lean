import Mathlib.Algebra.Order.BigOperators.Group.List
import Agentfork.Orchestrator.Background
import Agentfork.Orchestrator.Handover

/-! # Whoever stops the reaper sees it end

At most one loop goes on at a time, a `stop_reaper` or `close` returns only when the
loop it has taken is over, and no loop outlives the orchestrator for more than the
pass it is in. -/

namespace Agentfork.Orchestrator

open Shared Transition

variable {config : Config} {hooks : Hooks} {env : Env} {turn : Turn} {state next : Supervised} {loop : Loop}
  {phase : LoopPhase} {stop : Stop} {deed : Deed}

/-! ## What stays -/

/-- A call that has ended stays ended as it was, and a closed orchestrator stays closed. -/
structure State.Later (before after : State) : Prop where
  ended : ∀ (c : Nat) call, before.calls[c]? = some call → call.isOver = true → after.calls[c]? = some call
  closed : before.shared.closed = true → after.shared.closed = true

theorem State.Later.refl (state : State) : state.Later state := ⟨fun _ _ atCall _ => atCall, id⟩

theorem State.Later.trans {first second third : State} (before : first.Later second) (after : second.Later third) :
    first.Later third :=
  ⟨fun c call atCall isOver => after.ended c call (before.ended c call atCall isOver) isOver,
    fun isClosed => after.closed (before.closed isClosed)⟩

theorem State.Later.set {before : State} {c : Nat} {call moved : Call} {shared : Shared} (atCall : before.calls[c]? = some call)
    (running : call.isOver = false) (closed : before.shared.closed = true → shared.closed = true) :
    before.Later ⟨shared, before.calls.set c moved⟩ := by
  refine ⟨fun d other atOther isOver => ?_, closed⟩
  have elsewhere : c ≠ d := by
    rintro rfl
    cases atCall.symm.trans atOther
    cases running.symm.trans isOver
  exact (List.getElem?_set_ne elsewhere).trans atOther

theorem State.Later.append {before : State} {call : Call} {shared : Shared}
    (closed : before.shared.closed = true → shared.closed = true) : before.Later ⟨shared, before.calls ++ [call]⟩ :=
  ⟨fun _ _ atCall _ => (List.getElem?_append_left (List.getElem?_eq_some_iff.1 atCall).1).trans atCall, closed⟩

theorem State.Step.later {before after : State} {action : Action} (taken : before.Step config action after) :
    before.Later after := by
  have invoked : ∀ {op : Op} {env : Env} {shared : Shared} {call : Call},
      invoke config env before.shared op = some (shared, call) → before.shared.closed = true → shared.closed = true := by
    intro op env shared call invoked isClosed
    have shut : before.shared.ensureOpen false ≠ .ok () := by
      intro opened
      cases (ensureOpen_ok_iff.1 opened).1.symm.trans isClosed
    rw [(invoke_shut invoked shut).1]
    exact isClosed
  cases State.Step.move taken with
  | item atCall _ running _ stepped =>
    exact .set atCall running fun isClosed => (Task.step_continues stepped).closed.trans isClosed
  | journal _ _ _ _ admitted => exact .append (invoked admitted)
  | invoke _ _ admitted => exact .append (invoked admitted)
  | @advance c shared call moved more atCall _ _ _ advanced =>
    have running : call.isOver = false := by
      unfold Call.isOver
      split
      · next atStage => simp [Call.advance, atStage] at advanced
      · rfl
    exact .set atCall running (advance_closed advanced)

theorem State.Later.outcome {before after : State} (later : before.Later after) {c : Nat} {outcome : Except Fault Value}
    (isOver : (before.calls[c]?).bind Call.outcome? = some outcome) : (after.calls[c]?).bind Call.outcome? = some outcome := by
  obtain ⟨call, atCall, ended⟩ := Option.bind_eq_some_iff.1 isOver
  have callOver : call.isOver = true := by
    unfold Call.outcome? at ended
    split at ended
    · next outcome atStage => simp only [Call.isOver, atStage]
    · cases ended
  rw [later.ended c call atCall callOver]
  exact ended

theorem Supervised.later_of_call {op : Op} (called : state.call config env op = some next) :
    state.orchestrator.Later next.orchestrator := (Supervised.of_call called).2.later

theorem LoopMove.later (move : LoopMove config hooks state loop next phase) : state.orchestrator.Later next.orchestrator := by
  cases move with
  | reconciles _ called | collects _ called => exact Supervised.later_of_call called
  | stops | wakes | reconciled | sweeps | done | offers | givesUp | interrupted | raised | collected => exact .refl _
  | restarts => exact ⟨fun _ _ atCall _ => atCall, id⟩

theorem Supervised.Step.later (taken : state.Step config hooks deed next) : state.orchestrator.Later next.orchestrator := by
  cases taken.move with
  | orchestrator _ stepped => exact stepped.later
  | refused | starts | stopReaper => exact .refl _
  | loop _ move => exact move.later
  | stop _ move =>
    cases move with
    | closes _ called =>
      have later := Supervised.later_of_call called
      exact later
    | joins | returns => exact .refl _

/-! ## After the close -/

/-- The loop is between two passes, or in one that has not begun to look at branches
and will not. -/
def LoopPhase.Idle (state : Supervised) : LoopPhase → Prop
  | .waiting | .due | .ended => True
  | .reconciling c => ∃ message, state.outcome? c = some (.error (.runtimeError message))
  | _ => False

/-- A call of `reconcile` is turned away once the orchestrator is closed. -/
theorem Supervised.call_closed (called : state.call config env .reconcile = some next)
    (isClosed : state.orchestrator.shared.closed = true) :
    next.outcome? state.orchestrator.calls.length = some (.error (.runtimeError "orchestrator is closed")) := by
  obtain ⟨after, taken, rfl⟩ := Option.map_eq_some_iff.1 called
  obtain ⟨⟨shared, call⟩, invoked, rfl⟩ := Option.map_eq_some_iff.1 taken
  have refused : state.orchestrator.shared.ensureOpen false = .error (.runtimeError "orchestrator is closed") := by
    unfold ensureOpen
    rw [if_pos isClosed]
  unfold invoke at invoked
  rw [refused] at invoked
  cases invoked
  unfold outcome?
  rw [List.getElem?_concat_length]
  rfl

theorem LoopPhase.Idle.later (idle : phase.Idle state) (later : state.orchestrator.Later next.orchestrator) : phase.Idle next := by
  cases phase with
  | waiting | due | ended => trivial
  | reconciling c =>
    obtain ⟨message, refused⟩ := idle
    exact ⟨message, later.outcome refused⟩
  | sweeping | visiting | restarting | dead | collecting => exact idle.elim

/-- In a closed orchestrator an idle loop stays idle. -/
theorem LoopMove.idle (move : LoopMove config hooks state loop next phase) (idle : loop.phase.Idle state)
    (isClosed : state.orchestrator.shared.closed = true) : phase.Idle next := by
  cases move with
  | stops | wakes | interrupted => trivial
  | reconciles _ called => exact ⟨_, Supervised.call_closed called isClosed⟩
  | reconciled atPhase isOver =>
    rw [atPhase] at idle
    obtain ⟨message, refused⟩ := idle
    cases isOver.symm.trans refused
  | sweeps atPhase | done atPhase | offers atPhase | restarts atPhase | collects atPhase | collected atPhase =>
    rw [atPhase] at idle
    exact idle.elim
  | givesUp atPhase =>
    obtain atPhase | atPhase := atPhase
    all_goals
      rw [atPhase] at idle
      exact idle.elim
  | @raised fault =>
    cases fault with
    | runtimeError => simp [afterFault, isClosed, LoopPhase.Idle]
    | valueError | keyError | exception | baseException => trivial

/-- Loop `i` is idle. -/
def Supervised.IdleAt (state : Supervised) (i : Nat) : Prop := ∀ loop, state.loops[i]? = some loop → loop.phase.Idle state

theorem Supervised.Step.idle (taken : state.Step config hooks deed next) (isClosed : state.orchestrator.shared.closed = true) :
    next.loops.length = state.loops.length ∧ ∀ i, state.IdleAt i → next.IdleAt i := by
  have later := taken.later
  have same : next.loops = state.loops →
      next.loops.length = state.loops.length ∧ ∀ i, state.IdleAt i → next.IdleAt i := by
    intro same
    unfold IdleAt
    rw [same]
    exact ⟨rfl, fun i idle loop atLoop => (idle loop atLoop).later later⟩
  cases taken.move with
  | orchestrator | refused => exact same rfl
  | starts isOpen => cases (ensureOpen_ok_iff.1 isOpen).1.symm.trans isClosed
  | stop _ move => exact same move.sameThreads.loops
  | @stopReaper closes =>
    refine ⟨?_, fun i idle loop atLoop => ?_⟩
    · unfold Supervised.stopReaper
      cases state.reaperStop <;> simp
    · unfold Supervised.stopReaper at atLoop
      cases event : state.reaperStop with
      | none =>
        simp only [event] at atLoop
        exact (idle loop atLoop).later later
      | some j =>
        simp only [event, List.getElem?_modify] at atLoop
        obtain ⟨before, atBefore, rfl⟩ := Option.map_eq_some_iff.1 atLoop
        have stays := (idle before atBefore).later later
        split <;> exact stays
  | @loop j turn moved after phase atLoop move =>
    have loops := move.sameThreads.loops
    refine ⟨?_, fun i idle other atOther => ?_⟩
    · rw [List.length_set, loops]
    · rw [loops] at atOther
      obtain ⟨rfl, rfl⟩ | ⟨_, kept⟩ := of_getElem?_set atOther
      · exact move.idle (idle moved atLoop) isClosed
      · exact (idle other kept).later later

/-! ## The orchestrator under the loops -/

/-- Without the restarts that a loop may ask for, the loops are callers like others. -/
structure Asked (hooks : Hooks) (state : Supervised) : Prop where
  asked : ∀ (i : Nat) loop, state.loops[i]? = some loop → ∀ branchId pending, loop.phase = .restarting branchId pending →
    hooks.restarts = true ∧ loop.restartDead = true

theorem Asked.step (asked : Asked hooks state) (taken : state.Step config hooks deed next) : Asked hooks next := by
  cases taken.move with
  | orchestrator | refused => exact ⟨asked.asked⟩
  | starts =>
    refine ⟨fun i loop atLoop branchId pending atPhase => ?_⟩
    obtain ⟨_, rfl⟩ | before := of_getElem?_concat atLoop
    · cases atPhase
    · exact asked.asked i loop before branchId pending atPhase
  | @stopReaper closes =>
    refine ⟨fun i loop atLoop branchId pending atPhase => ?_⟩
    unfold Supervised.stopReaper at atLoop
    cases event : state.reaperStop with
    | none =>
      simp only [event] at atLoop
      exact asked.asked i loop atLoop branchId pending atPhase
    | some j =>
      simp only [event, List.getElem?_modify] at atLoop
      obtain ⟨before, atBefore, rfl⟩ := Option.map_eq_some_iff.1 atLoop
      have same := asked.asked i before atBefore branchId pending
      split at atPhase <;> split <;> exact same atPhase
  | @loop j turn moved after phase atLoop move =>
    refine ⟨fun i other atOther branchId pending atPhase => ?_⟩
    simp only [move.sameThreads.loops] at atOther
    obtain ⟨rfl, rfl⟩ | ⟨_, kept⟩ := of_getElem?_set atOther
    · cases move with
      | offers _ restarts wanted => exact ⟨restarts, wanted⟩
      | restarts atRestart => exact asked.asked _ moved atLoop _ _ atRestart
      | reconciled _ _ isNext =>
        obtain rfl | rfl := isNext
        all_goals cases atPhase
      | @raised fault =>
        simp only [afterFault] at atPhase
        split at atPhase
        · split at atPhase <;> cases atPhase
        all_goals cases atPhase
      | stops | wakes | reconciles | sweeps | done | givesUp | interrupted | collects | collected => cases atPhase
    · exact asked.asked i other kept branchId pending atPhase
  | stop _ move =>
    refine ⟨fun i loop atLoop => ?_⟩
    simp only [move.sameThreads.loops] at atLoop
    exact asked.asked i loop atLoop

/-- No loop restarts branches. -/
def Supervised.Collects (hooks : Hooks) (state : Supervised) : Prop :=
  ∀ loop ∈ state.loops, hooks.restarts = true → loop.restartDead = false

theorem Supervised.Step.collects (taken : state.Step config hooks deed next) (collects : next.Collects hooks) :
    state.Collects hooks := by
  intro loop isLoop restarts
  obtain ⟨i, atLoop⟩ := List.mem_iff_getElem?.1 isLoop
  have inside := (List.getElem?_eq_some_iff.1 atLoop).1
  have kept : ∃ after, next.loops[i]? = some after ∧ after.restartDead = loop.restartDead := by
    cases taken.move with
    | orchestrator | refused => exact ⟨loop, atLoop, rfl⟩
    | starts => exact ⟨loop, (List.getElem?_append_left inside).trans atLoop, rfl⟩
    | @stopReaper closes =>
      unfold Supervised.stopReaper
      cases event : state.reaperStop with
      | none => exact ⟨loop, atLoop, rfl⟩
      | some j =>
        refine ⟨_, (List.getElem?_modify ..).trans (by rw [atLoop]; rfl), ?_⟩
        split <;> rfl
    | @loop j turn moved after phase atMoved move =>
      rw [move.sameThreads.loops]
      by_cases here : j = i
      · subst here
        cases atLoop.symm.trans atMoved
        exact ⟨_, List.getElem?_set_self inside, rfl⟩
      · exact ⟨loop, (List.getElem?_set_ne here).trans atLoop, rfl⟩
    | stop _ move => exact ⟨loop, (congrArg (·[i]?) move.sameThreads.loops).trans atLoop, rfl⟩
  obtain ⟨after, atAfter, same⟩ := kept
  exact same ▸ collects after (List.mem_of_getElem? atAfter) restarts

theorem Supervised.Step.orchestrator (asked : Asked hooks state) (collects : state.Collects hooks)
    (taken : state.Step config hooks deed next) :
    Reachable (State.Step config) always state.orchestrator next.orchestrator := by
  have called : ∀ {op : Op} {env : Env} {next : Supervised}, state.call config env op = some next →
      Reachable (State.Step config) always state.orchestrator next.orchestrator :=
    fun called => .tail .refl trivial (Supervised.of_call called).2
  cases taken.move with
  | orchestrator _ stepped => exact .tail .refl trivial stepped
  | refused | starts | stopReaper => exact .refl
  | @loop _ _ moved _ _ atLoop move =>
    cases move with
    | reconciles _ isCall | collects _ isCall =>
      have reached := called isCall
      exact reached
    | restarts atRestart =>
      obtain ⟨restarts, wanted⟩ := asked.asked _ moved atLoop _ _ atRestart
      cases (collects moved (List.mem_of_getElem? atLoop) restarts).symm.trans wanted
    | stops | wakes | reconciled | sweeps | done | offers | givesUp | interrupted | collected | raised => exact .refl
  | stop _ move =>
    cases move with
    | closes _ isCall =>
      have reached := called isCall
      exact reached
    | joins | returns => exact .refl

theorem Supervised.orchestrator_reachable {shared : Shared}
    (reached : Reachable (Supervised.Step config hooks) always (Supervised.fresh shared) state)
    (collects : state.Collects hooks) : Reachable (State.Step config) always (State.fresh shared) state.orchestrator := by
  have fresh : Asked hooks (Supervised.fresh shared) := ⟨fun _ _ atLoop => by cases atLoop⟩
  induction reached with
  | refl => exact .refl
  | tail before _ taken inductionHypothesis =>
    have asked := before.invariant fresh fun _ _ _ asked _ taken => asked.step taken
    have earlier := taken.collects collects
    exact (inductionHypothesis earlier).trans (taken.orchestrator asked earlier)

/-! ## Whom nobody waits for in vain -/

/-- No `BaseException` meets a child of a loop that is not the last one. -/
def Supervised.Uninterrupted (config : Config) (state : Supervised) : Deed → Prop
  | .orchestrator action => state.orchestrator.Uninterrupted config action
  | _ => True

/-- Nobody calls any more, and the sandbox answers the loops. -/
def Supervised.WindsDown (state : Supervised) : Deed → Prop
  | .orchestrator action => state.orchestrator.WindsDown action
  | .startReaper _ _ | .stopReaper _ => False
  | .loop _ turn => turn.env.reply = .returned ∧ ∃ branchIds, turn.swept = .ok branchIds
  | .stop _ _ => True

/-- The calls that a loop or a `close` is in there are. -/
structure Placed (state : Supervised) : Prop where
  loops : ∀ loop ∈ state.loops, ∀ c, loop.phase = .reconciling c ∨ (∃ pending, loop.phase = .collecting c pending) →
    c < state.orchestrator.calls.length
  stops : ∀ stop ∈ state.stops, ∀ c, stop.phase = .closing c → c < state.orchestrator.calls.length

theorem Supervised.call_length {op : Op} (called : state.call config env op = some next) :
    next.orchestrator.calls.length = state.orchestrator.calls.length + 1 := by
  obtain ⟨after, taken, rfl⟩ := Option.map_eq_some_iff.1 called
  obtain ⟨⟨shared, call⟩, _, rfl⟩ := Option.map_eq_some_iff.1 taken
  simp

theorem State.Step.length_le {before after : State} {action : Action} (taken : before.Step config action after) :
    before.calls.length ≤ after.calls.length := by
  cases State.Step.move taken with
  | item | advance => simp
  | journal | invoke => simp

theorem Placed.longer (placed : Placed state) (same : SameThreads state next)
    (longer : state.orchestrator.calls.length ≤ next.orchestrator.calls.length) : Placed next where
  loops loop isLoop c inCall := by
    rw [same.loops] at isLoop
    exact (placed.loops loop isLoop c inCall).trans_le longer
  stops stop isStop c inCall := by
    rw [same.stops] at isStop
    exact (placed.stops stop isStop c inCall).trans_le longer

theorem LoopMove.longer (move : LoopMove config hooks state loop next phase) :
    state.orchestrator.calls.length ≤ next.orchestrator.calls.length := by
  cases move with
  | reconciles _ called | collects _ called => exact (Supervised.call_length called).ge.trans' (Nat.le_succ _)
  | stops | wakes | reconciled | sweeps | done | offers | givesUp | restarts | interrupted | collected | raised => exact le_rfl

theorem LoopMove.placed (move : LoopMove config hooks state loop next phase) {c : Nat}
    (inCall : phase = .reconciling c ∨ ∃ pending, phase = .collecting c pending) : c < next.orchestrator.calls.length := by
  cases move with
  | reconciles _ called | collects _ called =>
    rw [Supervised.call_length called]
    obtain same | ⟨_, same⟩ := inCall <;> cases same
    exact Nat.lt_succ_self _
  | reconciled _ _ isNext =>
    obtain rfl | rfl := isNext
    all_goals obtain same | ⟨_, same⟩ := inCall <;> cases same
  | restarts _ isNext =>
    obtain rfl | rfl | rfl | rfl := isNext
    all_goals obtain same | ⟨_, same⟩ := inCall <;> cases same
  | @raised fault =>
    simp only [afterFault] at inCall
    split at inCall
    · split at inCall
      all_goals obtain same | ⟨_, same⟩ := inCall <;> cases same
    all_goals obtain same | ⟨_, same⟩ := inCall <;> cases same
  | stops | wakes | sweeps | done | offers | givesUp | interrupted | collected =>
    obtain same | ⟨_, same⟩ := inCall <;> cases same

theorem StopMove.longer {phase : StopPhase} (move : StopMove config state stop next phase) :
    state.orchestrator.calls.length ≤ next.orchestrator.calls.length := by
  cases move with
  | closes _ called => exact (Supervised.call_length called).ge.trans' (Nat.le_succ _)
  | joins | returns => exact le_rfl

theorem Placed.step (placed : Placed state) (taken : state.Step config hooks deed next) : Placed next := by
  cases taken.move with
  | orchestrator _ stepped => exact placed.longer ⟨rfl, rfl, rfl, rfl⟩ stepped.length_le
  | refused => exact placed
  | starts =>
    refine ⟨fun loop isLoop c inCall => ?_, placed.stops⟩
    obtain old | new := List.mem_append.1 isLoop
    · exact placed.loops loop old c inCall
    · cases List.mem_singleton.1 new
      obtain same | ⟨_, same⟩ := inCall <;> cases same
  | @stopReaper closes =>
    refine ⟨fun loop isLoop c inCall => ?_, fun stop isStop c inCall => ?_⟩
    · unfold Supervised.stopReaper at isLoop
      cases event : state.reaperStop with
      | none =>
        simp only [event] at isLoop
        exact placed.loops loop isLoop c inCall
      | some j =>
        obtain ⟨i, atLoop⟩ := List.mem_iff_getElem?.1 isLoop
        simp only [event, List.getElem?_modify] at atLoop
        obtain ⟨before, atBefore, rfl⟩ := Option.map_eq_some_iff.1 atLoop
        have same := placed.loops before (List.mem_of_getElem? atBefore) c
        split at inCall <;> exact same inCall
    · obtain old | new := List.mem_append.1 isStop
      · exact placed.stops stop old c inCall
      · cases List.mem_singleton.1 new
        cases inCall
  | loop atLoop move =>
    have after := placed.longer move.sameThreads move.longer
    refine ⟨fun other isLoop c inCall => ?_, after.stops⟩
    obtain old | rfl := List.mem_or_eq_of_mem_set isLoop
    · exact after.loops other old c inCall
    · exact move.placed inCall
  | stop atStop move =>
    have after := placed.longer move.sameThreads move.longer
    refine ⟨after.loops, fun other isStop c inCall => ?_⟩
    obtain old | rfl := List.mem_or_eq_of_mem_set isStop
    · exact after.stops other old c inCall
    · cases move with
      | joins _ _ isNext =>
        have same : _ = StopPhase.closing c := isNext.symm.trans inCall
        split at same <;> cases same
      | closes _ called =>
        cases inCall
        rw [Supervised.call_length called]
        exact Nat.lt_succ_self _
      | returns => cases inCall

/-- A sandbox that comes up again hinders nobody. -/
theorem Unhindered.holdSandbox {branchId : BranchId} (unhindered : Unhindered config state.orchestrator) :
    Unhindered config (state.holdSandbox branchId).orchestrator :=
  ⟨⟨⟨unhindered.draining.marked.spawning, unhindered.draining.marked.killing⟩, unhindered.draining.coherent⟩,
    unhindered.steady, unhindered.shaped, unhindered.closer, unhindered.follows, unhindered.closed⟩

theorem Unhindered.call {op : Op} (unhindered : Unhindered config state.orchestrator)
    (called : state.call config env op = some next) : Unhindered config next.orchestrator := by
  have uninterrupted : state.orchestrator.Uninterrupted config (.invoke op env) := rfl
  exact unhindered.step uninterrupted (Supervised.of_call called).2

theorem Supervised.Step.unhindered (unhindered : Unhindered config state.orchestrator)
    (uninterrupted : state.Uninterrupted config deed) (taken : state.Step config hooks deed next) :
    Unhindered config next.orchestrator := by
  cases taken.move with
  | orchestrator _ stepped => exact unhindered.step uninterrupted stepped
  | refused | starts | stopReaper => exact unhindered
  | loop _ move =>
    cases move with
    | reconciles _ called | collects _ called =>
      have after := unhindered.call called
      exact after
    | restarts => exact unhindered.holdSandbox
    | stops | wakes | reconciled | sweeps | done | offers | givesUp | interrupted | collected | raised => exact unhindered
  | stop _ move =>
    cases move with
    | closes _ called =>
      have after := unhindered.call called
      exact after
    | joins | returns => exact unhindered

/-! ## What is left to do -/

/-- The call has ended with a `RuntimeError`. -/
def Supervised.refused (state : Supervised) (c : Nat) : Bool :=
  match state.outcome? c with
  | some (.error (.runtimeError _)) => true
  | _ => false

/-- The steps up to the end of a loop that has been told to stop, or whose
orchestrator is closed, when `sweep_dead` finds nobody. -/
def LoopPhase.left (state : Supervised) : LoopPhase → Nat
  | .ended => 0
  | .waiting => 3
  | .due => if state.orchestrator.shared.closed then 2 else 7
  | .reconciling c => if state.orchestrator.shared.closed && state.refused c then 1 else 6
  | .sweeping => 5
  | .visiting pending => 4 + 4 * pending.length
  | .collecting _ pending => 5 + 4 * pending.length
  | .dead _ pending => 6 + 4 * pending.length
  | .restarting _ pending => 7 + 4 * pending.length

def StopPhase.left : StopPhase → Nat
  | .joining => 3
  | .joined => 2
  | .closing _ => 1
  | .returned => 0

def Supervised.left (state : Supervised) : Nat :=
  (state.loops.map fun loop => loop.phase.left state).sum + (state.stops.map fun stop => stop.phase.left).sum

theorem Supervised.refused_later (later : state.orchestrator.Later next.orchestrator) {c : Nat} (turnedAway : state.refused c = true) :
    next.refused c = true := by
  unfold refused at turnedAway ⊢
  cases isOver : state.outcome? c with
  | none => simp [isOver] at turnedAway
  | some outcome =>
    have after : next.outcome? c = some outcome := later.outcome isOver
    rw [isOver] at turnedAway
    rw [after]
    exact turnedAway

theorem LoopPhase.left_later (later : state.orchestrator.Later next.orchestrator) (phase : LoopPhase) :
    phase.left next ≤ phase.left state := by
  cases phase with
  | ended | waiting | sweeping | visiting | collecting | dead | restarting => exact le_rfl
  | due =>
    cases isClosed : state.orchestrator.shared.closed with
    | false =>
      simp only [left, isClosed]
      split <;> decide
    | true => simp [left, isClosed, later.closed isClosed]
  | reconciling c =>
    simp only [left]
    split
    · split
      · exact le_rfl
      · decide
    · next notAfter =>
      rw [if_neg]
      intro before
      rw [Bool.and_eq_true] at before
      exact notAfter (by rw [later.closed before.1, Supervised.refused_later later before.2]; rfl)

theorem Supervised.left_le (later : state.orchestrator.Later next.orchestrator) (loops : next.loops = state.loops)
    (stops : next.stops = state.stops) : next.left ≤ state.left := by
  unfold left
  rw [loops, stops]
  exact Nat.add_le_add_right (List.sum_le_sum fun loop _ => LoopPhase.left_later later loop.phase) _

theorem afterFault_left (state : Supervised) (closed : Bool) (fault : Fault) : (afterFault closed fault).left state ≤ 3 := by
  cases fault with
  | runtimeError =>
    simp only [afterFault]
    split <;> simp [LoopPhase.left]
  | valueError | keyError | exception | baseException => simp [afterFault, LoopPhase.left]

/-- A call that is over has an outcome. -/
theorem Supervised.exists_outcome (ended : ∀ call ∈ state.orchestrator.calls, call.isOver = true) {c : Nat}
    (placed : c < state.orchestrator.calls.length) : ∃ outcome, state.outcome? c = some outcome := by
  have atCall := List.getElem?_eq_getElem placed
  have isOver := ended _ (List.getElem_mem placed)
  unfold outcome?
  rw [atCall, Option.bind_some]
  unfold Call.isOver at isOver
  split at isOver
  · next outcome atStage =>
    refine ⟨outcome, ?_⟩
    simp only [Call.outcome?, atStage]
  · cases isOver

/-- The surroundings that answer a loop, with the order in which the loaded ids are gone through. -/
noncomputable def answering (state : Supervised) : Turn :=
  ⟨⟨.returned, none, 0, 0, state.orchestrator.shared.loaded.toList⟩, .ok [], true⟩

theorem Supervised.exists_reconcile (config : Config) (state : Supervised) :
    ∃ next, state.call config (answering state).env .reconcile = some next := by
  unfold call State.step invoke
  cases state.orchestrator.shared.ensureOpen false with
  | error fault => exact ⟨_, rfl⟩
  | ok =>
    have isOrder : (answering state).env.order.Nodup ∧
        (answering state).env.order.toFinset = state.orchestrator.shared.loaded :=
      ⟨Finset.nodup_toList _, Finset.toList_toFinset _⟩
    simp only [if_pos isOrder]
    exact ⟨_, rfl⟩

/-- A loop that is to end goes on to its end when no call of its own is under way. -/
theorem Loop.exists_step (ended : ∀ call ∈ state.orchestrator.calls, call.isOver = true) (placed : Placed state)
    (isLoop : loop ∈ state.loops) (running : loop.phase ≠ .ended)
    (isLast : loop.stopped = true ∨ state.orchestrator.shared.closed = true) :
    ∃ next phase, loop.step config hooks (answering state) state = some (next, phase) ∧
      phase.left next < loop.phase.left state := by
  cases atPhase : loop.phase with
  | ended => exact absurd atPhase running
  | waiting =>
    refine ⟨state, if loop.stopped then .ended else .due, by simp [Loop.step, atPhase], ?_⟩
    split
    · simp [LoopPhase.left]
    · next notTold =>
      obtain told | isClosed := isLast
      · exact absurd told notTold
      · simp [LoopPhase.left, isClosed]
  | due =>
    obtain ⟨next, called⟩ := state.exists_reconcile config
    refine ⟨next, .reconciling state.orchestrator.calls.length, by simp [Loop.step, atPhase, called], ?_⟩
    cases isClosed : state.orchestrator.shared.closed with
    | false =>
      simp only [LoopPhase.left, isClosed]
      split <;> decide
    | true =>
      have refused : next.refused state.orchestrator.calls.length = true := by
        unfold Supervised.refused
        rw [Supervised.call_closed called isClosed]
      have stays := (Supervised.later_of_call called).closed isClosed
      simp [LoopPhase.left, isClosed, refused, stays]
  | reconciling c =>
    obtain ⟨outcome, isOver⟩ := Supervised.exists_outcome ended (placed.loops loop isLoop c (.inl atPhase))
    cases outcome with
    | ok value =>
      refine ⟨state, if hooks.sweeps then .sweeping else .waiting, by simp [Loop.step, atPhase, isOver], ?_⟩
      have goesOn : state.refused c = false := by simp [Supervised.refused, isOver]
      split <;> simp [LoopPhase.left, goesOn]
    | error fault =>
      refine ⟨state, afterFault state.orchestrator.shared.closed fault, by simp [Loop.step, atPhase, isOver], ?_⟩
      have small := afterFault_left state state.orchestrator.shared.closed fault
      cases fault with
      | runtimeError =>
        cases isClosed : state.orchestrator.shared.closed <;>
          simp [LoopPhase.left, isClosed, Supervised.refused, isOver, afterFault]
      | valueError | keyError | exception | baseException =>
        simp [LoopPhase.left, Supervised.refused, isOver, afterFault]
  | sweeping => exact ⟨state, .visiting [], by simp [Loop.step, atPhase, answering], by simp [LoopPhase.left]⟩
  | visiting pending =>
    cases pending with
    | nil => exact ⟨state, .waiting, by simp [Loop.step, atPhase], by simp [LoopPhase.left]⟩
    | cons branchId pending =>
      by_cases offered : (hooks.restarts && loop.restartDead && state.live branchId) = true
      · refine ⟨state, .restarting branchId pending, ?_, ?_⟩
        · unfold Loop.step
          simp only [atPhase, if_pos offered]
        · simp only [LoopPhase.left, List.length_cons]
          omega
      · refine ⟨state, .dead branchId pending, ?_, ?_⟩
        · unfold Loop.step
          simp only [atPhase, if_neg offered]
        · simp only [LoopPhase.left, List.length_cons]
          omega
  | restarting branchId pending =>
    refine ⟨{ state.holdSandbox branchId with restarted := state.restarted + 1 }, .visiting pending,
      by simp [Loop.step, atPhase, answering], ?_⟩
    simp only [LoopPhase.left]
    omega
  | dead branchId pending =>
    obtain ⟨next, called⟩ : ∃ next, state.call config (answering state).env (.kill branchId) = some next := ⟨_, rfl⟩
    refine ⟨next, .collecting state.orchestrator.calls.length pending, by simp [Loop.step, atPhase, called], ?_⟩
    simp only [LoopPhase.left]
    omega
  | collecting c pending =>
    obtain ⟨outcome, isOver⟩ := Supervised.exists_outcome ended (placed.loops loop isLoop c (.inr ⟨pending, atPhase⟩))
    cases outcome with
    | ok value =>
      refine ⟨{ state with sweptDead := state.sweptDead + if value.reaped then 1 else 0 }, .visiting pending,
        by simp only [Loop.step, atPhase, isOver, Option.map_some], ?_⟩
      simp only [LoopPhase.left]
      omega
    | error fault =>
      refine ⟨state, afterFault state.orchestrator.shared.closed fault, by simp [Loop.step, atPhase, isOver], ?_⟩
      have small := afterFault_left state state.orchestrator.shared.closed fault
      have : LoopPhase.left state (.collecting c pending) = 5 + 4 * pending.length := rfl
      omega

/-- One item is replaced by a lighter one, and no other gains weight. -/
theorem sum_set_lt {α : Type} {items : List α} {i : Nat} {old : α} (atItem : items[i]? = some old) (new : α) {before after : α → Nat}
    (others : ∀ item, after item ≤ before item) (lighter : after new < before old) :
    ((items.set i new).map after).sum < (items.map before).sum := by
  induction items generalizing i with
  | nil => cases atItem
  | cons item items inductionHypothesis =>
    have rest : (items.map after).sum ≤ (items.map before).sum := List.sum_le_sum fun item _ => others item
    cases i with
    | zero =>
      cases atItem
      simp only [List.set_cons_zero, List.map_cons, List.sum_cons]
      omega
    | succ i =>
      have later := inductionHypothesis atItem
      have first := others item
      simp only [List.set_cons_succ, List.map_cons, List.sum_cons]
      omega

theorem Supervised.left_loop {i : Nat} (atLoop : state.loops[i]? = some loop) (same : SameThreads state next)
    (later : state.orchestrator.Later next.orchestrator) (nearer : phase.left next < loop.phase.left state) :
    left { next with loops := next.loops.set i { loop with phase := phase } } < state.left := by
  unfold left
  simp only [same.loops, same.stops]
  exact Nat.add_lt_add_right (sum_set_lt atLoop _ (fun other => LoopPhase.left_later later other.phase) nearer) _

theorem Supervised.left_stop {s : Nat} {phase : StopPhase} (atStop : state.stops[s]? = some stop) (same : SameThreads state next)
    (later : state.orchestrator.Later next.orchestrator) (nearer : phase.left < stop.phase.left) :
    left { next with stops := next.stops.set s { stop with phase := phase } } < state.left := by
  have loops : (state.loops.map fun loop => loop.phase.left next).sum ≤ (state.loops.map fun loop => loop.phase.left state).sum :=
    List.sum_le_sum fun loop _ => LoopPhase.left_later later loop.phase
  unfold left
  simp only [same.loops, same.stops]
  exact Nat.add_lt_add_of_le_of_lt loops (sum_set_lt atStop _ (fun _ => le_rfl) nearer)

/-- Calls under way come before loops and those that wait for them. -/
def Supervised.busy (state : Supervised) : Nat := if state.orchestrator.calls.all Call.isOver then 0 else 1

/-- Every call is over, and every loop that is to end has ended. -/
structure Supervised.Over (state : Supervised) : Prop where
  calls : ∀ call ∈ state.orchestrator.calls, call.isOver = true
  stops : ∀ stop ∈ state.stops, stop.phase = .returned
  loops : ∀ loop ∈ state.loops, loop.stopped = true ∨ state.orchestrator.shared.closed = true → loop.phase = .ended

theorem Supervised.lift {finish : State} (onward : Reachable (State.Step config) State.WindsDown state.orchestrator finish) :
    Reachable (Supervised.Step config hooks) Supervised.WindsDown state { state with orchestrator := finish } := by
  induction onward with
  | refl => exact .refl
  | @tail middle finish action _ windsDown taken inductionHypothesis =>
    have stepped : Supervised.Step config hooks { state with orchestrator := middle } (.orchestrator action)
        { state with orchestrator := finish } := by
      cases action with
      | invoke => exact windsDown.elim
      | item c i env =>
        show (State.step config middle _).map _ = _
        rw [taken]
        rfl
      | advance c =>
        show (State.step config middle _).map _ = _
        rw [taken]
        rfl
    have answered : Supervised.WindsDown { state with orchestrator := middle } (.orchestrator action) := windsDown
    exact inductionHypothesis.tail answered stepped

theorem later_of_reachable {before after : State} {guard : State → Action → Prop}
    (onward : Reachable (State.Step config) guard before after) : before.Later after :=
  onward.invariant (.refl before) fun _ _ _ later _ taken => later.trans taken.later

/-- What a run keeps of a supervised orchestrator. -/
structure Supervised.Kept (config : Config) (state : Supervised) : Prop where
  tidy : state.Tidy
  placed : Placed state
  unhindered : Unhindered config state.orchestrator

theorem Supervised.Kept.step (kept : state.Kept config) (uninterrupted : state.Uninterrupted config deed)
    (taken : state.Step config hooks deed next) : next.Kept config :=
  ⟨kept.tidy.step taken, kept.placed.step taken, taken.unhindered kept.unhindered uninterrupted⟩

theorem Supervised.WindsDown.uninterrupted (windsDown : state.WindsDown deed) : state.Uninterrupted config deed := by
  cases deed with
  | orchestrator action => exact State.WindsDown.uninterrupted windsDown
  | startReaper | stopReaper | loop | stop => trivial

theorem Supervised.exists_close (config : Config) (env : Env) (state : Supervised) :
    ∃ next, state.call config env .close = some next := by
  unfold call State.step invoke
  simp only
  split
  · exact ⟨_, rfl⟩
  · split <;> exact ⟨_, rfl⟩

/-- A `stop_reaper` or `close` goes on when no call is under way and the loops that are to end have ended. -/
theorem Supervised.Kept.exists_stop (kept : state.Kept config) (ended : ∀ call ∈ state.orchestrator.calls, call.isOver = true)
    (loopsEnded : ∀ loop ∈ state.loops, loop.stopped = true ∨ state.orchestrator.shared.closed = true → loop.phase = .ended)
    (isStop : stop ∈ state.stops) (waits : stop.phase ≠ .returned) :
    ∃ next phase, state.stopStep config (answering state).env stop = some (next, phase) ∧ phase.left < stop.phase.left := by
  unfold stopStep
  cases atPhase : stop.phase with
  | joining =>
    have joins : stop.thread.all state.hasEnded = true := by
      cases isThread : stop.thread with
      | none => rfl
      | some i =>
        obtain ⟨loop, atLoop, told, _⟩ := kept.tidy.told stop isStop i isThread
        exact hasEnded_iff.2 ⟨loop, atLoop, loopsEnded loop (List.mem_of_getElem? atLoop) (.inl told)⟩
    refine ⟨state, if stop.closes then .joined else .returned, by simp only [if_pos joins], ?_⟩
    split <;> decide
  | joined =>
    obtain ⟨next, called⟩ := state.exists_close config (answering state).env
    exact ⟨next, .closing state.orchestrator.calls.length, by simp [called], by simp [StopPhase.left]⟩
  | closing c =>
    obtain ⟨outcome, isOver⟩ := exists_outcome ended (kept.placed.stops stop isStop c atPhase)
    exact ⟨state, .returned, by simp [isOver], by simp [StopPhase.left]⟩
  | returned => exact absurd atPhase waits

theorem StopMove.later {phase : StopPhase} (move : StopMove config state stop next phase) :
    state.orchestrator.Later next.orchestrator := by
  cases move with
  | closes _ called => exact Supervised.later_of_call called
  | joins | returns => exact .refl _

/-- Who waits, waits for a call or a loop that can go on. -/
theorem Supervised.Kept.goes (hooks : Hooks) (kept : state.Kept config) (notOver : ¬ state.Over) :
    ∃ after, Reachable (Supervised.Step config hooks) Supervised.WindsDown state after ∧
      Prod.Lex (· < ·) (· < ·) (after.left, after.busy) (state.left, state.busy) := by
  by_cases ended : ∀ call ∈ state.orchestrator.calls, call.isOver = true
  · by_cases toEnd : ∃ loop ∈ state.loops, loop.phase ≠ .ended ∧ (loop.stopped = true ∨ state.orchestrator.shared.closed = true)
    · obtain ⟨loop, isLoop, running, isLast⟩ := toEnd
      obtain ⟨i, atLoop⟩ := List.mem_iff_getElem?.1 isLoop
      obtain ⟨next, phase, stepped, nearer⟩ := @Loop.exists_step config hooks _ _ ended kept.placed isLoop running isLast
      have move := Loop.step_move stepped
      have taken : state.Step config hooks (.loop i (answering state))
          { next with loops := next.loops.set i { loop with phase := phase } } := by
        show Option.bind _ _ = _
        rw [atLoop, Option.bind_some, stepped]
        rfl
      have answered : state.WindsDown (.loop i (answering state)) := ⟨rfl, [], rfl⟩
      exact ⟨_, .tail .refl answered taken, .left _ _ (left_loop atLoop move.sameThreads move.later nearer)⟩
    · have loopsEnded : ∀ loop ∈ state.loops, loop.stopped = true ∨ state.orchestrator.shared.closed = true → loop.phase = .ended := by
        intro loop isLoop isLast
        by_contra running
        exact toEnd ⟨loop, isLoop, running, isLast⟩
      obtain ⟨stop, isStop, waits⟩ : ∃ stop ∈ state.stops, stop.phase ≠ .returned := by
        by_contra none
        refine notOver ⟨ended, fun stop isStop => ?_, loopsEnded⟩
        by_contra waits
        exact none ⟨stop, isStop, waits⟩
      obtain ⟨s, atStop⟩ := List.mem_iff_getElem?.1 isStop
      obtain ⟨next, phase, stepped, nearer⟩ := kept.exists_stop ended loopsEnded isStop waits
      have move := stopStep_move stepped
      have taken : state.Step config hooks (.stop s (answering state).env)
          { next with stops := next.stops.set s { stop with phase := phase } } := by
        show Option.bind _ _ = _
        rw [atStop, Option.bind_some, stepped]
        rfl
      have answered : state.WindsDown (.stop s (answering state).env) := trivial
      exact ⟨_, .tail .refl answered taken, .left _ _ (left_stop atStop move.sameThreads move.later nearer)⟩
  · obtain ⟨finish, onward, _, callsEnded⟩ := kept.unhindered.can_end
    refine ⟨{ state with orchestrator := finish }, lift onward, ?_⟩
    have fewer : left { state with orchestrator := finish } ≤ state.left := left_le (later_of_reachable onward) rfl rfl
    have idle : busy { state with orchestrator := finish } < state.busy := by
      unfold busy
      rw [if_pos (List.all_eq_true.2 callsEnded), if_neg (fun all => ended (List.all_eq_true.1 all))]
      exact Nat.zero_lt_one
    obtain less | same := Nat.lt_or_eq_of_le fewer
    · exact .left _ _ less
    · rw [same]
      exact .right _ idle

/-! ## The reaper -/

/-- In every run: a loop that has not been told to stop is the one that `_reaper_thread`
names; a `stop_reaper` or `close` that is past its join has seen its loop end; from the
close on no loop starts, and one that is between passes looks at no branch again. As
long as no loop restarts branches, the calls run as in an orchestrator without loops.
If no `BaseException` has met a child of a serial loop other than its last, then once
nobody calls any more, every call, every loop that has been told to stop and, if the
orchestrator closes, every loop can come to its end. -/
theorem reaper_stops {world : World} {shared : Shared} (booted : Shared.boot config world = .ok shared)
    (reached : Reachable (Supervised.Step config hooks) always (Supervised.fresh shared) state) :
    (∀ (i : Nat) loop, state.loops[i]? = some loop → loop.stopped = false →
      loop.phase = .ended ∨ state.reaperThread = some i) ∧
    (∀ stop ∈ state.stops, ∀ i, stop.thread = some i → stop.phase ≠ .joining → state.hasEnded i = true) ∧
    (∀ later, Reachable (Supervised.Step config hooks) always state later → state.orchestrator.shared.closed = true →
      later.loops.length = state.loops.length ∧ ∀ i, state.IdleAt i → later.IdleAt i) ∧
    (state.Collects hooks → Reachable (State.Step config) always (State.fresh shared) state.orchestrator) ∧
    (Reachable (Supervised.Step config hooks) (Supervised.Uninterrupted config) (Supervised.fresh shared) state →
      ∃ finish, Reachable (Supervised.Step config hooks) Supervised.WindsDown state finish ∧ finish.Over) := by
  have tidyStart : (Supervised.fresh shared).Tidy := by
    refine ⟨fun i isThread => ?_, fun i loop atLoop => ?_, fun stop isStop => absurd isStop List.not_mem_nil⟩
    · cases isThread
    · cases atLoop
  have placedStart : Placed (Supervised.fresh shared) :=
    ⟨fun loop isLoop => absurd isLoop List.not_mem_nil, fun stop isStop => absurd isStop List.not_mem_nil⟩
  have tidy : state.Tidy := reached.invariant tidyStart fun _ _ _ tidy _ taken => tidy.step taken
  refine ⟨tidy.goesOn, fun stop isStop i isThread past => ?_, fun later onward isClosed => ?_,
    Supervised.orchestrator_reachable reached, fun uninterrupted => ?_⟩
  · obtain ⟨loop, atLoop, _, joined⟩ := tidy.told stop isStop i isThread
    exact Supervised.hasEnded_iff.2 ⟨loop, atLoop, joined past⟩
  · have stays : later.orchestrator.shared.closed = true ∧ later.loops.length = state.loops.length ∧
        ∀ i, state.IdleAt i → later.IdleAt i := by
      refine onward.invariant (motive := fun middle => middle.orchestrator.shared.closed = true ∧
        middle.loops.length = state.loops.length ∧ ∀ i, state.IdleAt i → middle.IdleAt i)
        ⟨isClosed, rfl, fun _ idle => idle⟩ ?_
      intro before deed after stays _ taken
      obtain ⟨closed, length, idle⟩ := stays
      obtain ⟨sameLength, stillIdle⟩ := taken.idle closed
      exact ⟨taken.later.closed closed, sameLength.trans length, fun i isIdle => stillIdle i (idle i isIdle)⟩
    exact stays.2
  · have keptStart : (Supervised.fresh shared).Kept config := ⟨tidyStart, placedStart, Unhindered.boot booted⟩
    have kept : state.Kept config :=
      uninterrupted.invariant keptStart fun _ _ _ kept uninterrupted taken => kept.step uninterrupted taken
    have wellFounded : WellFounded (Prod.Lex (· < ·) (· < ·) : Nat × Nat → Nat × Nat → Prop) :=
      (Prod.lex Nat.lt_wfRel Nat.lt_wfRel).wf
    obtain ⟨finish, onward, allOver⟩ := exists_of_rank wellFounded (fun state : Supervised => (state.left, state.busy))
      (fun _ _ _ kept windsDown taken => Supervised.Kept.step kept windsDown.uninterrupted taken)
      (fun _ kept notOver => Supervised.Kept.goes hooks kept notOver) kept
    exact ⟨finish, onward, allOver⟩

def watching : Hooks := ⟨true, true⟩

/-- A turn in which `sweep_dead` finds branch "p". -/
def turns : Turn := ⟨returns, .ok ["p"], false⟩

/-- `close` takes the reaper while it collects a dead branch, and another reaper is
started before `close` goes on. -/
def watchedClose : List Deed :=
  [.orchestrator (.invoke (.createParent "p" [] none) returns), .orchestrator (.item 0 0 returns),
    .orchestrator (.item 0 0 returns), .orchestrator (.item 0 0 returns), .orchestrator (.item 0 0 returns),
    .orchestrator (.advance 0), .startReaper 5 false, .loop 0 turns, .loop 0 turns, .orchestrator (.advance 1),
    .orchestrator (.advance 1), .loop 0 turns, .loop 0 turns, .stopReaper true, .startReaper 5 false, .loop 0 turns,
    .loop 0 turns, .orchestrator (.item 2 0 returns), .orchestrator (.item 2 0 returns), .orchestrator (.item 2 0 returns),
    .orchestrator (.item 2 0 returns), .orchestrator (.advance 2), .loop 0 turns, .loop 0 turns, .loop 0 turns,
    .stop 0 returns, .stop 0 returns]

def watchedRun : Supervised := runFrom (Supervised.step serialConfig watching) (Supervised.fresh blank) watchedClose

instance (config : Config) (state : Supervised) (deed : Deed) : Decidable (state.Uninterrupted config deed) :=
  match deed with
  | .orchestrator action => inferInstanceAs (Decidable (state.orchestrator.Uninterrupted config action))
  | .startReaper _ _ | .stopReaper _ | .loop _ _ | .stop _ _ => isTrue trivial

theorem watchedRun_stops : watchedRun.hasEnded 0 = true ∧
    ∃ finish, Reachable (Supervised.Step serialConfig watching) Supervised.WindsDown watchedRun finish ∧ finish.Over := by
  have enabled : (run (Supervised.step serialConfig watching) (Supervised.fresh blank) watchedClose).isSome = true := by decide
  have reached {guard : Supervised → Deed → Prop} (meets : Meets (Supervised.step serialConfig watching) guard
      (Supervised.fresh blank) watchedClose) : Reachable (Supervised.Step serialConfig watching) guard
        (Supervised.fresh blank) watchedRun := reachable_runFrom enabled meets
  obtain ⟨_, joined, _, _, ends⟩ := reaper_stops boot_blank (reached meets_always)
  obtain ⟨stop, atStop⟩ := Option.isSome_iff_exists.1 (show watchedRun.stops[0]?.isSome = true by decide)
  have isStop : (watchedRun.stops[0]?).map (fun stop => (stop.thread, stop.phase)) = some (some 0, .closing 3) := by decide
  rw [atStop] at isStop
  obtain ⟨isThread, atPhase⟩ := Prod.mk.inj (Option.some.inj isStop)
  refine ⟨joined stop (List.mem_of_getElem? atStop) 0 isThread ?_, ends (reached (by decide))⟩
  rw [atPhase]
  decide

end Agentfork.Orchestrator

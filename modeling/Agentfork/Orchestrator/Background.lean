import Agentfork.Orchestrator.Completion

/-! # The reaper in the background

`start_reaper` starts a thread that runs `reconcile` at intervals and handles the
branches whose sandbox has died; `stop_reaper` tells it to stop and waits for its
end, and `close` begins with that. The thread's own calls and those of all others
run in the orchestrator as any calls do. -/

namespace Agentfork.Orchestrator

open Shared Transition

/-- The methods of the sandbox that only the loop asks for. -/
structure Hooks where
  /-- `sweep_dead` -/
  sweeps : Bool
  /-- `restart` -/
  restarts : Bool

/-! ## The loop -/

inductive LoopPhase where
  /-- in `stop.wait` -/
  | waiting
  /-- the wait has run out -/
  | due
  /-- in `reconcile`, the call of this index -/
  | reconciling (call : Nat)
  /-- in `sweep_dead` -/
  | sweeping
  /-- before the section that looks at the next dead branch -/
  | visiting (pending : List BranchId)
  /-- in `restart` -/
  | restarting (branchId : BranchId) (pending : List BranchId)
  /-- before `kill` -/
  | dead (branchId : BranchId) (pending : List BranchId)
  /-- in `kill`, the call of this index -/
  | collecting (call : Nat) (pending : List BranchId)
  | ended
  deriving DecidableEq

/-- A thread in `_reaper_loop` and the event it was given. -/
structure Loop where
  stopped : Bool
  restartDead : Bool
  phase : LoopPhase

inductive StopPhase where
  /-- in `thread.join` -/
  | joining
  /-- in `close`, before its first section -/
  | joined
  /-- in the rest of `close`, the call of this index -/
  | closing (call : Nat)
  | returned
  deriving DecidableEq

/-- A call of `stop_reaper`, or of `close`, and the thread it has taken. -/
structure Stop where
  thread : Option Nat
  closes : Bool
  phase : StopPhase

structure Supervised where
  orchestrator : State
  loops : List Loop
  /-- `_reaper_thread` -/
  reaperThread : Option Nat
  /-- the loop that waits on `_reaper_stop`, if one does -/
  reaperStop : Option Nat
  stops : List Stop
  sweptDead : Nat
  restarted : Nat

/-- The answers of the surroundings to one step of a loop. -/
structure Turn where
  env : Env
  swept : Except Fault (List BranchId)
  /-- what `restart` returns -/
  up : Bool

inductive Deed where
  | orchestrator (action : Action)
  | startReaper (interval : Int) (restartDead : Bool)
  | stopReaper (closes : Bool)
  | loop (i : Nat) (turn : Turn)
  | stop (s : Nat) (env : Env)

def Call.outcome? (call : Call) : Option (Except Fault Value) :=
  match call.stage with
  | .finished outcome => some outcome
  | _ => none

/-- What the handlers of `_reaper_loop` make of an exception; one that is no
`Exception` ends the thread. -/
def afterFault (closed : Bool) : Fault → LoopPhase
  | .runtimeError _ => if closed then .ended else .waiting
  | .baseException => .ended
  | .valueError _ | .keyError _ | .exception => .waiting

/-- `.reaped` of what a `kill` returns. -/
def Value.reaped : Value → Bool
  | .receipt collected => collected.reaped
  | _ => false

namespace Supervised

def outcome? (state : Supervised) (c : Nat) : Option (Except Fault Value) :=
  (state.orchestrator.calls[c]?).bind Call.outcome?

/-- A thread calls a method. -/
def call (config : Config) (env : Env) (state : Supervised) (op : Op) : Option Supervised :=
  (state.orchestrator.step config (.invoke op env)).map fun next => { state with orchestrator := next }

/-- The branch is live, and nobody kills it. -/
def live (state : Supervised) (branchId : BranchId) : Bool :=
  state.orchestrator.shared.isLive branchId && decide (branchId ∉ state.orchestrator.shared.killing)

/-- A restarted branch is in the sandbox backend. -/
def holdSandbox (branchId : BranchId) (state : Supervised) : Supervised :=
  { state with orchestrator := { state.orchestrator with shared := state.orchestrator.shared.holdSandbox branchId } }

end Supervised

/-- The thread goes on to its next lock, call or return. -/
def Loop.step (config : Config) (hooks : Hooks) (turn : Turn) (state : Supervised) (loop : Loop) :
    Option (Supervised × LoopPhase) :=
  match loop.phase with
  | .waiting => some (state, if loop.stopped then .ended else .due)
  | .due => (state.call config turn.env .reconcile).map fun next =>
      (next, .reconciling state.orchestrator.calls.length)
  | .reconciling c => (state.outcome? c).map fun
      | .ok _ => (state, if hooks.sweeps then .sweeping else .waiting)
      | .error fault => (state, afterFault state.orchestrator.shared.closed fault)
  | .sweeping =>
    match turn.swept with
    | .ok branchIds => some (state, .visiting branchIds)
    | .error fault => some (state, afterFault state.orchestrator.shared.closed fault)
  | .visiting [] => some (state, .waiting)
  | .visiting (branchId :: pending) =>
    if hooks.restarts && loop.restartDead && state.live branchId then some (state, .restarting branchId pending)
    else some (state, .dead branchId pending)
  | .restarting branchId pending =>
    match turn.env.reply with
    | .working => some (state.holdSandbox branchId, .restarting branchId pending)
    | .returned =>
      if turn.up then
        some ({ state.holdSandbox branchId with restarted := state.restarted + 1 }, .visiting pending)
      else some (state, .dead branchId pending)
    | .raised fault tookEffect =>
      some (if tookEffect then state.holdSandbox branchId else state,
        if fault.ordinary then .dead branchId pending else .ended)
  | .dead branchId pending => (state.call config turn.env (.kill branchId)).map fun next =>
      (next, .collecting state.orchestrator.calls.length pending)
  | .collecting c pending => (state.outcome? c).map fun
      | .ok value =>
        ({ state with sweptDead := state.sweptDead + if value.reaped then 1 else 0 }, .visiting pending)
      | .error fault => (state, afterFault state.orchestrator.shared.closed fault)
  | .ended => none

namespace Supervised

/-! ## Starting and stopping -/

def hasEnded (state : Supervised) (i : Nat) : Bool := (state.loops[i]?).any fun loop => loop.phase = .ended

/-- `start_reaper` -/
def startReaper (interval : Int) (restartDead : Bool) (state : Supervised) : Except Fault Unit × Supervised :=
  if interval ≤ 0 then (.error (.valueError "interval_s must be positive"), state)
  else match state.orchestrator.shared.ensureOpen false with
    | .error fault => (.error fault, state)
    | .ok () =>
      if state.reaperThread.any fun i => !state.hasEnded i then (.ok (), state)
      else (.ok (), { state with
        loops := state.loops ++ [⟨false, restartDead, .waiting⟩]
        reaperThread := some state.loops.length
        reaperStop := some state.loops.length })

/-- The section of `stop_reaper`, with which `close` begins. -/
def stopReaper (closes : Bool) (state : Supervised) : Supervised where
  orchestrator := state.orchestrator
  loops := match state.reaperStop with
    | none => state.loops
    | some i => state.loops.modify i fun loop => { loop with stopped := true }
  reaperThread := none
  reaperStop := state.reaperStop
  stops := state.stops ++ [⟨state.reaperThread, closes, .joining⟩]
  sweptDead := state.sweptDead
  restarted := state.restarted

/-- What follows that section. -/
def stopStep (config : Config) (env : Env) (state : Supervised) (stop : Stop) : Option (Supervised × StopPhase) :=
  match stop.phase with
  | .joining =>
    if stop.thread.all state.hasEnded then some (state, if stop.closes then .joined else .returned) else none
  | .joined => (state.call config env .close).map fun next => (next, .closing state.orchestrator.calls.length)
  | .closing c => (state.outcome? c).map fun _ => (state, .returned)
  | .returned => none

/-- One step; `close` is not called past `stop_reaper`. -/
def step (config : Config) (hooks : Hooks) (state : Supervised) : Deed → Option Supervised
  | .orchestrator (.invoke .close _) => none
  | .orchestrator action => (state.orchestrator.step config action).map fun next => { state with orchestrator := next }
  | .startReaper interval restartDead => some (state.startReaper interval restartDead).2
  | .stopReaper closes => some (state.stopReaper closes)
  | .loop i turn => (state.loops[i]?).bind fun loop =>
      (loop.step config hooks turn state).map fun (next, phase) =>
        { next with loops := next.loops.set i { loop with phase := phase } }
  | .stop s env => (state.stops[s]?).bind fun stop =>
      (state.stopStep config env stop).map fun (next, phase) =>
        { next with stops := next.stops.set s { stop with phase := phase } }

def Step (config : Config) (hooks : Hooks) (before : Supervised) (deed : Deed) (after : Supervised) : Prop :=
  before.step config hooks deed = some after

/-- An orchestrator that has been constructed. -/
def fresh (shared : Shared) : Supervised := ⟨State.fresh shared, [], none, none, [], 0, 0⟩

end Supervised

variable {config : Config} {hooks : Hooks} {env : Env} {turn : Turn} {state next : Supervised} {loop : Loop}
  {phase : LoopPhase} {stop : Stop} {deed : Deed}

/-! ## What a step leaves alone -/

/-- Nothing but the orchestrator and its counters has changed. -/
structure SameThreads (before after : Supervised) : Prop where
  loops : after.loops = before.loops
  reaperThread : after.reaperThread = before.reaperThread
  reaperStop : after.reaperStop = before.reaperStop
  stops : after.stops = before.stops

theorem SameThreads.refl (state : Supervised) : SameThreads state state := ⟨rfl, rfl, rfl, rfl⟩

theorem Supervised.of_call {op : Op} (called : state.call config env op = some next) :
    SameThreads state next ∧ state.orchestrator.Step config (.invoke op env) next.orchestrator := by
  obtain ⟨after, taken, rfl⟩ := Option.map_eq_some_iff.1 called
  exact ⟨⟨rfl, rfl, rfl, rfl⟩, taken⟩

/-- What a loop can do. -/
inductive LoopMove (config : Config) (hooks : Hooks) (state : Supervised) (loop : Loop) : Supervised → LoopPhase → Prop where
  | stops : loop.phase = .waiting → loop.stopped = true → LoopMove config hooks state loop state .ended
  | wakes : loop.phase = .waiting → loop.stopped = false → LoopMove config hooks state loop state .due
  | reconciles {next : Supervised} {env : Env} : loop.phase = .due → state.call config env .reconcile = some next →
      LoopMove config hooks state loop next (.reconciling state.orchestrator.calls.length)
  | reconciled {c : Nat} {value : Value} {phase : LoopPhase} : loop.phase = .reconciling c →
      state.outcome? c = some (.ok value) → phase = .sweeping ∨ phase = .waiting →
      LoopMove config hooks state loop state phase
  | sweeps {branchIds : List BranchId} : loop.phase = .sweeping →
      LoopMove config hooks state loop state (.visiting branchIds)
  | done : loop.phase = .visiting [] → LoopMove config hooks state loop state .waiting
  | offers {branchId : BranchId} {pending : List BranchId} : loop.phase = .visiting (branchId :: pending) →
      hooks.restarts = true → loop.restartDead = true → state.live branchId = true →
      LoopMove config hooks state loop state (.restarting branchId pending)
  | givesUp {branchId : BranchId} {pending : List BranchId} :
      loop.phase = .visiting (branchId :: pending) ∨ loop.phase = .restarting branchId pending →
      LoopMove config hooks state loop state (.dead branchId pending)
  | restarts {branchId : BranchId} {pending : List BranchId} {restarted : Nat} {phase : LoopPhase} :
      loop.phase = .restarting branchId pending →
      phase = .restarting branchId pending ∨ phase = .visiting pending ∨ phase = .dead branchId pending ∨ phase = .ended →
      LoopMove config hooks state loop { state.holdSandbox branchId with restarted := restarted } phase
  | interrupted {branchId : BranchId} {pending : List BranchId} : loop.phase = .restarting branchId pending →
      LoopMove config hooks state loop state .ended
  | collects {next : Supervised} {env : Env} {branchId : BranchId} {pending : List BranchId} :
      loop.phase = .dead branchId pending → state.call config env (.kill branchId) = some next →
      LoopMove config hooks state loop next (.collecting state.orchestrator.calls.length pending)
  | collected {c : Nat} {pending : List BranchId} {value : Value} {sweptDead : Nat} :
      loop.phase = .collecting c pending → state.outcome? c = some (.ok value) →
      LoopMove config hooks state loop { state with sweptDead := sweptDead } (.visiting pending)
  | raised {fault : Fault} : (∀ c, loop.phase = .reconciling c → state.outcome? c = some (.error fault)) →
      loop.phase ≠ .waiting → loop.phase ≠ .due → loop.phase ≠ .ended →
      LoopMove config hooks state loop state (afterFault state.orchestrator.shared.closed fault)

theorem Loop.step_move (taken : loop.step config hooks turn state = some (next, phase)) :
    LoopMove config hooks state loop next phase := by
  unfold Loop.step at taken
  cases atPhase : loop.phase with
  | waiting =>
    simp only [atPhase] at taken
    cases told : loop.stopped with
    | true =>
      rw [told] at taken
      cases taken
      exact .stops atPhase told
    | false =>
      rw [told] at taken
      cases taken
      exact .wakes atPhase told
  | due =>
    simp only [atPhase] at taken
    obtain ⟨after, called, same⟩ := Option.map_eq_some_iff.1 taken
    cases same
    exact .reconciles atPhase called
  | reconciling c =>
    simp only [atPhase] at taken
    obtain ⟨outcome, isOver, same⟩ := Option.map_eq_some_iff.1 taken
    cases outcome with
    | ok value =>
      cases same
      refine .reconciled atPhase isOver ?_
      split
      · exact .inl rfl
      · exact .inr rfl
    | error fault =>
      cases same
      refine .raised (fun d isHere => ?_) (by simp [atPhase]) (by simp [atPhase]) (by simp [atPhase])
      cases atPhase.symm.trans isHere
      exact isOver
  | sweeping =>
    simp only [atPhase] at taken
    split at taken
    · cases taken
      exact .sweeps atPhase
    · cases taken
      exact .raised (by simp [atPhase]) (by simp [atPhase]) (by simp [atPhase]) (by simp [atPhase])
  | visiting pending =>
    cases pending with
    | nil =>
      simp only [atPhase] at taken
      cases taken
      exact .done atPhase
    | cons branchId pending =>
      simp only [atPhase] at taken
      split at taken
      · next offered =>
        cases taken
        simp only [Bool.and_eq_true] at offered
        exact .offers atPhase offered.1.1 offered.1.2 offered.2
      · cases taken
        exact .givesUp (.inl atPhase)
  | restarting branchId pending =>
    simp only [atPhase] at taken
    split at taken
    · cases taken
      exact @LoopMove.restarts _ _ _ _ _ _ state.restarted _ atPhase (.inl rfl)
    · split at taken
      · cases taken
        exact .restarts atPhase (.inr (.inl rfl))
      · cases taken
        exact .givesUp (.inr atPhase)
    · next fault tookEffect _ =>
      cases taken
      cases tookEffect with
      | true =>
        refine @LoopMove.restarts _ _ _ _ _ _ state.restarted _ atPhase (.inr (.inr ?_))
        split
        · exact .inl rfl
        · exact .inr rfl
      | false =>
        simp only [Bool.false_eq_true, if_false]
        split
        · exact .givesUp (.inr atPhase)
        · exact .interrupted atPhase
  | dead branchId pending =>
    simp only [atPhase] at taken
    obtain ⟨after, called, same⟩ := Option.map_eq_some_iff.1 taken
    cases same
    exact .collects atPhase called
  | collecting c pending =>
    simp only [atPhase] at taken
    obtain ⟨outcome, isOver, same⟩ := Option.map_eq_some_iff.1 taken
    cases outcome with
    | ok value =>
      cases same
      exact .collected atPhase isOver
    | error fault =>
      cases same
      exact .raised (by simp [atPhase]) (by simp [atPhase]) (by simp [atPhase]) (by simp [atPhase])
  | ended =>
    simp only [atPhase] at taken
    cases taken

theorem LoopMove.sameThreads (move : LoopMove config hooks state loop next phase) : SameThreads state next := by
  cases move with
  | reconciles _ called | collects _ called => exact (Supervised.of_call called).1
  | stops | wakes | reconciled | sweeps | done | offers | givesUp | interrupted | raised => exact .refl state
  | restarts | collected => exact ⟨rfl, rfl, rfl, rfl⟩

theorem LoopMove.running (move : LoopMove config hooks state loop next phase) : loop.phase ≠ .ended := by
  intro ended
  cases move with
  | stops atPhase | wakes atPhase | reconciles atPhase | reconciled atPhase | sweeps atPhase | done atPhase | offers atPhase
  | restarts atPhase | interrupted atPhase | collects atPhase | collected atPhase => cases atPhase.symm.trans ended
  | givesUp atPhase => obtain atPhase | atPhase := atPhase <;> cases atPhase.symm.trans ended
  | raised _ _ _ running => exact running ended

/-- What the steps after the section of `stop_reaper` can do. -/
inductive StopMove (config : Config) (state : Supervised) (stop : Stop) : Supervised → StopPhase → Prop where
  | joins {phase : StopPhase} : stop.phase = .joining → (∀ i, stop.thread = some i → state.hasEnded i = true) →
      phase = (if stop.closes then .joined else .returned) → StopMove config state stop state phase
  | closes {next : Supervised} {env : Env} : stop.phase = .joined → state.call config env .close = some next →
      StopMove config state stop next (.closing state.orchestrator.calls.length)
  | returns {c : Nat} {outcome : Except Fault Value} : stop.phase = .closing c → state.outcome? c = some outcome →
      StopMove config state stop state .returned

theorem Supervised.stopStep_move {phase : StopPhase} (taken : state.stopStep config env stop = some (next, phase)) :
    StopMove config state stop next phase := by
  unfold stopStep at taken
  cases atPhase : stop.phase with
  | joining =>
    simp only [atPhase] at taken
    split at taken
    · next ended =>
      cases taken
      refine .joins atPhase (fun i isThread => ?_) rfl
      simpa [isThread] using ended
    · cases taken
  | joined =>
    simp only [atPhase] at taken
    obtain ⟨after, called, same⟩ := Option.map_eq_some_iff.1 taken
    cases same
    exact .closes atPhase called
  | closing c =>
    simp only [atPhase] at taken
    obtain ⟨outcome, isOver, same⟩ := Option.map_eq_some_iff.1 taken
    cases same
    exact .returns atPhase isOver
  | returned =>
    simp only [atPhase] at taken
    cases taken

theorem StopMove.sameThreads {phase : StopPhase} (move : StopMove config state stop next phase) : SameThreads state next := by
  cases move with
  | closes _ called => exact (Supervised.of_call called).1
  | joins | returns => exact .refl state

/-- What a step of the whole can do. -/
inductive Supervised.Move (config : Config) (hooks : Hooks) (state : Supervised) : Deed → Supervised → Prop where
  | orchestrator {action : Action} {orchestrator : State} : (∀ env, action ≠ .invoke .close env) →
      state.orchestrator.Step config action orchestrator →
      Move config hooks state (.orchestrator action) { state with orchestrator := orchestrator }
  | refused {interval : Int} {restartDead : Bool} : Move config hooks state (.startReaper interval restartDead) state
  | starts {interval : Int} {restartDead : Bool} : state.orchestrator.shared.ensureOpen false = .ok () →
      (∀ i, state.reaperThread = some i → state.hasEnded i = true) →
      Move config hooks state (.startReaper interval restartDead) { state with
        loops := state.loops ++ [⟨false, restartDead, .waiting⟩]
        reaperThread := some state.loops.length
        reaperStop := some state.loops.length }
  | stopReaper {closes : Bool} : Move config hooks state (.stopReaper closes) (state.stopReaper closes)
  | loop {i : Nat} {turn : Turn} {loop : Loop} {next : Supervised} {phase : LoopPhase} : state.loops[i]? = some loop →
      LoopMove config hooks state loop next phase →
      Move config hooks state (.loop i turn) { next with loops := next.loops.set i { loop with phase := phase } }
  | stop {s : Nat} {env : Env} {stop : Stop} {next : Supervised} {phase : StopPhase} : state.stops[s]? = some stop →
      StopMove config state stop next phase →
      Move config hooks state (.stop s env) { next with stops := next.stops.set s { stop with phase := phase } }

theorem Supervised.Step.move (taken : state.Step config hooks deed next) : state.Move config hooks deed next := by
  unfold Step step at taken
  cases deed with
  | orchestrator action =>
    split at taken
    · cases taken
    · next notClose same =>
      cases same
      obtain ⟨orchestrator, stepped, rfl⟩ := Option.map_eq_some_iff.1 taken
      exact .orchestrator notClose stepped
    all_goals next same => cases same
  | startReaper interval restartDead =>
    cases taken
    unfold startReaper
    split
    · exact .refused
    · split
      · exact .refused
      · next isOpen =>
        split
        · exact .refused
        · next none =>
          refine .starts isOpen fun i isThread => ?_
          simpa [isThread] using none
  | stopReaper closes =>
    cases taken
    exact .stopReaper
  | loop i turn =>
    obtain ⟨loop, atLoop, stepped⟩ := Option.bind_eq_some_iff.1 taken
    obtain ⟨⟨after, phase⟩, isStep, rfl⟩ := Option.map_eq_some_iff.1 stepped
    exact .loop atLoop (Loop.step_move isStep)
  | stop s env =>
    obtain ⟨stop, atStop, stepped⟩ := Option.bind_eq_some_iff.1 taken
    obtain ⟨⟨after, phase⟩, isStep, rfl⟩ := Option.map_eq_some_iff.1 stepped
    exact .stop atStop (stopStep_move isStep)

/-! ## At most one loop goes on -/

theorem of_getElem?_set {α : Type} {items : List α} {i j : Nat} {moved item : α} (found : (items.set i moved)[j]? = some item) :
    j = i ∧ item = moved ∨ j ≠ i ∧ items[j]? = some item := by
  rw [List.getElem?_set] at found
  split at found
  · next here =>
    split at found
    · cases found
      exact .inl ⟨here.symm, rfl⟩
    · cases found
  · next differs => exact .inr ⟨Ne.symm differs, found⟩

theorem of_getElem?_concat {α : Type} {items : List α} {j : Nat} {last item : α}
    (found : (items ++ [last])[j]? = some item) : j = items.length ∧ item = last ∨ items[j]? = some item := by
  rw [List.getElem?_append] at found
  split at found
  · exact .inr found
  · next beyond =>
    rw [List.getElem?_singleton] at found
    split at found
    · cases found
      exact .inl ⟨by omega, rfl⟩
    · cases found

theorem Supervised.hasEnded_iff {i : Nat} : state.hasEnded i = true ↔ ∃ loop, state.loops[i]? = some loop ∧ loop.phase = .ended := by
  unfold hasEnded
  rw [Option.any_eq_true]
  simp only [decide_eq_true_eq]

namespace Supervised

/-- Whoever has not been told to stop is the one that `_reaper_thread` names, and
whoever has been joined has ended. -/
structure Tidy (state : Supervised) : Prop where
  current : ∀ i, state.reaperThread = some i → state.reaperStop = some i ∧ i < state.loops.length
  goesOn : ∀ i loop, state.loops[i]? = some loop → loop.stopped = false →
    loop.phase = .ended ∨ state.reaperThread = some i
  told : ∀ stop ∈ state.stops, ∀ i, stop.thread = some i →
    ∃ loop, state.loops[i]? = some loop ∧ loop.stopped = true ∧ (stop.phase ≠ .joining → loop.phase = .ended)

namespace Tidy

theorem sameThreads (tidy : state.Tidy) (same : SameThreads state next) : next.Tidy where
  current := by
    rw [same.reaperThread, same.reaperStop, same.loops]
    exact tidy.current
  goesOn := by
    rw [same.reaperThread, same.loops]
    exact tidy.goesOn
  told := by
    rw [same.stops, same.loops]
    exact tidy.told

theorem starts (tidy : state.Tidy) (ended : ∀ i, state.reaperThread = some i → state.hasEnded i = true)
    (restartDead : Bool) :
    Tidy { state with
      loops := state.loops ++ [⟨false, restartDead, .waiting⟩]
      reaperThread := some state.loops.length
      reaperStop := some state.loops.length } where
  current i isThread := by
    cases isThread
    exact ⟨rfl, by simp⟩
  goesOn i loop atLoop notTold := by
    obtain ⟨rfl, rfl⟩ | before := of_getElem?_concat atLoop
    · exact .inr rfl
    · -- the thread whose place the new one takes has ended
      obtain isOver | isThread := tidy.goesOn i loop before notTold
      · exact .inl isOver
      · obtain ⟨same, found, isOver⟩ := hasEnded_iff.1 (ended i isThread)
        cases before.symm.trans found
        exact .inl isOver
  told stop isStop i isThread := by
    obtain ⟨loop, atLoop, told⟩ := tidy.told stop isStop i isThread
    exact ⟨loop, List.getElem?_append_left (List.getElem?_eq_some_iff.1 atLoop).1 |>.trans atLoop, told⟩

/-- The event that is set is that of the thread that is taken. -/
theorem stopReaper (tidy : state.Tidy) (closes : Bool) : (state.stopReaper closes).Tidy := by
  have loopAt : ∀ i loop, (state.stopReaper closes).loops[i]? = some loop →
      ∃ before, state.loops[i]? = some before ∧ loop.phase = before.phase ∧ (before.stopped = true → loop.stopped = true) ∧
        (state.reaperStop = some i → loop.stopped = true) := by
    intro i loop atLoop
    unfold Supervised.stopReaper at atLoop
    cases event : state.reaperStop with
    | none =>
      simp only [event] at atLoop
      exact ⟨loop, atLoop, rfl, id, fun same => by cases same⟩
    | some j =>
      simp only [event, List.getElem?_modify] at atLoop
      obtain ⟨before, atBefore, rfl⟩ := Option.map_eq_some_iff.1 atLoop
      split
      · exact ⟨before, atBefore, rfl, fun _ => rfl, fun _ => rfl⟩
      · next elsewhere => exact ⟨before, atBefore, rfl, id, fun same => absurd (Option.some.inj same) elsewhere⟩
  have loopOf : ∀ (i : Nat) (before : Loop), state.loops[i]? = some before →
      ∃ loop, (state.stopReaper closes).loops[i]? = some loop := by
    intro i before atBefore
    have inside : i < (state.stopReaper closes).loops.length := by
      have := (List.getElem?_eq_some_iff.1 atBefore).1
      unfold Supervised.stopReaper
      cases state.reaperStop <;> simpa
    exact ⟨(state.stopReaper closes).loops[i], List.getElem?_eq_getElem inside⟩
  constructor
  · intro i isThread
    cases isThread
  · intro i loop atLoop notTold
    obtain ⟨before, atBefore, samePhase, stays, isEvent⟩ := loopAt i loop atLoop
    have notBefore : before.stopped = false := by
      cases told : before.stopped with
      | false => rfl
      | true => cases (stays told).symm.trans notTold
    obtain isOver | isThread := tidy.goesOn i before atBefore notBefore
    · exact .inl (samePhase.trans isOver)
    · cases (isEvent (tidy.current i isThread).1).symm.trans notTold
  · intro stop isStop i isThread
    obtain old | new := List.mem_append.1 isStop
    · obtain ⟨before, atBefore, told, joined⟩ := tidy.told stop old i isThread
      obtain ⟨loop, atLoop⟩ := loopOf i before atBefore
      obtain ⟨same, atSame, samePhase, stays, _⟩ := loopAt i loop atLoop
      cases atBefore.symm.trans atSame
      exact ⟨loop, atLoop, stays told, fun notJoining => samePhase.trans (joined notJoining)⟩
    · obtain rfl := List.mem_singleton.1 new
      obtain ⟨isEvent, inside⟩ := tidy.current i isThread
      obtain ⟨loop, atLoop⟩ := loopOf i _ (List.getElem?_eq_getElem inside)
      obtain ⟨_, _, _, _, told⟩ := loopAt i loop atLoop
      exact ⟨loop, atLoop, told isEvent, fun notJoining => absurd rfl notJoining⟩

theorem advance (tidy : state.Tidy) {i : Nat} {loop : Loop} (atLoop : state.loops[i]? = some loop)
    (running : loop.phase ≠ .ended) (phase : LoopPhase) :
    Tidy { state with loops := state.loops.set i { loop with phase := phase } } where
  current j isThread := by
    rw [List.length_set]
    exact tidy.current j isThread
  goesOn j other atOther notTold := by
    obtain ⟨rfl, rfl⟩ | ⟨_, kept⟩ := of_getElem?_set atOther
    · exact .inr ((tidy.goesOn j loop atLoop notTold).resolve_left running)
    · exact tidy.goesOn j other kept notTold
  told stop isStop j isThread := by
    obtain ⟨other, atOther, told, joined⟩ := tidy.told stop isStop j isThread
    by_cases here : i = j
    · subst here
      cases atLoop.symm.trans atOther
      have inside := (List.getElem?_eq_some_iff.1 atLoop).1
      exact ⟨_, List.getElem?_set_self inside, told, fun notJoining => absurd (joined notJoining) running⟩
    · exact ⟨other, (List.getElem?_set_ne here).trans atOther, told, joined⟩

theorem proceed (tidy : state.Tidy) {s : Nat} {stop : Stop} {phase : StopPhase} (atStop : state.stops[s]? = some stop)
    (joined : stop.phase = .joining → ∀ i, stop.thread = some i → state.hasEnded i = true) :
    Tidy { state with stops := state.stops.set s { stop with phase := phase } } where
  current := tidy.current
  goesOn := tidy.goesOn
  told other isOther i isThread := by
    obtain old | rfl := List.mem_or_eq_of_mem_set isOther
    · exact tidy.told other old i isThread
    · obtain ⟨loop, atLoop, told, before⟩ := tidy.told stop (List.mem_of_getElem? atStop) i isThread
      refine ⟨loop, atLoop, told, fun _ => ?_⟩
      by_cases joining : stop.phase = .joining
      · obtain ⟨same, found, isOver⟩ := hasEnded_iff.1 (joined joining i isThread)
        cases atLoop.symm.trans found
        exact isOver
      · exact before joining

theorem step (tidy : state.Tidy) (taken : state.Step config hooks deed next) : next.Tidy := by
  cases taken.move with
  | orchestrator => exact tidy.sameThreads ⟨rfl, rfl, rfl, rfl⟩
  | refused => exact tidy
  | starts _ ended => exact tidy.starts ended _
  | stopReaper => exact tidy.stopReaper _
  | loop atLoop move =>
    have same := move.sameThreads
    rw [← same.loops] at atLoop
    exact (tidy.sameThreads same).advance atLoop move.running _
  | stop atStop move =>
    have same := move.sameThreads
    have after := tidy.sameThreads same
    rw [← same.stops] at atStop
    refine after.proceed atStop fun joining i isThread => ?_
    cases move with
    | joins _ ended => exact ended i isThread
    | closes atPhase | returns atPhase => cases atPhase.symm.trans joining

end Tidy

end Supervised

end Agentfork.Orchestrator

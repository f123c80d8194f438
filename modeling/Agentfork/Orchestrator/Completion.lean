import Agentfork.Orchestrator.Closing
import Agentfork.Orchestrator.Counters

/-! # Every call can end

A call waits for its tasks, `kill_losers` and `close` wait for marks, and one `close`
waits for another. Where no child of a loop is stopped by a `BaseException` while
others are still to come, nobody waits in a circle: from every state, once nobody
calls any more and the backends answer, all calls can run to their end. -/

namespace Agentfork.Orchestrator

open Shared Transition

variable {config : Config} {env : Env} {shared after : Shared} {state next : State} {action : Action}

/-! ## Tasks come to an end -/

/-- The sections that a start has left when its backend calls return. -/
def StartPhase.left : StartPhase → Nat
  | .queued => 10
  | .kvStart => 9
  | .sandboxSpawn => 8
  | .waitReady => 7
  | .kvExtend => 6
  | .goLive => 5
  | .rollbackKv _ => 4
  | .rollbackSandbox _ _ => 3
  | .rollbackForget _ => 2
  | .settle _ => 1
  | .finished _ => 0

/-- The same of a kill. -/
def KillPhase.left : KillPhase → Nat
  | .queued => 4
  | .sandboxKill => 3
  | .kvKill => 2
  | .failed _ | .forget _ => 1
  | .finished _ => 0

def Task.left : Task → Nat
  | .start task => task.phase.left
  | .kill task => task.phase.left

theorem StartTask.afterReady_left (task : StartTask) : task.afterReady.left ≤ 6 := by
  unfold afterReady
  split <;> decide

theorem StartTask.afterSpawn_left (config : Config) (task : StartTask) : (task.afterSpawn config).left ≤ 7 := by
  unfold afterSpawn
  split
  · decide
  · split
    · decide
    · exact Nat.le_succ_of_le task.afterReady_left

theorem startStep_left {task : StartTask} {phase : StartPhase} (replied : env.reply = .returned)
    (taken : startStep config env shared task = some (after, phase)) : phase.left < task.phase.left := by
  cases startStep_move taken with
  | begins atPhase | goesLive atPhase | staysForking atPhase | forgets atPhase | staysRecorded atPhase | ends atPhase =>
    simp [atPhase, StartPhase.left]
  | calls atPhase call replies =>
    rw [atPhase]
    cases replies with
    | working impossible | raised impossible | refused impossible => cases replied.symm.trans impossible
    | returned =>
      cases call with
      | kvStart | kvExtend | rollbackKv => simp [StartPhase.left]
      | sandboxSpawn => exact Nat.lt_succ_of_le (task.afterSpawn_left config)
      | waitReady => exact Nat.lt_succ_of_le task.afterReady_left
      | rollbackSandbox => split <;> simp [StartPhase.left]

theorem killStep_left {task : KillTask} {phase : KillPhase} (replied : env.reply = .returned)
    (taken : killStep config env shared task = some (after, phase)) : phase.left < task.phase.left := by
  cases killStep_move taken with
  | refused atPhase | admitted atPhase | fails atPhase | forgets atPhase | staysRecorded atPhase =>
    simp [atPhase, KillPhase.left]
  | calls atPhase call replies =>
    rw [atPhase]
    cases replies with
    | working impossible | raised impossible | refused impossible => cases replied.symm.trans impossible
    | returned => cases call <;> simp [KillPhase.left]

theorem Task.step_left {task moved : Task} (replied : env.reply = .returned)
    (taken : task.step config env shared = some (after, moved)) : moved.left < task.left := by
  cases task with
  | start task =>
    obtain ⟨⟨_, phase⟩, isStep, equal⟩ := Option.map_eq_some_iff.1 taken
    cases equal
    exact startStep_left replied isStep
  | kill task =>
    obtain ⟨⟨_, phase⟩, isStep, equal⟩ := Option.map_eq_some_iff.1 taken
    cases equal
    exact killStep_left replied isStep

/-- A task that has not ended can take a step. -/
theorem Task.exists_step (config : Config) (env : Env) (shared : Shared) {task : Task} (unfinished : task.finished = false) :
    ∃ after moved, task.step config env shared = some (after, moved) := by
  cases task with
  | start task =>
    have taken : ∃ after phase, startStep config env shared task = some (after, phase) := by
      obtain ⟨branchId, parentId, tokens, phase⟩ := task
      unfold startStep
      cases phase with
      | queued | settle => exact ⟨_, _, rfl⟩
      | kvStart | sandboxSpawn | waitReady | kvExtend | rollbackKv | rollbackSandbox =>
        cases env.reply <;> exact ⟨_, _, rfl⟩
      | goLive | rollbackForget =>
        simp only
        split <;> exact ⟨_, _, rfl⟩
      | finished => cases unfinished
    obtain ⟨after, phase, taken⟩ := taken
    exact ⟨after, _, by rw [step, taken]; rfl⟩
  | kill task =>
    have taken : ∃ after phase, killStep config env shared task = some (after, phase) := by
      obtain ⟨branchId, allowClosing, phase⟩ := task
      unfold killStep
      cases phase with
      | queued | failed | forget => exact ⟨_, _, rfl⟩
      | sandboxKill | kvKill => cases env.reply <;> exact ⟨_, _, rfl⟩
      | finished => cases unfinished
    obtain ⟨after, phase, taken⟩ := taken
    exact ⟨after, _, by rw [step, taken]; rfl⟩

/-! ## Winding down -/

/-- Nobody calls, the backend call of the step returns and its registry write succeeds. -/
def State.WindsDown (_ : State) : Action → Prop
  | .invoke _ _ => False
  | .item _ _ env => env.reply = .returned ∧ env.persist = none
  | .advance _ => True

/-- A step of one task of a running call. -/
theorem State.item_step {c i : Nat} {call : Call} {task moved : Task} (atCall : state.calls[c]? = some call)
    (atItem : call.items[i]? = some task) (running : call.isOver = false)
    (allowed : task.queued = true → call.mayStart config i = true)
    (stepped : task.step config env state.shared = some (after, moved)) :
    state.Step config (.item c i env) ⟨after, state.calls.set c { call with items := call.items.set i moved }⟩ := by
  have free : ¬(call.isOver || (task.queued && !call.mayStart config i)) = true := by
    cases queued : task.queued with
    | false => simp [running]
    | true => simp [running, allowed queued]
  unfold Step step
  simp only [atCall, Option.bind_some, Call.stepItem, atItem, if_neg free, stepped, Option.map_some]

theorem State.advance_step {c : Nat} {call moved : Call} (atCall : state.calls[c]? = some call)
    (advanced : call.advance config state.shared = some (after, moved)) :
    state.Step config (.advance c) ⟨after, state.calls.set c moved⟩ := by
  unfold Step step
  simp only [atCall, Option.bind_some, advanced, Option.map_some]

theorem set_same {α : Type} {items : List α} {i : Nat} {item : α} (atItem : items[i]? = some item) :
    items.set i item = items := by
  obtain ⟨inside, rfl⟩ := List.getElem?_eq_some_iff.1 atItem
  exact List.set_getElem_self inside

/-- A task that may begin runs to its end; on the way there it keeps what each of its steps keeps. -/
theorem State.runs_item {kept : Shared → Task → Prop} {c i : Nat}
    (keeps : ∀ {shared after : Shared} {task moved : Task}, kept shared task →
      task.step config returns shared = some (after, moved) → kept after moved) :
    ∀ {state : State} {call : Call} {task : Task}, state.calls[c]? = some call → call.items[i]? = some task →
      call.isOver = false → (task.queued = true → call.mayStart config i = true) → kept state.shared task →
      ∃ shared last, last.finished = true ∧ kept shared last ∧ Reachable (Step config) WindsDown state
        ⟨shared, state.calls.set c { call with items := call.items.set i last }⟩ := by
  intro state call task
  generalize isLeft : task.left = left
  induction left using Nat.strong_induction_on generalizing state call task with
  | _ left inductionHypothesis =>
    intro atCall atItem running allowed holds
    cases ended : task.finished with
    | true =>
      refine ⟨state.shared, task, ended, holds, ?_⟩
      rw [set_same atItem, set_same atCall]
      exact .refl
    | false =>
      obtain ⟨after, moved, stepped⟩ := Task.exists_step config returns state.shared ended
      obtain ⟨insideCalls, _⟩ := List.getElem?_eq_some_iff.1 atCall
      obtain ⟨insideItems, _⟩ := List.getElem?_eq_some_iff.1 atItem
      have first := item_step atCall atItem running allowed stepped
      have begun : moved.queued = true → Call.mayStart config { call with items := call.items.set i moved } i = true :=
        fun queued => absurd (queued.symm.trans (Task.step_not_queued stepped)) nofun
      obtain ⟨shared, last, lastEnded, lastHolds, later⟩ := @inductionHypothesis moved.left
        (isLeft ▸ Task.step_left rfl stepped) ⟨after, state.calls.set c { call with items := call.items.set i moved }⟩
        _ moved rfl (List.getElem?_set_self insideCalls) (List.getElem?_set_self insideItems) running begun
        (keeps holds stepped)
      refine ⟨shared, last, lastEnded, lastHolds, ?_⟩
      simp only [List.set_set] at later
      exact (Reachable.tail .refl ⟨rfl, rfl⟩ first).trans later

/-! ## Children of a loop -/

/-- The exception with which a start is going to end. -/
def StartPhase.fault? : StartPhase → Option Fault
  | .rollbackKv fault | .rollbackSandbox fault _ | .rollbackForget fault => some fault
  | .settle (.error fault) | .finished (.error fault) => some fault
  | _ => none

/-- It is one that the fan-out does not catch. -/
def StartPhase.interrupted (phase : StartPhase) : Bool := phase.fault?.any fun fault => !fault.ordinary

/-- Neither the backend call nor the registry write of the step raises a `BaseException`. -/
def Env.ordinary (env : Env) : Bool :=
  (match env.reply with
    | .raised fault _ => fault.ordinary
    | _ => true) && env.persist.all Fault.ordinary

/-- A `BaseException` meets a child of a loop that is not the last one. -/
def State.interrupts (config : Config) (state : State) : Action → Bool
  | .item c i env =>
    match state.calls[c]? with
    | none => false
    | some call => !call.threaded config && decide (i + 1 ≠ call.items.length) && !env.ordinary &&
      (call.items[i]?.any Task.isStart)
  | _ => false

def State.Uninterrupted (config : Config) (state : State) (action : Action) : Prop :=
  state.interrupts config action = false

instance (config : Config) (state : State) (action : Action) : Decidable (state.Uninterrupted config action) :=
  inferInstanceAs (Decidable (_ = false))

theorem Env.ordinary_raised {fault : Fault} {tookEffect : Bool} (ordinary : env.ordinary = true)
    (replied : env.reply = .raised fault tookEffect) : fault.ordinary = true := by
  unfold Env.ordinary at ordinary
  rw [replied, Bool.and_eq_true] at ordinary
  exact ordinary.1

theorem Env.ordinary_persist {fault : Fault} (ordinary : env.ordinary = true) (failed : env.persist = some fault) :
    fault.ordinary = true := by
  unfold Env.ordinary at ordinary
  rw [failed, Bool.and_eq_true] at ordinary
  exact ordinary.2

theorem persist_error {failure : Option Fault} {fault : Fault}
    (raises : persist config failure shared = (.error fault, after)) : failure = some fault := by
  unfold persist at raises
  split at raises
  · split at raises
    · cases raises
      rfl
    · cases raises
  · cases raises

theorem forget_error {failure : Option Fault} {branchId : BranchId} {fault : Fault}
    (raises : shared.forget config failure branchId = (.error fault, after)) : failure = some fault := by
  unfold forget at raises
  simp only at raises
  split at raises
  · cases raises
  · next failed =>
    cases raises
    exact persist_error failed

theorem replaceBranch_error {failure : Option Fault} {branchId : BranchId} {change : Branch → Branch} {fault : Fault}
    (raises : shared.replaceBranch config failure branchId change = (.error fault, after)) :
    failure = some fault ∨ fault = .keyError branchId := by
  unfold replaceBranch at raises
  split at raises
  · cases raises
    exact .inr rfl
  · simp only at raises
    split at raises
    · cases raises
    · next failed =>
      cases raises
      exact .inl (persist_error failed)

theorem goLive_ordinary {task : StartTask} {fault : Fault} (ordinary : env.ordinary = true)
    (raises : goLive config env.persist task shared = (.error fault, after)) : fault.ordinary = true := by
  have replaced : ∀ {after : Shared}, shared.replaceBranch config env.persist task.branchId (setState .live) =
      (.error fault, after) → fault.ordinary = true := by
    intro after raises
    obtain failed | rfl := replaceBranch_error raises
    · exact env.ordinary_persist ordinary failed
    · rfl
  unfold goLive at raises
  split at raises
  · exact replaced raises
  · split at raises
    · exact replaced raises
    · cases raises
      rfl

theorem StartPhase.not_interrupted_of_ordinary {phase : StartPhase} {fault : Fault} (isFault : phase.fault? = some fault)
    (ordinary : fault.ordinary = true) : phase.interrupted = false := by
  rw [interrupted, isFault, Option.any_some, ordinary]
  rfl

theorem StartPhase.not_interrupted_of_none {phase : StartPhase} (noFault : phase.fault? = none) : phase.interrupted = false := by
  rw [interrupted, noFault]
  rfl

theorem StartTask.afterReady_fault (task : StartTask) : task.afterReady.fault? = none := by
  unfold afterReady
  split <;> rfl

theorem StartTask.afterSpawn_fault (config : Config) (task : StartTask) : (task.afterSpawn config).fault? = none := by
  unfold afterSpawn
  split
  · rfl
  · split
    · rfl
    · exact task.afterReady_fault

/-- A start keeps the exception that it is rolled back for, unless the cleanup raises another. -/
theorem startStep_uninterrupted {task : StartTask} {phase : StartPhase} (ordinary : env.ordinary = true)
    (calm : task.phase.interrupted = false) (taken : startStep config env shared task = some (after, phase)) :
    phase.interrupted = false := by
  cases startStep_move taken with
  | begins | goesLive => rfl
  | calls atPhase call replies =>
    rw [atPhase] at calm
    cases replies with
    | working => exact calm
    | returned =>
      cases call with
      | kvStart | kvExtend => rfl
      | sandboxSpawn => exact StartPhase.not_interrupted_of_none (task.afterSpawn_fault config)
      | waitReady => exact StartPhase.not_interrupted_of_none task.afterReady_fault
      | rollbackKv => exact calm
      | rollbackSandbox => split <;> exact calm
    | raised replied | refused replied =>
      have caught := env.ordinary_raised ordinary replied
      cases call with
      | kvStart | sandboxSpawn | waitReady | kvExtend => exact StartPhase.not_interrupted_of_ordinary rfl caught
      | rollbackKv | rollbackSandbox => exact calm
  | staysForking _ raises => exact StartPhase.not_interrupted_of_ordinary rfl (goLive_ordinary ordinary raises)
  | forgets atPhase =>
    rw [atPhase] at calm
    exact calm
  | staysRecorded _ raises =>
    exact StartPhase.not_interrupted_of_ordinary rfl (env.ordinary_persist ordinary (forget_error raises))
  | ends atPhase =>
    rw [atPhase] at calm
    rename_i outcome
    cases outcome <;> exact calm

def Op.isStart : Op → Bool
  | .createParent _ _ _ | .fork _ _ _ _ => true
  | _ => false

/-- What a call keeps about its tasks besides what its stage says about them. -/
structure Call.Steady (config : Config) (call : Call) : Prop where
  calm : ∀ i task, call.items[i]? = some (.start task) → call.threaded config = false →
    i + 1 ≠ call.items.length → task.phase.interrupted = false
  kills : call.op.isStart = false → ∀ task ∈ call.items, task.isStart = false
  starts : call.op.isStart = true → call.stage = .fanOut ∨ call.isOver = true
  retries : ∀ receipts pending, call.stage = .retry receipts pending → call.items ≠ []

theorem invoke_steady {op : Op} {call : Call} (invoked : invoke config env shared op = some (after, call)) :
    call.Steady config := by
  have started : ∀ {op : Op} {phase : StartPhase} {tokens : List Nat} {children : List Branch} {expired : List BranchId},
      op.isStart = true → phase.interrupted = false →
      Call.Steady config ⟨op, children.map (startTask phase tokens), .fanOut, expired⟩ := by
    intro op phase tokens children expired isStart calm
    refine ⟨fun i task atTask _ _ => ?_, fun notStart => absurd (isStart.symm.trans notStart) nofun, fun _ => .inl rfl, nofun⟩
    obtain ⟨child, _, isTask⟩ := List.mem_map.1 (List.mem_of_getElem? atTask)
    cases isTask
    exact calm
  have ended : ∀ {op : Op} {stage : Stage}, (op.isStart = true → stage = .fanOut ∨ Call.isOver ⟨op, [], stage, []⟩ = true) →
      (∀ receipts pending, stage ≠ .retry receipts pending) → Call.Steady config ⟨op, [], stage, []⟩ := by
    intro op stage starts notRetry
    exact ⟨fun _ _ atTask => absurd atTask.symm (Option.some_ne_none _),
      fun _ _ member => absurd member List.not_mem_nil, starts,
      fun receipts pending isRetry => absurd isRetry (notRetry receipts pending)⟩
  cases invoke_move invoked with
  | refused | renewLease | closed => exact ended (fun _ => .inr rfl) nofun
  | @createParent _ _ _ child => exact @started _ _ _ [child] _ rfl rfl
  | fork => exact started rfl rfl
  | closing | closes => exact ended nofun nofun
  | @kills _ victims _ listed =>
    have killing : ∀ task ∈ victims.map (killTask false), task.isStart = false :=
      fun task member => (kills_queued false victims task member).2
    refine ⟨fun i task atTask _ _ => ?_, fun _ => killing, fun _ => .inl rfl, nofun⟩
    cases killing _ (List.mem_of_getElem? atTask)

namespace Call.Steady

variable {call moved : Call}

theorem item (steady : call.Steady config) {i : Nat} {task stepped : Task} (atItem : call.items[i]? = some task)
    (calm : ∀ start, task = .start start → call.threaded config = false → i + 1 ≠ call.items.length → env.ordinary = true)
    (taken : task.step config env shared = some (after, stepped)) :
    Call.Steady config { call with items := call.items.set i stepped } := by
  obtain ⟨inside, _⟩ := List.getElem?_eq_some_iff.1 atItem
  have sameKind := Task.step_isStart taken
  constructor
  · intro j other atOther loop notLast
    simp only [threaded, List.length_set] at loop notLast
    by_cases here : i = j
    · subst here
      rw [List.getElem?_set_self inside] at atOther
      cases atOther
      cases task with
      | kill => cases sameKind
      | start task =>
        obtain ⟨⟨_, phase⟩, isStep, equal⟩ := Option.map_eq_some_iff.1 taken
        cases equal
        exact startStep_uninterrupted (calm task rfl loop notLast) (steady.calm i task atItem loop notLast) isStep
    · rw [List.getElem?_set_ne here] at atOther
      exact steady.calm j other atOther loop notLast
  · intro notStart other member
    obtain before | rfl := List.mem_or_eq_of_mem_set member
    · exact steady.kills notStart other before
    · exact sameKind.trans (steady.kills notStart task (List.mem_of_getElem? atItem))
  · exact steady.starts
  · intro receipts pending isRetry empty
    have nonempty := steady.retries receipts pending isRetry
    exact nonempty (List.length_eq_zero_iff.1 (by simpa using congrArg List.length empty))

/-- The stage of a call goes on while its tasks stay. -/
theorem goOn (steady : call.Steady config) {stage : Stage}
    (starts : call.op.isStart = true → stage = .fanOut ∨ isOver { call with stage := stage } = true)
    (notRetry : ∀ receipts pending, stage ≠ .retry receipts pending) :
    Call.Steady config { call with stage := stage } :=
  ⟨steady.calm, steady.kills, starts, fun receipts pending isRetry => absurd isRetry (notRetry receipts pending)⟩

/-- A call that kills gets more kills. -/
theorem more (steady : call.Steady config) {allowClosing : Bool} {branchIds : List BranchId} {stage : Stage}
    (notStart : call.op.isStart = false)
    (retries : ∀ receipts pending, stage = .retry receipts pending → branchIds ≠ []) :
    Call.Steady config { call with items := call.items ++ branchIds.map (killTask allowClosing), stage := stage } := by
  have kills : ∀ task ∈ call.items ++ branchIds.map (killTask allowClosing), task.isStart = false := by
    intro task member
    obtain old | new := List.mem_append.1 member
    · exact steady.kills notStart task old
    · exact (kills_queued allowClosing branchIds task new).2
  refine ⟨fun i task atTask _ _ => ?_, fun _ => kills, fun isStart => absurd (isStart.symm.trans notStart) nofun, ?_⟩
  · cases kills _ (List.mem_of_getElem? atTask)
  · intro receipts pending isRetry empty
    exact retries receipts pending isRetry (List.map_eq_nil_iff.1 (List.append_eq_nil_iff.1 empty).2)

theorem advance (steady : call.Steady config)
    (advanced : call.advance config shared = some (after, moved)) : moved.Steady config := by
  have notStart : call.stage ≠ .fanOut → call.isOver = false → call.op.isStart = false := by
    intro notFanOut running
    cases started : call.op.isStart with
    | false => rfl
    | true =>
      obtain fansOut | ended := steady.starts started
      · exact absurd fansOut notFanOut
      · cases running.symm.trans ended
  have stays : ∀ {stage : Stage}, call.stage = stage → stage ≠ .fanOut →
      isOver { call with stage := stage } = false → call.op.isStart = false := by
    intro stage atStage notFanOut running
    refine notStart (atStage ▸ notFanOut) ?_
    unfold isOver at running ⊢
    rw [atStage]
    exact running
  cases advance_move advanced with
  | fanOut _ _ _ move =>
    cases move with
    | sweeps isOp | reconciled isOp =>
      exact steady.goOn (fun isStart => absurd (isOp ▸ isStart) nofun) nofun
    | raised | reconcileRaised | closeRaised | started | forked | killed | renewed | reaped | closed =>
      exact steady.goOn (fun _ => .inr rfl) nofun
  | tally | retryRaised | follows => exact steady.goOn (fun _ => .inr rfl) nofun
  | sweep atStage move =>
    have notStart := stays atStage nofun rfl
    cases move with
    | ends => exact steady.goOn (fun _ => .inr rfl) nofun
    | reaped | gone => exact steady.goOn (fun isStart => absurd (isStart.symm.trans notStart) nofun) nofun
    | waits => exact steady
    | @killsAgain branchId => exact @more _ _ steady false [branchId] _ notStart fun _ _ _ => nofun
  | retried atStage =>
    have notStart := stays atStage nofun rfl
    exact steady.goOn (fun isStart => absurd (isStart.symm.trans notStart) nofun) nofun
  | drained atStage => exact steady.more (stays atStage nofun rfl) nofun

end Call.Steady

/-! ## Nobody waits in a circle -/

/-- Whom a call waits for there is: a mark has a task, `close` sweeps while the
orchestrator is closing, and it has been closed where a `close` has ended. -/
structure Unhindered (config : Config) (state : State) : Prop where
  draining : Draining config state
  steady : ∀ call ∈ state.calls, call.Steady config
  shaped : ∀ call ∈ state.calls, call.Shaped config
  closer : state.shared.closing = true → ∃ call ∈ state.calls, call.Closes
  follows : ∀ call ∈ state.calls, call.stage = .awaitClosed → state.shared.closing = true ∨ state.shared.closed = true
  closed : ∀ call ∈ state.calls, call.op = .close → call.isOver = true → state.shared.closed = true

theorem mem_set_of_ne {α : Type} {items : List α} {i : Nat} {item other : α} (atItem : items[i]? = some item)
    (member : other ∈ items) (differs : other ≠ item) (new : α) : other ∈ items.set i new := by
  obtain ⟨j, atOther⟩ := List.mem_iff_getElem?.1 member
  have elsewhere : i ≠ j := by
    rintro rfl
    exact differs (Option.some.inj (atOther.symm.trans atItem))
  exact List.mem_of_getElem? ((List.getElem?_set_ne elsewhere).trans atOther)

namespace Unhindered

/-- A run without such an exception attempts every child. -/
theorem attempts (unhindered : Unhindered config state) (action : Action) : state.Attempts config action := by
  unfold State.Attempts State.stopsEarly
  cases action with
  | invoke | advance => rfl
  | item c i env =>
    cases atCall : state.calls[c]? with
    | none => simp only [atCall]
    | some call =>
      simp only [atCall]
      split
      · next branchId parentId tokens fault atItem =>
        have steady := unhindered.steady call (List.mem_of_getElem? atCall)
        cases loop : call.threaded config with
        | true => rfl
        | false =>
          by_cases isLast : i + 1 = call.items.length
          · simp [isLast]
          · have calm := steady.calm i _ atItem loop isLast
            have ordinary : fault.ordinary = true := by simpa [StartPhase.interrupted, StartPhase.fault?] using calm
            rw [ordinary]
            exact Bool.and_false _
      · exact Bool.and_false _

theorem item (unhindered : Unhindered config state) {c i : Nat} {call : Call} {task moved : Task} {shared : Shared}
    (uninterrupted : state.Uninterrupted config (.item c i env)) (atCall : state.calls[c]? = some call)
    (atItem : call.items[i]? = some task) (running : call.isOver = false)
    (allowed : task.queued = true → call.mayStart config i = true)
    (stepped : task.step config env state.shared = some (shared, moved))
    (draining : Draining config ⟨shared, state.calls.set c { call with items := call.items.set i moved }⟩) :
    Unhindered config ⟨shared, state.calls.set c { call with items := call.items.set i moved }⟩ := by
  have member := List.mem_of_getElem? atCall
  obtain ⟨inside, _⟩ := List.getElem?_eq_some_iff.1 atCall
  obtain ⟨_, sameClosing, sameClosed⟩ := Task.step_continues stepped
  have calm : ∀ start, task = .start start → call.threaded config = false → i + 1 ≠ call.items.length →
      env.ordinary = true := by
    rintro start rfl loop notLast
    simpa [State.Uninterrupted, State.interrupts, atCall, loop, notLast, atItem, Task.isStart] using uninterrupted
  refine ⟨draining, ?_, ?_, ?_, ?_, ?_⟩
  · intro other isOther
    obtain before | rfl := List.mem_or_eq_of_mem_set isOther
    · exact unhindered.steady other before
    · exact (unhindered.steady call member).item atItem calm stepped
  · intro other isOther
    obtain before | rfl := List.mem_or_eq_of_mem_set isOther
    · exact unhindered.shaped other before
    · exact item_shaped (unhindered.shaped call member) atItem running allowed stepped
  · intro isClosing
    obtain ⟨closer, isCloser, closes⟩ := unhindered.closer (sameClosing.symm.trans isClosing)
    by_cases here : closer = call
    · subst here
      exact ⟨_, List.mem_of_getElem? (List.getElem?_set_self inside), closes⟩
    · exact ⟨closer, mem_set_of_ne atCall isCloser here _, closes⟩
  · intro other isOther waits
    simp only [sameClosing, sameClosed]
    obtain before | rfl := List.mem_or_eq_of_mem_set isOther
    · exact unhindered.follows other before waits
    · exact unhindered.follows call member waits
  · intro other isOther isClose ended
    simp only [sameClosed]
    obtain before | rfl := List.mem_or_eq_of_mem_set isOther
    · exact unhindered.closed other before isClose ended
    · exact unhindered.closed call member isClose ended

theorem invoke (unhindered : Unhindered config state) {op : Op} {call : Call} {shared : Shared}
    (invoked : Orchestrator.invoke config env state.shared op = some (shared, call))
    (draining : Draining config ⟨shared, state.calls ++ [call]⟩) : Unhindered config ⟨shared, state.calls ++ [call]⟩ := by
  have isOp := invoke_op invoked
  have flags : (op ≠ .close → shared.closing = state.shared.closing ∧ shared.closed = state.shared.closed) := by
    intro notClose
    obtain ⟨_, sameClosing, sameClosed⟩ := invoke_continues invoked notClose
    exact ⟨sameClosing, sameClosed⟩
  have stays : state.shared.closed = true → shared.closed = true := by
    intro wasClosed
    by_cases isClose : op = .close
    · subst isClose
      obtain ⟨_, rfl, _⟩ | ⟨_, _, rfl, _⟩ | ⟨_, _, rfl, _⟩ := invoke_close invoked <;> exact wasClosed
    · exact (flags isClose).2.trans wasClosed
  refine ⟨draining, ?_, ?_, ?_, ?_, ?_⟩
  · intro other isOther
    obtain before | new := List.mem_append.1 isOther
    · exact unhindered.steady other before
    · rw [List.mem_singleton.1 new]
      exact invoke_steady invoked
  · intro other isOther
    obtain before | new := List.mem_append.1 isOther
    · exact unhindered.shaped other before
    · rw [List.mem_singleton.1 new]
      exact invoke_shaped invoked
  · intro isClosing
    have keeps : state.shared.closing = true → ∃ closer ∈ state.calls ++ [call], closer.Closes := by
      intro wasClosing
      obtain ⟨closer, isCloser, closes⟩ := unhindered.closer wasClosing
      exact ⟨closer, List.mem_append_left _ isCloser, closes⟩
    by_cases isClose : op = .close
    · subst isClose
      obtain ⟨_, rfl, rfl⟩ | ⟨_, wasClosing, rfl, rfl⟩ | ⟨_, _, rfl, rfl⟩ := invoke_close invoked
      · exact keeps isClosing
      · exact keeps wasClosing
      · exact ⟨_, List.mem_append_right _ (List.mem_singleton_self _), rfl, .inl rfl⟩
    · exact keeps ((flags isClose).1.symm.trans isClosing)
  · intro other isOther waits
    obtain before | new := List.mem_append.1 isOther
    · obtain wasClosing | wasClosed := unhindered.follows other before waits
      · by_cases isClose : op = .close
        · subst isClose
          obtain ⟨_, rfl, _⟩ | ⟨_, _, rfl, _⟩ | ⟨_, _, rfl, _⟩ := invoke_close invoked
          · exact .inl wasClosing
          · exact .inl wasClosing
          · exact .inl rfl
        · exact .inl ((flags isClose).1.trans wasClosing)
      · exact .inr (stays wasClosed)
    · rw [List.mem_singleton.1 new] at waits
      cases invoke_move invoked with
      | refused | createParent | fork | renewLease | kills | closed | closes => cases waits
      | closing _ isClosing => exact .inl isClosing
  · intro other isOther isClose ended
    obtain before | new := List.mem_append.1 isOther
    · exact stays (unhindered.closed other before isClose ended)
    · rw [List.mem_singleton.1 new] at isClose ended
      rw [isOp] at isClose
      subst isClose
      obtain ⟨wasClosed, rfl, _⟩ | ⟨_, _, _, rfl⟩ | ⟨_, _, _, rfl⟩ := invoke_close invoked
      · exact wasClosed
      · cases ended
      · cases ended

theorem advance (unhindered : Unhindered config state) {c : Nat} {call moved : Call} {shared : Shared}
    (atCall : state.calls[c]? = some call) (advanced : call.advance config state.shared = some (shared, moved))
    (draining : Draining config ⟨shared, state.calls.set c moved⟩) : Unhindered config ⟨shared, state.calls.set c moved⟩ := by
  have member := List.mem_of_getElem? atCall
  obtain ⟨inside, _⟩ := List.getElem?_eq_some_iff.1 atCall
  have shaped := unhindered.shaped call member
  have isOp := advance_op advanced
  have steady : ∀ other ∈ state.calls.set c moved, other.Steady config := by
    intro other isOther
    obtain before | rfl := List.mem_or_eq_of_mem_set isOther
    · exact unhindered.steady other before
    · exact (unhindered.steady call member).advance advanced
  have allShaped : ∀ other ∈ state.calls.set c moved, other.Shaped config := by
    intro other isOther
    obtain before | rfl := List.mem_or_eq_of_mem_set isOther
    · exact unhindered.shaped other before
    · exact advance_shaped shaped advanced
  by_cases isClose : call.op = .close
  · cases advance_close advanced isClose (shaped.close isClose).1 with
    | sweep waited =>
      refine ⟨draining, steady, allShaped, fun _ => ?_, ?_, ?_⟩
      · exact ⟨_, List.mem_of_getElem? (List.getElem?_set_self inside), isClose, .inr rfl⟩
      · intro other isOther waits
        obtain before | rfl := List.mem_or_eq_of_mem_set isOther
        · exact unhindered.follows other before waits
        · cases waits
      · intro other isOther isClose ended
        obtain before | rfl := List.mem_or_eq_of_mem_set isOther
        · exact unhindered.closed other before isClose ended
        · cases ended
    | release =>
      exact ⟨draining, steady, allShaped, nofun, fun _ _ _ => .inr rfl, fun _ _ _ _ => rfl⟩
    | follow waited released =>
      refine ⟨draining, steady, allShaped, fun isClosing => ?_, fun _ _ _ => .inr released, fun _ _ _ _ => released⟩
      obtain ⟨closer, isCloser, closes⟩ := unhindered.closer isClosing
      refine ⟨closer, mem_set_of_ne atCall isCloser ?_ _, closes⟩
      rintro rfl
      rw [Call.Closes, waited] at closes
      obtain impossible | impossible := closes.2 <;> cases impossible
  · obtain ⟨notDraining, others⟩ := shaped.other isClose
    obtain ⟨sameClosing, sameClosed, _⟩ := advance_other advanced isClose notDraining others
    refine ⟨draining, steady, allShaped, ?_, ?_, ?_⟩
    · intro isClosing
      obtain ⟨closer, isCloser, closes⟩ := unhindered.closer (sameClosing.symm.trans isClosing)
      refine ⟨closer, mem_set_of_ne atCall isCloser ?_ _, closes⟩
      rintro rfl
      exact isClose closes.1
    · intro other isOther waits
      simp only [sameClosing, sameClosed]
      obtain before | rfl := List.mem_or_eq_of_mem_set isOther
      · exact unhindered.follows other before waits
      · cases Call.advance_move advanced with
        | fanOut _ _ _ move => cases move <;> cases waits
        | sweep atStage move =>
          cases move with
          | waits => exact unhindered.follows _ member waits
          | ends | reaped | gone | killsAgain => cases waits
        | tally | retryRaised | retried | drained | follows => cases waits
    · intro other isOther isOtherClose ended
      simp only [sameClosed]
      obtain before | rfl := List.mem_or_eq_of_mem_set isOther
      · exact unhindered.closed other before isOtherClose ended
      · exact absurd (isOp.symm.trans isOtherClose) isClose

theorem step (unhindered : Unhindered config state) (uninterrupted : state.Uninterrupted config action)
    (taken : state.Step config action next) : Unhindered config next := by
  have draining := unhindered.draining.step (unhindered.attempts action) taken
  cases State.Step.move taken with
  | item atCall atItem running allowed stepped =>
    exact unhindered.item uninterrupted atCall atItem running allowed stepped draining
  | journal _ _ _ _ invoked | invoke _ _ invoked => exact unhindered.invoke invoked draining
  | advance atCall _ _ _ advanced => exact unhindered.advance atCall advanced draining

theorem boot {world : World} (booted : Shared.boot config world = .ok shared) : Unhindered config (State.fresh shared) := by
  have isOpen : shared.closing = false := by
    unfold Shared.boot at booted
    simp only at booted
    split at booted
    · cases booted
    · cases booted
      rfl
  refine ⟨boot_draining booted, ?_, ?_, fun isClosing => ?_, ?_, ?_⟩
  · exact fun _ member => absurd member List.not_mem_nil
  · exact fun _ member => absurd member List.not_mem_nil
  · cases isOpen.symm.trans isClosing
  · exact fun _ member => absurd member List.not_mem_nil
  · exact fun _ member => absurd member List.not_mem_nil

end Unhindered

/-! ## What is left to do -/

/-- The sections that a call has ahead of it, its tasks aside; those of the sweep of
`close` are known only when the marks are gone. -/
def Call.ahead (call : Call) : Nat :=
  match call.stage with
  | .fanOut => call.items.length + 3
  | .sweep _ pending => pending.length + 1
  | .retry _ pending => pending.length + 2
  | .tally _ | .awaitClosed => 1
  | .draining | .finished _ => 0

def Call.drains (call : Call) : Nat :=
  match call.stage with
  | .draining => 1
  | _ => 0

def Call.rank (call : Call) : Nat × Nat × Nat := (call.drains, call.ahead, (call.items.map Task.left).sum)

def State.rank (state : State) : Nat × Nat × Nat :=
  ((state.calls.map Call.drains).sum, (state.calls.map Call.ahead).sum,
    (state.calls.map fun call => (call.items.map Task.left).sum).sum)

/-- Lexicographic: `close` may begin to sweep, a call may go on, a task may take a step. -/
abbrev Fewer : Nat × Nat × Nat → Nat × Nat × Nat → Prop := Prod.Lex (· < ·) (Prod.Lex (· < ·) (· < ·))

theorem wellFounded_fewer : WellFounded Fewer := (Prod.lex Nat.lt_wfRel (Prod.lex Nat.lt_wfRel Nat.lt_wfRel)).wf

theorem State.rank_set {c : Nat} {call moved : Call} (atCall : state.calls[c]? = some call)
    (fewer : Fewer moved.rank call.rank) (shared : Shared) : Fewer (rank ⟨shared, state.calls.set c moved⟩) state.rank := by
  have drains := sum_map_set atCall moved Call.drains
  have ahead := sum_map_set atCall moved Call.ahead
  have left := sum_map_set atCall moved fun call => (call.items.map Task.left).sum
  simp only [Fewer, Call.rank, rank, Prod.lex_def] at fewer ⊢
  omega

theorem Call.fewer_ahead {call moved : Call} (drains : moved.drains = call.drains) (ahead : moved.ahead < call.ahead) :
    Fewer moved.rank call.rank := by
  unfold rank
  rw [drains]
  exact .right _ (.left _ _ ahead)

theorem Call.finish_fewer {call : Call} (notDraining : call.stage ≠ .draining) (ahead : 0 < call.ahead)
    (outcome : Except Fault Value) : Fewer (call.finish outcome).rank call.rank := by
  have drains : call.drains = 0 := by
    unfold Call.drains
    split
    · next isDraining => exact absurd isDraining notDraining
    · rfl
  exact fewer_ahead drains.symm ahead

theorem Call.fanOut_fewer {call moved : Call} {fault : Option Fault} (atStage : call.stage = .fanOut)
    (move : FanOutMove shared call fault after moved) : Fewer moved.rank call.rank := by
  have notDraining : call.stage ≠ .draining := by
    rw [atStage]
    intro same
    cases same
  have drains : call.drains = 0 := by simp [Call.drains, atStage]
  have ahead : call.ahead = call.items.length + 3 := by simp [Call.ahead, atStage]
  cases move with
  | raised | reconcileRaised | closeRaised | started | forked | killed | renewed | reaped | closed =>
    exact finish_fewer notDraining (by omega) _
  | sweeps =>
    refine fewer_ahead drains.symm ?_
    rw [ahead]
    simp [Call.ahead]
  | reconciled =>
    refine fewer_ahead drains.symm ?_
    rw [ahead]
    exact Nat.one_lt_succ_succ _

/-! ## Somebody can always go on -/

/-- A loop comes to the first item that has not ended, and so does a pool. -/
theorem Call.exists_next {call : Call} (atStage : call.stage = .fanOut) (notEnded : call.fanOutEnded config = false) :
    ∃ i task, call.items[i]? = some task ∧ task.finished = false ∧ call.mayStart config i = true := by
  unfold fanOutEnded at notEnded
  rw [Bool.or_eq_false_iff, Bool.and_eq_false_iff, Bool.not_eq_false', List.any_eq_false] at notEnded
  obtain ⟨someLeft, noAbort⟩ := notEnded
  let i := call.items.findIdx fun task => !task.finished
  have inside : i < call.items.length := by
    refine List.findIdx_lt_length.2 ?_
    simpa using someLeft
  have earlier : ∀ task ∈ call.items.take i, task.finished = true := by
    intro task member
    obtain ⟨j, before, rfl⟩ := List.mem_take_iff_getElem.1 member
    have := List.not_of_lt_findIdx (lt_of_lt_of_le before (min_le_left _ _))
    simpa using this
  have unfinished : (call.items[i]).finished = false := by
    have := List.findIdx_getElem (w := inside)
    simpa using this
  refine ⟨i, call.items[i], List.getElem?_eq_getElem inside, unfinished, ?_⟩
  unfold mayStart
  simp only [atStage]
  split
  · -- the pool has no other task
    rw [Bool.and_eq_true, List.all_eq_true, decide_eq_true_eq]
    refine ⟨fun task member => by rw [Task.not_queued_of_finished (earlier task member)]; rfl, ?_⟩
    have nobody : ((call.items.take i).filter fun task => !task.finished) = [] := by
      rw [List.filter_eq_nil_iff]
      intro task member
      simp [earlier task member]
    rw [nobody]
    decide
  · next loop =>
    rw [List.all_eq_true]
    intro task member
    obtain isPool | noAbort := noAbort
    · exact absurd isPool loop
    · simp [earlier task member, noAbort task (List.mem_of_mem_take member)]

/-- A task that can take a step does so. -/
theorem State.goes_item {c i : Nat} {call : Call} {task : Task} (atCall : state.calls[c]? = some call)
    (atItem : call.items[i]? = some task) (running : call.isOver = false) (unfinished : task.finished = false)
    (allowed : task.queued = true → call.mayStart config i = true) :
    ∃ finish, Reachable (Step config) WindsDown state finish ∧ Fewer finish.rank state.rank := by
  obtain ⟨after, moved, stepped⟩ := Task.exists_step config returns state.shared unfinished
  have taken := item_step atCall atItem running allowed stepped
  refine ⟨_, .tail .refl (by exact ⟨rfl, rfl⟩) taken, rank_set atCall ?_ _⟩
  have fewer := sum_map_set atItem moved Task.left
  have left := Task.step_left rfl stepped
  refine .right _ (Prod.lex_def.2 (.inr ⟨?_, ?_⟩))
  · unfold Call.ahead
    simp only [List.length_set]
  · simp only
    omega

theorem State.goes_advance {c : Nat} {call moved : Call} (atCall : state.calls[c]? = some call)
    (advanced : call.advance config state.shared = some (after, moved)) (fewer : Fewer moved.rank call.rank) :
    ∃ finish, Reachable (Step config) WindsDown state finish ∧ Fewer finish.rank state.rank := by
  have taken := advance_step atCall advanced
  exact ⟨_, .tail .refl (by exact trivial) taken, rank_set atCall fewer _⟩

theorem State.goes_fanOut {c : Nat} {call : Call} (atCall : state.calls[c]? = some call)
    (atStage : call.stage = .fanOut) (ended : call.fanOutEnded config = true) :
    ∃ finish, Reachable (Step config) WindsDown state finish ∧ Fewer finish.rank state.rank := by
  have advanced : call.advance config state.shared = some (call.afterFanOut state.shared (Call.fanOutFault call.items)) := by
    unfold Call.advance
    simp only [atStage, ended, if_true]
  exact goes_advance atCall advanced (Call.fanOut_fewer atStage (Call.afterFanOut_move _ _ _))

theorem State.goes_draining {c : Nat} {call : Call} (atCall : state.calls[c]? = some call)
    (atStage : call.stage = .draining) (noMarks : state.shared.spawning = ∅ ∧ state.shared.killing = ∅) :
    ∃ finish, Reachable (Step config) WindsDown state finish ∧ Fewer finish.rank state.rank := by
  have advanced : call.advance config state.shared = some (state.shared, { call with
      items := call.items ++ state.shared.branches.keys.map (killTask true), stage := .fanOut }) := by
    unfold Call.advance
    simp only [atStage, if_pos noMarks]
  refine goes_advance atCall advanced (.left _ _ ?_)
  simp [Call.drains, atStage]

/-! ### One turn of the loop of kill_losers -/

/-- A kill that began where nobody works on the branch; a receipt of it says that the branch is gone. -/
def Task.Clears (branchId : BranchId) (shared : Shared) : Task → Prop
  | .start _ => False
  | .kill task => task.branchId = branchId ∧
    match task.phase with
    | .queued => branchId ∈ shared.branches ∧ branchId ∉ shared.spawning ∧ branchId ∉ shared.killing
    | .finished (.ok receipt) => receipt.branchId = branchId ∧ receipt.reaped = true
    | _ => True

theorem Task.Clears.step {branchId : BranchId} {task moved : Task} (clears : task.Clears branchId shared)
    (stepped : task.step config returns shared = some (after, moved)) : moved.Clears branchId after := by
  cases task with
  | start => exact clears.elim
  | kill task =>
    obtain ⟨⟨_, phase⟩, taken, equal⟩ := Option.map_eq_some_iff.1 stepped
    cases equal
    obtain ⟨branchId, allowClosing, earlier⟩ := task
    obtain ⟨rfl, holds⟩ := clears
    refine ⟨rfl, ?_⟩
    cases killStep_move taken with
    | @refused outcome _ atPhase refuses =>
      simp only at atPhase
      subst atPhase
      obtain ⟨recorded, notSpawning, notKilling⟩ := holds
      cases outcome with
      | error => exact trivial
      | ok receipt =>
        -- a kill that is let in has something to do
        cases opened : shared.ensureOpen allowClosing with
        | error fault =>
          simp only [admitKill, opened] at refuses
          cases refuses
        | ok =>
          have admits : (admitKill config none ⟨_, allowClosing, .queued⟩ shared).2 = .sandboxKill :=
            admitKill_unowned opened recorded notSpawning notKilling
          rw [show returns.persist = none from rfl] at refuses
          rw [refuses] at admits
          cases admits
    | calls _ call replies => cases call <;> cases replies <;> exact trivial
    | admitted | fails | staysRecorded => exact trivial
    | forgets => exact ⟨rfl, rfl⟩

/-- A kill that has ended has an exception or a receipt. -/
theorem Task.Clears.ended {branchId : BranchId} {task : Task} (clears : task.Clears branchId shared)
    (finished : task.finished = true) : (∃ fault, task.fault? = some fault) ∨
      task.fault? = none ∧ ∃ receipt, task.receipt? = some receipt ∧ receipt.branchId = branchId ∧ receipt.reaped = true := by
  cases task with
  | start => exact clears.elim
  | kill task =>
    obtain ⟨_, _, phase⟩ := task
    cases phase with
    | finished outcome =>
      cases outcome with
      | error fault => exact .inl ⟨fault, rfl⟩
      | ok receipt => exact .inr ⟨rfl, receipt, rfl, clears.2⟩
    | _ => cases finished

/-- The loop kills a loser again where nobody else does, and goes on to the next one. -/
theorem State.goes_killsAgain {c : Nat} {call : Call} {receipts : Dict BranchId KillReceipt} {branchId : BranchId}
    {pending : List BranchId} (atCall : state.calls[c]? = some call)
    (atStage : call.stage = .sweep receipts (branchId :: pending)) (recorded : branchId ∈ state.shared.branches)
    (notSpawning : branchId ∉ state.shared.spawning) (notKilling : branchId ∉ state.shared.killing)
    (advanced : call.advance config state.shared = some (state.shared, { call with
      items := call.items ++ [killTask false branchId], stage := .retry receipts (branchId :: pending) })) :
    ∃ finish, Reachable (Step config) WindsDown state finish ∧ Fewer finish.rank state.rank := by
  obtain ⟨inside, _⟩ := List.getElem?_eq_some_iff.1 atCall
  have notDraining : call.stage ≠ .draining := by
    rw [atStage]
    intro same
    cases same
  have drains : call.drains = 0 := by simp [Call.drains, atStage]
  have ahead : call.ahead = pending.length + 2 := by simp [Call.ahead, atStage]
  have first := advance_step atCall advanced
  have free : Task.Clears branchId state.shared (killTask false branchId) := ⟨rfl, recorded, notSpawning, notKilling⟩
  have atAgain : (state.calls.set c { call with
      items := call.items ++ [killTask false branchId], stage := .retry receipts (branchId :: pending) })[c]? = some _ :=
    List.getElem?_set_self inside
  obtain ⟨shared, last, ended, clears, killed⟩ := @State.runs_item config (Task.Clears branchId) c call.items.length
    Task.Clears.step ⟨state.shared, _⟩ _ _ atAgain List.getElem?_concat_length rfl (fun _ => rfl) free
  have reached : Reachable (Step config) WindsDown state _ := (Reachable.tail .refl (by exact trivial) first).trans killed
  have items : (call.items ++ [killTask false branchId]).set call.items.length last = call.items ++ [last] := by
    rw [List.set_append_right _ _ (Nat.le_refl _), Nat.sub_self]
    rfl
  rw [List.set_set, items] at reached
  have atRetry : (state.calls.set c { call with
      items := call.items ++ [last], stage := .retry receipts (branchId :: pending) })[c]? =
        some { call with items := call.items ++ [last], stage := .retry receipts (branchId :: pending) } :=
    List.getElem?_set_self inside
  obtain ⟨fault, faulted⟩ | ⟨noFault, receipt, isReceipt, isId, reaped⟩ := clears.ended ended
  · have raised : Call.advance config shared { call with
        items := call.items ++ [last], stage := .retry receipts (branchId :: pending) } =
          some (shared, Call.finish { call with items := call.items ++ [last] } (.error fault)) := by
      simp only [Call.advance, List.getLast?_concat, faulted]
      rfl
    have second := @advance_step config shared ⟨shared, _⟩ c _ _ atRetry raised
    refine ⟨_, reached.tail (by exact trivial) second, ?_⟩
    rw [List.set_set]
    refine rank_set atCall (Call.fewer_ahead (by exact drains.symm) ?_) _
    rw [ahead]
    exact Nat.succ_pos _
  · have retried : Call.advance config shared { call with
        items := call.items ++ [last], stage := .retry receipts (branchId :: pending) } =
          some (shared, { call with
            items := call.items ++ [last], stage := .sweep (receipts.insert branchId receipt) (branchId :: pending) }) := by
      simp only [Call.advance, List.getLast?_concat, noFault, isReceipt, isId]
    have second := @advance_step config shared ⟨shared, _⟩ c _ _ atRetry retried
    simp only [List.set_set] at second
    have skipped : Call.advance config shared { call with
        items := call.items ++ [last], stage := .sweep (receipts.insert branchId receipt) (branchId :: pending) } =
          some (shared, { call with
            items := call.items ++ [last], stage := .sweep (receipts.insert branchId receipt) pending }) := by
      simp only [Call.advance, Call.sweepNext, Dict.get?_insert, if_true, Option.any_some, reaped]
    have third := @advance_step config shared ⟨shared, _⟩ c _ _ (List.getElem?_set_self inside) skipped
    simp only [List.set_set] at third
    refine ⟨_, (reached.tail (by exact trivial) second).tail (by exact trivial) third, ?_⟩
    refine rank_set atCall (Call.fewer_ahead (by exact drains.symm) ?_) _
    rw [ahead]
    exact Nat.lt_succ_self _

/-! ## All calls end -/

namespace Unhindered

/-- Where no task can take a step, none of a running call is at work. -/
theorem unmarked (unhindered : Unhindered config state)
    (ended : ∀ call ∈ state.calls, call.stage = .fanOut → call.fanOutEnded config = true)
    (retried : ∀ call ∈ state.calls, ∀ receipts pending, call.stage = .retry receipts pending →
      ∀ task ∈ call.items, task.finished = true) :
    state.shared.spawning = ∅ ∧ state.shared.killing = ∅ := by
  have nobody : ∀ branchId, ¬(branchId ∈ state.shared.spawning ∨ branchId ∈ state.shared.killing) := by
    intro branchId marked
    obtain ⟨call, member, running, task, isTask, _, active⟩ := unhindered.draining.owner marked
    have coherent := unhindered.draining.coherent call member
    have inactive : task.active = false := by
      unfold Call.Coherent at coherent
      cases atStage : call.stage with
      | fanOut =>
        simp only [atStage] at coherent
        exact Call.inactive_of_ended coherent.1 coherent.2 (ended call member atStage) task isTask
      | retry receipts pending =>
        exact Task.inactive_of_finished (retried call member receipts pending atStage task isTask)
      | tally | sweep =>
        simp only [atStage] at coherent
        exact Task.inactive_of_finished (coherent task isTask)
      | draining | awaitClosed =>
        simp only [atStage] at coherent
        rw [coherent] at isTask
        cases isTask
      | finished =>
        unfold Call.isOver at running
        rw [atStage] at running
        cases running
    cases active.symm.trans inactive
  exact ⟨Finset.eq_empty_of_forall_notMem fun branchId member => nobody branchId (.inl member),
    Finset.eq_empty_of_forall_notMem fun branchId member => nobody branchId (.inr member)⟩

theorem goes_sweep (noMarks : state.shared.spawning = ∅ ∧ state.shared.killing = ∅) {c : Nat} {call : Call}
    {receipts : Dict BranchId KillReceipt} {pending : List BranchId} (atCall : state.calls[c]? = some call)
    (atStage : call.stage = .sweep receipts pending) :
    ∃ finish, Reachable (State.Step config) State.WindsDown state finish ∧ Fewer finish.rank state.rank := by
  have notDraining : call.stage ≠ .draining := by
    rw [atStage]
    intro same
    cases same
  have drains : call.drains = 0 := by simp [Call.drains, atStage]
  have ahead : call.ahead = pending.length + 1 := by simp [Call.ahead, atStage]
  have advanced : call.advance config state.shared = some (state.shared, call.sweepNext state.shared receipts pending) := by
    unfold Call.advance
    simp only [atStage]
  have move := Call.sweepNext_move state.shared call receipts pending
  generalize call.sweepNext state.shared receipts pending = moved at advanced move
  cases move with
  | ends => exact State.goes_advance atCall advanced (Call.finish_fewer notDraining (ahead ▸ Nat.succ_pos _) _)
  | reaped | gone =>
    refine State.goes_advance atCall advanced (Call.fewer_ahead drains.symm ?_)
    rw [ahead]
    exact Nat.lt_succ_self _
  | waits marked =>
    rw [noMarks.1, noMarks.2] at marked
    exact absurd marked (by simp)
  | killsAgain recorded free =>
    rw [not_or] at free
    exact State.goes_killsAgain atCall atStage recorded free.1 free.2 advanced

/-- The kill of a loser has ended, so the loop goes on. -/
theorem goes_retry (unhindered : Unhindered config state) {c : Nat} {call : Call} {receipts : Dict BranchId KillReceipt}
    {pending : List BranchId} (atCall : state.calls[c]? = some call) (atStage : call.stage = .retry receipts pending)
    (finished : ∀ task ∈ call.items, task.finished = true) :
    ∃ finish, Reachable (State.Step config) State.WindsDown state finish ∧ Fewer finish.rank state.rank := by
  have steady := unhindered.steady call (List.mem_of_getElem? atCall)
  have notStart : call.op.isStart = false := by
    cases started : call.op.isStart with
    | false => rfl
    | true => obtain impossible | ended := steady.starts started <;> simp_all [Call.isOver]
  have drains : call.drains = 0 := by simp [Call.drains, atStage]
  have ahead : call.ahead = pending.length + 2 := by simp [Call.ahead, atStage]
  obtain ⟨last, isLast⟩ := Option.ne_none_iff_exists'.1 fun none =>
    steady.retries receipts pending atStage (List.getLast?_eq_none_iff.1 none)
  have member := List.mem_of_getLast? isLast
  have ended := finished last member
  have isKill := steady.kills notStart last member
  obtain ⟨_, _, phase⟩ | ⟨branchId, allowClosing, phase⟩ := last
  · cases isKill
  · cases phase with
    | finished outcome =>
      cases outcome with
      | error fault =>
        have raised : call.advance config state.shared = some (state.shared, call.finish (.error fault)) := by
          simp only [Call.advance, atStage, isLast, Task.fault?]
        refine State.goes_advance atCall raised (Call.finish_fewer ?_ (ahead ▸ Nat.succ_pos _) _)
        rw [atStage]
        intro same
        cases same
      | ok receipt =>
        have retried : call.advance config state.shared = some (state.shared, { call with
            stage := .sweep (receipts.insert receipt.branchId receipt) pending }) := by
          simp only [Call.advance, atStage, isLast, Task.fault?, Task.receipt?]
        refine State.goes_advance atCall retried (Call.fewer_ahead drains.symm ?_)
        rw [ahead]
        exact Nat.lt_succ_self _
    | _ => cases ended

/-- As long as a call runs, some call gets ahead. -/
theorem goes (unhindered : Unhindered config state) (notDone : ¬ ∀ call ∈ state.calls, call.isOver = true) :
    ∃ finish, Reachable (State.Step config) State.WindsDown state finish ∧ Fewer finish.rank state.rank := by
  by_cases busy : ∃ (c i : Nat) (call : Call) (task : Task), state.calls[c]? = some call ∧ call.items[i]? = some task ∧
      call.isOver = false ∧ task.finished = false ∧ (task.queued = true → call.mayStart config i = true)
  · obtain ⟨c, i, call, task, atCall, atItem, running, unfinished, allowed⟩ := busy
    exact State.goes_item atCall atItem running unfinished allowed
  · have ended : ∀ call ∈ state.calls, call.stage = .fanOut → call.fanOutEnded config = true := by
      intro call member atStage
      cases ended : call.fanOutEnded config with
      | true => rfl
      | false =>
        obtain ⟨c, atCall⟩ := List.mem_iff_getElem?.1 member
        obtain ⟨i, task, atItem, unfinished, allowed⟩ := Call.exists_next atStage ended
        have running : call.isOver = false := by simp [Call.isOver, atStage]
        exact absurd ⟨c, i, call, task, atCall, atItem, running, unfinished, fun _ => allowed⟩ busy
    have retried : ∀ call ∈ state.calls, ∀ receipts pending, call.stage = .retry receipts pending →
        ∀ task ∈ call.items, task.finished = true := by
      intro call member receipts pending atStage task isTask
      cases finished : task.finished with
      | true => rfl
      | false =>
        obtain ⟨c, atCall⟩ := List.mem_iff_getElem?.1 member
        obtain ⟨i, atItem⟩ := List.mem_iff_getElem?.1 isTask
        have running : call.isOver = false := by simp [Call.isOver, atStage]
        have allowed : call.mayStart config i = true := by simp [Call.mayStart, atStage]
        exact absurd ⟨c, i, call, task, atCall, atItem, running, finished, fun _ => allowed⟩ busy
    have noMarks := unhindered.unmarked ended retried
    have closes : ∀ closer ∈ state.calls, closer.Closes →
        ∃ finish, Reachable (State.Step config) State.WindsDown state finish ∧ Fewer finish.rank state.rank := by
      rintro closer member ⟨_, atStage | atStage⟩
      · obtain ⟨c, atCall⟩ := List.mem_iff_getElem?.1 member
        exact State.goes_draining atCall atStage noMarks
      · obtain ⟨c, atCall⟩ := List.mem_iff_getElem?.1 member
        exact State.goes_fanOut atCall atStage (ended closer member atStage)
    obtain ⟨call, member, running⟩ : ∃ call ∈ state.calls, ¬ call.isOver = true := by simpa using notDone
    obtain ⟨c, atCall⟩ := List.mem_iff_getElem?.1 member
    cases atStage : call.stage with
    | fanOut => exact State.goes_fanOut atCall atStage (ended call member atStage)
    | draining => exact State.goes_draining atCall atStage noMarks
    | sweep receipts pending => exact goes_sweep noMarks atCall atStage
    | retry receipts pending => exact unhindered.goes_retry atCall atStage (retried call member receipts pending atStage)
    | tally receipts =>
      refine State.goes_advance atCall (by unfold Call.advance; simp only [atStage]; rfl) (Call.finish_fewer ?_ ?_ _)
      · rw [atStage]
        intro same
        cases same
      · simp [Call.ahead, atStage]
    | awaitClosed =>
      -- the call that closes gets ahead, or it is done
      obtain isClosing | isClosed := unhindered.follows call member atStage
      · obtain ⟨closer, isCloser, closing⟩ := unhindered.closer isClosing
        exact closes closer isCloser closing
      · refine State.goes_advance atCall (by unfold Call.advance; simp only [atStage, if_pos isClosed]; rfl)
          (Call.finish_fewer ?_ ?_ _)
        · rw [atStage]
          intro same
          cases same
        · simp [Call.ahead, atStage]
    | finished outcome =>
      unfold Call.isOver at running
      rw [atStage] at running
      exact absurd rfl running

end Unhindered

/-- Nobody runs any more: no id is in `_spawning` or `_killing`, and where somebody has
called `close` the orchestrator is closed. -/
structure State.Wound (state : State) : Prop where
  ended : ∀ call ∈ state.calls, call.isOver = true
  unmarked : state.shared.spawning = ∅ ∧ state.shared.killing = ∅
  closed : ∀ call ∈ state.calls, call.op = .close → state.shared.closed = true

theorem State.WindsDown.uninterrupted (windsDown : state.WindsDown action) : state.Uninterrupted config action := by
  unfold Uninterrupted interrupts
  cases action with
  | invoke | advance => rfl
  | item c i env =>
    obtain ⟨replied, written⟩ := windsDown
    have ordinary : env.ordinary = true := by
      unfold Env.ordinary
      rw [replied, written]
      rfl
    cases atCall : state.calls[c]? with
    | none => simp only [atCall]
    | some call => simp [atCall, ordinary]

/-- A run that winds down has the calls it begins with. -/
theorem State.WindsDown.ops {finish : State} (reached : Reachable (State.Step config) State.WindsDown state finish) :
    finish.calls.map Call.op = state.calls.map Call.op := by
  refine reached.invariant (motive := fun middle => middle.calls.map Call.op = state.calls.map Call.op) rfl
    fun before action after same windsDown taken => ?_
  have kept : ∀ {c : Nat} {call moved : Call}, before.calls[c]? = some call → moved.op = call.op →
      (before.calls.set c moved).map Call.op = before.calls.map Call.op := by
    intro c call moved atCall sameOp
    rw [List.map_set, sameOp]
    exact set_same (by rw [List.getElem?_map, atCall]; rfl)
  cases State.Step.move taken with
  | @item c i env call task moved shared atCall =>
    have sameOp : ({ call with items := call.items.set i moved } : Call).op = call.op := rfl
    exact (kept atCall sameOp).trans same
  | journal | invoke => exact windsDown.elim
  | advance atCall _ _ _ advanced => exact (kept atCall (advance_op advanced)).trans same

theorem Unhindered.can_end (unhindered : Unhindered config state) :
    ∃ finish, Reachable (State.Step config) State.WindsDown state finish ∧ Unhindered config finish ∧
      ∀ call ∈ finish.calls, call.isOver = true := by
  have stays : ∀ before action after, Unhindered config before → before.WindsDown action →
      before.Step config action after → Unhindered config after :=
    fun _ _ _ unhindered windsDown taken => unhindered.step windsDown.uninterrupted taken
  obtain ⟨finish, onward, ended⟩ := exists_of_rank wellFounded_fewer State.rank stays
    (fun _ unhindered notDone => unhindered.goes notDone) unhindered
  exact ⟨finish, onward, onward.invariant unhindered stays, ended⟩

/-- If no `BaseException` has met a child of a serial loop other than its last, then once
nobody calls any more and the backends answer, all the calls there are can end, and no
id is left in `_spawning` or `_killing`. -/
theorem calls_can_end {world : World} (booted : Shared.boot config world = .ok shared)
    (reached : Reachable (State.Step config) (State.Uninterrupted config) (State.fresh shared) state) :
    ∃ finish, Reachable (State.Step config) State.WindsDown state finish ∧
      finish.calls.map Call.op = state.calls.map Call.op ∧ finish.Wound := by
  have unhindered : Unhindered config state :=
    reached.invariant (.boot booted) fun _ _ _ unhindered uninterrupted taken => unhindered.step uninterrupted taken
  obtain ⟨finish, onward, unhinderedAfter, ended⟩ := unhindered.can_end
  refine ⟨finish, onward, State.WindsDown.ops onward, ended, unhinderedAfter.unmarked ?_ ?_, fun call member isClose =>
    unhinderedAfter.closed call member isClose (ended call member)⟩
  · intro call member atStage
    have isOver := ended call member
    simp [Call.isOver, atStage] at isOver
  · intro call member receipts pending atStage
    have isOver := ended call member
    simp [Call.isOver, atStage] at isOver

/-- A fork is rolled back while `kill_losers` runs, one `close` waits for its mark and another for that `close`. -/
def crowdedClose : List Action :=
  [.invoke (.createParent "p" [] none) returns, .item 0 0 returns, .item 0 0 returns, .item 0 0 returns,
    .item 0 0 returns, .advance 0, .invoke (.fork "p" 2 (some ["a", "b"]) none) returns, .item 1 0 returns,
    .item 1 0 (raises .exception), .invoke (.killLosers "p") returns, .invoke .close returns, .invoke .close returns,
    .item 2 0 returns]

theorem crowdedClose_can_end : ∃ finish, Reachable (State.Step serialConfig) State.WindsDown (serialRun crowdedClose) finish ∧
    finish.calls.map Call.op = (serialRun crowdedClose).calls.map Call.op ∧ finish.Wound :=
  calls_can_end boot_blank (serialRun_reachable (by decide) (by decide))

end Agentfork.Orchestrator

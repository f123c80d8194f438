import Agentfork.Orchestrator.Leases

/-! # What the collectors collect

`reap_expired` and `reconcile` list their candidates in one section and kill them
one by one afterwards, and the section of `_kill` that journals the intent does
not look at the reason again. A candidate still deserves to be killed when its
turn comes as long as its lease is not renewed and its id not journaled anew
while it waits, the clock does not go back, and nobody journals an id that still
is in `_spawning`. -/

namespace Agentfork.Orchestrator

open Shared Transition

/-! ## Time -/

/-- The orchestrator with the clock as it was last read. -/
structure Timed where
  state : State
  clock : Int

/-- The clock in a step. -/
def Action.now (clock : Int) : Action → Int
  | .invoke _ env | .item _ _ env => env.now
  | .advance _ => clock

namespace Timed

def step (config : Config) (timed : Timed) (action : Action) : Option Timed :=
  (timed.state.step config action).map fun after => ⟨after, action.now timed.clock⟩

def Step (config : Config) (before : Timed) (action : Action) (after : Timed) : Prop :=
  before.step config action = some after

theorem Step.state {config : Config} {before after : Timed} {action : Action}
    (taken : before.Step config action after) :
    before.state.Step config action after.state ∧ after.clock = action.now before.clock := by
  obtain ⟨next, stepped, rfl⟩ := Option.map_eq_some_iff.1 taken
  exact ⟨stepped, rfl⟩

end Timed

/-! ## Candidates -/

namespace Call

def collects (call : Call) : Bool :=
  match call.op with
  | .reapExpired | .reconcile => true
  | _ => false

/-- The call has listed the id for its lease. -/
def forLease (call : Call) (branchId : BranchId) : Bool :=
  match call.op with
  | .reapExpired => true
  | .reconcile => decide (branchId ∈ call.expired)
  | _ => false

/-- The candidates that a running collector has not taken up yet. -/
def waiting (call : Call) : List BranchId :=
  if call.collects && !call.isOver then (call.items.filter Task.queued).map Task.branchId else []

theorem mem_waiting {call : Call} {branchId : BranchId} : branchId ∈ call.waiting ↔
    call.collects = true ∧ call.isOver = false ∧
      ∃ task ∈ call.items, task.queued = true ∧ task.branchId = branchId := by
  unfold waiting
  split
  · next running =>
    rw [Bool.and_eq_true, Bool.not_eq_true'] at running
    simp [running, and_assoc]
  · next notRunning =>
    rw [Bool.and_eq_true, Bool.not_eq_true'] at notRunning
    simp only [List.not_mem_nil, false_iff]
    exact fun member => notRunning ⟨member.1, member.2.1⟩

end Call

namespace State

def waiting (state : State) : List BranchId := state.calls.flatMap Call.waiting

def waitingForLease (state : State) : List BranchId :=
  state.calls.flatMap fun call => call.waiting.filter call.forLease

/-- The ids whose lease a step renews. -/
def renews (config : Config) (state : State) : Action → List BranchId
  | .invoke op env => renewed config env state.shared op
  | _ => []

end State

/-- The step leaves alone what a running collector has decided. -/
structure Timed.Undisturbed (config : Config) (timed : Timed) (action : Action) : Prop where
  monotone : timed.clock ≤ action.now timed.clock
  unmarked : timed.state.Unmarked config action
  notRecreated : ∀ branchId ∈ timed.state.journals config action, branchId ∉ timed.state.waiting
  notRenewed : ∀ branchId ∈ timed.state.renews config action, branchId ∉ timed.state.waitingForLease

instance (config : Config) (timed : Timed) (action : Action) :
    Decidable (timed.Undisturbed config action) :=
  decidable_of_iff (timed.clock ≤ action.now timed.clock ∧ timed.state.Unmarked config action ∧
      (∀ branchId ∈ timed.state.journals config action, branchId ∉ timed.state.waiting) ∧
      ∀ branchId ∈ timed.state.renews config action, branchId ∉ timed.state.waitingForLease)
    ⟨fun ⟨monotone, unmarked, created, renewed⟩ => ⟨monotone, unmarked, created, renewed⟩,
      fun undisturbed => ⟨undisturbed.1, undisturbed.2, undisturbed.3, undisturbed.4⟩⟩

/-! ## Reasons -/

/-- Why a collector may kill a branch. -/
inductive Qualifies (now : Int) (state : State) (branchId : BranchId) (branch : Branch) : Prop where
  | lapsed (expired : lapsed now branch = true)
  | leftover (midway : branch.state = .forking ∨ branch.state = .killing)
      (nobody : ∀ index task, state.task? index = some task → task.active = true → task.branchId ≠ branchId)
  | loaded (previousOwner : branchId ∈ state.shared.loaded)

/-- In a step that takes up a candidate of a collector and journals the intent to
kill it, the candidate qualifies, and for its lease if it is listed for that. -/
def State.CollectsQualified (config : Config) (state : State) (action : Action) : Prop :=
  ∀ c i env call task branch after, action = .item c i env → state.calls[c]? = some call →
    call.collects = true → call.isOver = false → call.items[i]? = some (.kill task) → task.phase = .queued →
    state.shared.branches.get? task.branchId = some branch →
    killStep config env state.shared task = some (after, .sandboxKill) →
      Qualifies env.now state task.branchId branch ∧
        (call.forLease task.branchId = true → lapsed env.now branch = true)

/-! ## What a listed id shows -/

namespace Shared

/-- Whatever is recorded under the id has lapsed. -/
def Lapsed (clock : Int) (branchId : BranchId) (shared : Shared) : Prop :=
  ∀ branch, shared.branches.get? branchId = some branch → lapsed clock branch = true

/-- Nobody starts the id, and it is loaded or not live. -/
def Leftover (branchId : BranchId) (shared : Shared) : Prop :=
  branchId ∉ shared.spawning ∧ (branchId ∈ shared.loaded ∨ shared.isLive branchId = false)

end Shared

def Call.Justified (clock : Int) (shared : Shared) (call : Call) : Prop :=
  ∀ branchId ∈ call.waiting, (call.forLease branchId = true → shared.Lapsed clock branchId) ∧
    (call.forLease branchId = false → shared.Leftover branchId)

variable {config : Config} {env : Env} {shared after : Shared}

theorem lapsed_later {branch : Branch} {earlier later : Int} (notBack : earlier ≤ later)
    (isLapsed : lapsed earlier branch = true) : lapsed later branch = true := by
  unfold lapsed at isLapsed ⊢
  cases expiry : branch.leaseExpiresAt with
  | none => rw [expiry] at isLapsed; cases isLapsed
  | some expiry =>
    simp only [expiry, Option.any_some, decide_eq_true_eq] at isLapsed ⊢
    omega

/-! ### Listing -/

theorem mem_expired (keyed : Keyed shared.branches) {now : Int} {branchId : BranchId}
    (member : branchId ∈ shared.expired now) : shared.Lapsed now branchId := by
  intro branch found
  obtain ⟨listed, isListed, rfl⟩ := List.mem_map.1 member
  obtain ⟨isValue, qualified⟩ := List.mem_filter.1 isListed
  obtain ⟨key, stored⟩ := Dict.mem_values.1 isValue
  rw [keyed key listed stored, stored, Option.some.injEq] at found
  rw [Bool.and_eq_true] at qualified
  exact found ▸ qualified.1

theorem mem_expiredUnowned (keyed : Keyed shared.branches) {now : Int} {stuck : List BranchId}
    {branchId : BranchId} (member : branchId ∈ shared.expiredUnowned now stuck) :
    shared.Lapsed now branchId := by
  intro branch found
  obtain ⟨listed, isListed, rfl⟩ := List.mem_map.1 member
  obtain ⟨isValue, qualified⟩ := List.mem_filter.1 isListed
  obtain ⟨key, stored⟩ := Dict.mem_values.1 isValue
  rw [keyed key listed stored, stored, Option.some.injEq] at found
  rw [Bool.and_eq_true, Bool.and_eq_true] at qualified
  exact found ▸ qualified.1.1

theorem mem_stuck (keyed : Keyed shared.branches) {order : List BranchId}
    (isOrder : order.toFinset = shared.loaded) {branchId : BranchId}
    (member : branchId ∈ shared.stuck order) : shared.Leftover branchId := by
  have notSpawning : shared.unowned branchId = true → branchId ∉ shared.spawning :=
    fun unowned => (of_decide_eq_true unowned).1
  obtain midway | loaded := List.mem_append.1 member
  · obtain ⟨listed, isListed, rfl⟩ := List.mem_map.1 midway
    obtain ⟨isValue, qualified⟩ := List.mem_filter.1 isListed
    obtain ⟨key, stored⟩ := Dict.mem_values.1 isValue
    rw [Bool.and_eq_true, decide_eq_true_eq] at qualified
    refine ⟨notSpawning qualified.2, .inr ?_⟩
    rw [isLive, keyed key listed stored, stored, Option.any_some]
    exact decide_eq_false qualified.1
  · obtain ⟨isLoaded, qualified⟩ := List.mem_filter.1 loaded
    rw [Bool.and_eq_true] at qualified
    refine ⟨notSpawning qualified.2, .inl ?_⟩
    rw [← isOrder]
    exact List.mem_toFinset.2 isLoaded

theorem invoke_justified (keyed : Keyed shared.branches) {op : Op} {call : Call}
    (invoked : invoke config env shared op = some (after, call)) : call.Justified env.now after := by
  intro branchId member
  obtain ⟨collects, running, task, isTask, _, same⟩ := Call.mem_waiting.1 member
  have isOp := invoke_op invoked
  cases invoke_move invoked with
  | refused | renewLease | closed | closing | closes => cases isTask
  | createParent | fork => cases collects
  | kills listed =>
    obtain ⟨victim, isListed, rfl⟩ := List.mem_map.1 isTask
    have same : victim = branchId := same
    subst same
    cases listed with
    | kill | killLosers => cases collects
    | reapExpired => exact ⟨fun _ => mem_expired keyed isListed, nofun⟩
    | reconcile _ isOrder =>
      refine ⟨fun expired => ?_, fun notExpired => ?_⟩
      · exact mem_expiredUnowned keyed (of_decide_eq_true expired)
      · obtain stuck | expired := List.mem_append.1 isListed
        · exact mem_stuck keyed isOrder.2 stuck
        · exact absurd expired (of_decide_eq_false notExpired)

/-! ### What a step leaves of it -/

/-- A record that is neither journaled nor renewed in a step keeps its lease. -/
theorem State.Step.lapsed {before next : State} {action : Action} {clock : Int} {branchId : BranchId}
    (taken : before.Step config action next) (notJournaled : branchId ∉ before.journals config action)
    (notRenewed : branchId ∉ before.renews config action) (isLapsed : before.shared.Lapsed clock branchId) :
    next.shared.Lapsed clock branchId := by
  have ofSame : next.shared.branches.get? branchId = before.shared.branches.get? branchId →
      next.shared.Lapsed clock branchId := fun same branch found => isLapsed branch (same.symm.trans found)
  have ofMove : ∀ {key state}, RecordMove key state before.shared next.shared branchId →
      next.shared.Lapsed clock branchId := by
    intro key state move branch found
    obtain ⟨previous, stored, sameLease⟩ := move.lease found
    have previousLapsed := isLapsed previous stored
    unfold Shared.lapsed at previousLapsed ⊢
    rw [← sameLease]
    exact previousLapsed
  unfold State.journals at notJournaled
  rw [show before.step config action = some next from taken] at notJournaled
  cases State.Step.move taken with
  | @item _ _ _ _ task _ _ _ _ _ _ stepped =>
    cases task with
    | start task =>
      obtain ⟨⟨_, phase⟩, startTaken, equal⟩ := Option.map_eq_some_iff.1 stepped
      cases equal
      exact ofMove (startStep_record startTaken branchId)
    | kill task =>
      obtain ⟨⟨_, phase⟩, killTaken, equal⟩ := Option.map_eq_some_iff.1 stepped
      cases equal
      exact ofMove (killStep_record killTaken branchId)
  | journal _ _ _ _ invoked => exact ofSame (invoke_record invoked notJournaled notRenewed)
  | invoke _ _ invoked => exact ofSame (invoke_record invoked notJournaled notRenewed)
  | advance _ _ _ _ advanced =>
    refine ofSame ?_
    rw [advance_branches advanced]

theorem isLive_of_record {state : BranchState} {branch : Branch} {branchId : BranchId}
    (found : shared.branches.get? branchId = some (setState state branch)) (notLive : state ≠ .live) :
    shared.isLive branchId = false := by
  rw [isLive, found, Option.any_some]
  exact decide_eq_false notLive

/-- A leftover stays one until its id is journaled anew: nobody is there to make
it live. -/
theorem Disciplined.leftover {origin : Finset BranchId} {before next : State} {action : Action}
    {branchId : BranchId} (disciplined : Disciplined config origin before)
    (taken : before.Step config action next) (notJournaled : branchId ∉ before.journals config action)
    (isLeftover : before.shared.Leftover branchId) : next.shared.Leftover branchId := by
  obtain ⟨notSpawning, reason⟩ := isLeftover
  constructor
  · intro marked
    obtain ⟨more, history, marks⟩ := State.Step.history taken
    unfold State.journals at notJournaled
    rw [show before.step config action = some next from taken] at notJournaled
    simp only [history, List.drop_left] at notJournaled
    exact (marks branchId marked).elim notSpawning notJournaled
  · have ofView : (∀ origin, next.shared.view origin branchId = before.shared.view origin branchId) →
        branchId ∈ next.shared.loaded ∨ next.shared.isLive branchId = false := by
      intro sameView
      obtain loaded | notLive := reason
      · exact .inl ((congrArg View.loaded (sameView ∅)).mpr loaded)
      · refine .inr ?_
        have sameRecord := congrArg View.record (sameView ∅)
        simp only [view] at sameRecord
        unfold isLive at notLive ⊢
        cases was : before.shared.branches.get? branchId <;>
          cases is : next.shared.branches.get? branchId <;> simp_all
    have ofMove : ∀ {key state}, RecordMove key state before.shared next.shared branchId →
        (branchId = key → state ≠ .live) → branchId ∈ next.shared.loaded ∨ next.shared.isLive branchId = false := by
      intro key state move notMadeLive
      cases move with
      | kept record loaded =>
        refine reason.imp loaded fun notLive => ?_
        rw [isLive, record]
        exact notLive
      | moved here _ record _ => exact .inr (isLive_of_record record (notMadeLive here))
      | forgotten record => exact .inr (by rw [isLive, record]; rfl)
    cases State.Step.move taken with
    | @item c i _ _ task _ _ atCall atItem _ _ stepped =>
      have found : before.task? (c, i) = some task := (taskAt_of_call atCall i).trans atItem
      cases task with
      | start task =>
        obtain ⟨⟨_, phase⟩, startTaken, equal⟩ := Option.map_eq_some_iff.1 stepped
        cases equal
        -- a start that takes a step has marked its id
        have active : (Task.start task).active = true := active_start.2 (startStep_unfinished startTaken)
        have spawning := StartOwns.spawning (disciplined.owned.owns (c, i) _ found active)
        refine ofMove (startStep_record startTaken branchId) fun here => ?_
        rw [here] at notSpawning
        exact absurd spawning notSpawning
      | kill task =>
        obtain ⟨⟨_, phase⟩, killTaken, equal⟩ := Option.map_eq_some_iff.1 stepped
        cases equal
        exact ofMove (killStep_record killTaken branchId) fun _ isLive => by cases isLive
    | journal journaled _ _ _ _ =>
      refine ofView fun origin => Disciplined.view_journaled journaled fun child member same => ?_
      unfold State.journals at notJournaled
      rw [show before.step config _ = some _ from taken] at notJournaled
      simp only [journaled.started, List.drop_left] at notJournaled
      exact notJournaled (List.mem_map.2 ⟨child, member, same⟩)
    | invoke silent _ _ | advance _ silent _ _ _ => exact ofView fun origin => silent.view origin branchId

/-! ## The collectors' calls -/

/-- A collector's only tasks are the kills of its list. -/
def Call.Lists (call : Call) : Prop :=
  call.collects = true → call.stage = .fanOut ∨ (∃ receipts, call.stage = .tally receipts) ∨
    call.isOver = true

namespace Call

variable {call next : Call}

theorem collects_iff : call.collects = true ↔ call.op = .reapExpired ∨ call.op = .reconcile := by
  unfold collects
  cases call.op <;> simp

theorem invoke_lists {op : Op} (invoked : invoke config env shared op = some (after, call)) : call.Lists := by
  intro collects
  cases invoke_move invoked with
  | refused | renewLease | closed => exact .inr (.inr rfl)
  | createParent | fork | kills => exact .inl rfl
  | closing | closes => cases collects

/-- The later sections of a collector list nothing more. -/
theorem advance_collector (lists : call.Lists) (collects : call.collects = true)
    (advanced : call.advance config shared = some (after, next)) :
    next.items = call.items ∧ next.op = call.op ∧ next.expired = call.expired ∧ call.isOver = false ∧
      next.Lists := by
  have stages := lists collects
  cases advance_move advanced with
  | fanOut atStage _ _ move =>
    have running : call.isOver = false := by simp [isOver, atStage]
    cases move with
    | raised | reconcileRaised | closeRaised | started | forked | killed | renewed | reaped | closed =>
      exact ⟨rfl, rfl, rfl, running, fun _ => .inr (.inr rfl)⟩
    | reconciled => exact ⟨rfl, rfl, rfl, running, fun _ => .inr (.inl ⟨_, rfl⟩)⟩
    | sweeps isOp => simp [collects_iff, isOp] at collects
  | tally atStage => exact ⟨rfl, rfl, rfl, by simp [isOver, atStage], fun _ => .inr (.inr rfl)⟩
  | sweep atStage | retryRaised atStage | retried atStage | drained atStage | follows atStage =>
    simp [atStage, isOver] at stages

/-- A call whose waiting candidates are those of a justified one. -/
theorem Justified.of_fewer {earlier later : Int} (justified : call.Justified earlier shared)
    (fewer : ∀ branchId ∈ next.waiting, branchId ∈ call.waiting)
    (sameReason : ∀ branchId, next.forLease branchId = call.forLease branchId)
    (stillLapsed : ∀ branchId ∈ call.waiting, call.forLease branchId = true →
      shared.Lapsed earlier branchId → after.Lapsed later branchId)
    (stillLeftover : ∀ branchId ∈ call.waiting, shared.Leftover branchId → after.Leftover branchId) :
    next.Justified later after := by
  intro branchId member
  have was := fewer branchId member
  obtain ⟨lapsed, leftover⟩ := justified branchId was
  rw [sameReason]
  exact ⟨fun forLease => stillLapsed branchId was forLease (lapsed forLease),
    fun notForLease => stillLeftover branchId was (leftover notForLease)⟩

end Call

theorem startStep_ne_queued {task : StartTask} {phase : StartPhase}
    (taken : startStep config env shared task = some (after, phase)) : phase ≠ .queued := by
  intro isQueued
  cases startStep_move taken with
  | begins | goesLive | staysForking | forgets | staysRecorded | ends => cases isQueued
  | calls _ call replies =>
    cases call with
    | kvStart | kvExtend | rollbackKv => cases replies <;> cases isQueued
    | @rollbackSandbox _ failed => cases replies <;> cases failed <;> cases isQueued
    | waitReady =>
      cases replies with
      | working | raised | refused => cases isQueued
      | returned =>
        unfold StartTask.afterReady at isQueued
        split at isQueued <;> cases isQueued
    | sandboxSpawn =>
      cases replies with
      | working | raised | refused => cases isQueued
      | returned =>
        unfold StartTask.afterSpawn StartTask.afterReady at isQueued
        repeat' split at isQueued
        all_goals cases isQueued

theorem Task.step_not_queued {task next : Task}
    (stepped : task.step config env shared = some (after, next)) : next.queued = false := by
  cases task with
  | start task =>
    obtain ⟨⟨_, phase⟩, taken, equal⟩ := Option.map_eq_some_iff.1 stepped
    cases equal
    cases phase with
    | queued => exact absurd rfl (startStep_ne_queued taken)
    | _ => rfl
  | kill task =>
    obtain ⟨⟨_, phase⟩, taken, equal⟩ := Option.map_eq_some_iff.1 stepped
    cases equal
    cases phase with
    | queued => exact absurd rfl (killStep_ne_queued taken)
    | _ => rfl

/-! ## The invariant -/

/-- Every candidate that still waits deserves its place on the list. -/
structure Collecting (config : Config) (origin : Finset BranchId) (timed : Timed) : Prop where
  disciplined : Disciplined config origin timed.state
  lists : ∀ call ∈ timed.state.calls, call.Lists
  justified : ∀ call ∈ timed.state.calls, call.Justified timed.clock timed.state.shared

namespace Collecting

variable {origin : Finset BranchId} {timed next : Timed} {action : Action}

/-- The candidates of the calls there are keep their reasons. -/
theorem keeps (collecting : Collecting config origin timed) (undisturbed : timed.Undisturbed config action)
    (taken : timed.Step config action next) {call later : Call} (member : call ∈ timed.state.calls)
    (fewer : ∀ branchId ∈ later.waiting, branchId ∈ call.waiting)
    (sameReason : ∀ branchId, later.forLease branchId = call.forLease branchId) :
    later.Justified next.clock next.state.shared := by
  obtain ⟨stepped, clock⟩ := taken.state
  have notBack : timed.clock ≤ next.clock := clock ▸ undisturbed.monotone
  have isWaiting : ∀ branchId ∈ call.waiting, branchId ∈ timed.state.waiting :=
    fun branchId waits => List.mem_flatMap.2 ⟨call, member, waits⟩
  have notJournaled : ∀ branchId ∈ call.waiting, branchId ∉ timed.state.journals config action :=
    fun branchId waits journaled => undisturbed.notRecreated branchId journaled (isWaiting branchId waits)
  refine (collecting.justified call member).of_fewer fewer sameReason ?_ ?_
  · intro branchId waits forLease isLapsed branch found
    have notRenewed : branchId ∉ timed.state.renews config action := by
      intro isRenewed
      exact undisturbed.notRenewed branchId isRenewed
        (List.mem_flatMap.2 ⟨call, member, List.mem_filter.2 ⟨waits, forLease⟩⟩)
    exact lapsed_later notBack
      (stepped.lapsed (notJournaled branchId waits) notRenewed isLapsed branch found)
  · intro branchId waits isLeftover
    exact collecting.disciplined.leftover stepped (notJournaled branchId waits) isLeftover

theorem step (collecting : Collecting config origin timed) (undisturbed : timed.Undisturbed config action)
    (taken : timed.Step config action next) : Collecting config origin next := by
  obtain ⟨stepped, clock⟩ := taken.state
  have disciplined := collecting.disciplined.step undisturbed.unmarked stepped
  have untouched : ∀ call ∈ timed.state.calls, call.Justified next.clock next.state.shared := fun call member =>
    collecting.keeps undisturbed taken member (fun _ waits => waits) fun _ => rfl
  obtain ⟨after, afterClock⟩ := next
  simp only at stepped clock disciplined
  cases State.Step.move stepped with
  | @item c i env call task moved shared atCall atItem running allowed taskStepped =>
    have member := List.mem_of_getElem? atCall
    have notQueued := Task.step_not_queued taskStepped
    have justified : Call.Justified afterClock shared { call with items := call.items.set i moved } := by
      refine collecting.keeps undisturbed taken member (fun branchId waits => ?_) fun _ => rfl
      obtain ⟨collects, running, waiting, isTask, queued, same⟩ := Call.mem_waiting.1 waits
      refine Call.mem_waiting.2 ⟨collects, running, waiting, ?_, queued, same⟩
      -- the task that has moved on waits no more
      obtain old | rfl := List.mem_or_eq_of_mem_set isTask
      · exact old
      · rw [notQueued] at queued
        cases queued
    refine ⟨disciplined, fun other isOther => ?_, fun other isOther => ?_⟩
    · obtain old | rfl := List.mem_or_eq_of_mem_set isOther
      · exact collecting.lists other old
      · exact collecting.lists call member
    · obtain old | rfl := List.mem_or_eq_of_mem_set isOther
      · exact untouched other old
      · exact justified
  | @journal op env _ _ _ _ call journaled fresh items stage invoked =>
    refine ⟨disciplined, fun other isOther => ?_, fun other isOther => ?_⟩
    · obtain old | new := List.mem_append.1 isOther
      · exact collecting.lists other old
      · rw [List.mem_singleton.1 new]
        exact Call.invoke_lists invoked
    · obtain old | new := List.mem_append.1 isOther
      · exact untouched other old
      · rw [List.mem_singleton.1 new, clock]
        exact invoke_justified collecting.disciplined.synced.keyed invoked
  | @invoke op env _ call silent dormant invoked =>
    refine ⟨disciplined, fun other isOther => ?_, fun other isOther => ?_⟩
    · obtain old | new := List.mem_append.1 isOther
      · exact collecting.lists other old
      · rw [List.mem_singleton.1 new]
        exact Call.invoke_lists invoked
    · obtain old | new := List.mem_append.1 isOther
      · exact untouched other old
      · rw [List.mem_singleton.1 new, clock]
        exact invoke_justified collecting.disciplined.synced.keyed invoked
  | @advance c _ call later more atCall silent dormant items advanced =>
    have member := List.mem_of_getElem? atCall
    have isOp := advance_op advanced
    refine ⟨disciplined, fun other isOther => ?_, fun other isOther => ?_⟩
    · obtain old | rfl := List.mem_or_eq_of_mem_set isOther
      · exact collecting.lists other old
      · intro collects
        have was : call.collects = true := by unfold Call.collects at collects ⊢; rwa [isOp] at collects
        exact (Call.advance_collector (collecting.lists call member) was advanced).2.2.2.2 collects
    · obtain old | rfl := List.mem_or_eq_of_mem_set isOther
      · exact untouched other old
      · cases was : call.collects with
        | true =>
          obtain ⟨sameItems, sameOp, sameExpired, running, _⟩ :=
            Call.advance_collector (collecting.lists call member) was advanced
          refine collecting.keeps undisturbed taken member (fun branchId waits => ?_) fun branchId => ?_
          · obtain ⟨_, _, waiting, isTask, queued, same⟩ := Call.mem_waiting.1 waits
            exact Call.mem_waiting.2 ⟨was, running, waiting, sameItems ▸ isTask, queued, same⟩
          · unfold Call.forLease
            rw [sameOp, sameExpired]
        | false =>
          intro branchId waits
          obtain ⟨collects, _⟩ := Call.mem_waiting.1 waits
          unfold Call.collects at collects was
          rw [isOp, was] at collects
          cases collects

theorem boot {world : World} {clock : Int} (booted : Shared.boot config world = .ok shared) :
    Collecting config shared.loaded ⟨State.fresh shared, clock⟩ :=
  ⟨Disciplined.boot booted, fun _ member => absurd member List.not_mem_nil,
    fun _ member => absurd member List.not_mem_nil⟩

/-- A candidate whose turn has come qualifies. -/
theorem qualified (collecting : Collecting config origin timed)
    (notBack : timed.clock ≤ action.now timed.clock) : timed.state.CollectsQualified config action := by
  intro c i env call task branch next isItem atCall collects running atItem queued found admitted
  subst isItem
  have waits : task.branchId ∈ call.waiting := by
    refine Call.mem_waiting.2 ⟨collects, running, .kill task, List.mem_of_getElem? atItem, ?_, rfl⟩
    obtain ⟨branchId, allowClosing, phase⟩ := task
    cases queued
    rfl
  obtain ⟨forLease, notForLease⟩ :=
    collecting.justified call (List.mem_of_getElem? atCall) task.branchId waits
  have lapsed : call.forLease task.branchId = true → lapsed env.now branch = true :=
    fun listed => lapsed_later notBack (forLease listed branch found)
  refine ⟨?_, lapsed⟩
  cases listed : call.forLease task.branchId with
  | true => exact .lapsed (lapsed listed)
  | false =>
    obtain ⟨_, loaded | notLive⟩ := notForLease listed
    · exact .loaded loaded
    · refine .leftover ?_ fun index other isTask active same => ?_
      · rw [isLive, found, Option.any_some, decide_eq_false_iff_not] at notLive
        cases atState : branch.state with
        | forking => exact .inl rfl
        | killing => exact .inr rfl
        | live => exact absurd atState notLive
      · -- the section that admits a kill has found no mark
        cases killStep_move admitted with
        | calls atPhase call replies =>
          rw [queued] at atPhase
          subst atPhase
          cases call
        | admitted _ _ notKilling notSpawning =>
          obtain spawning | ⟨killing, _⟩ := collecting.disciplined.marked isTask active
          · exact notSpawning (same ▸ spawning)
          · exact notKilling (same ▸ killing)

end Collecting

/-- In a run that leaves the candidates of running collectors alone, a collector
kills what qualifies when the intent is journaled. -/
theorem collected_while_undisturbed {world : World} {clock : Int} {timed : Timed} {action : Action}
    (booted : Shared.boot config world = .ok shared)
    (reached : Reachable (Timed.Step config) (Timed.Undisturbed config) ⟨State.fresh shared, clock⟩ timed)
    (undisturbed : timed.Undisturbed config action) : timed.state.CollectsQualified config action := by
  have collecting : Collecting config shared.loaded timed :=
    reached.invariant (Collecting.boot booted) fun _ _ _ collecting undisturbed taken =>
      collecting.step undisturbed taken
  exact collecting.qualified undisturbed.monotone

/-! ## A parent with a lease -/

def readAt (now : Int) : Env := { returns with now := now }

/-- The state of the serial orchestrator after the actions, with its clock. -/
def timedRun (actions : List Action) : Timed :=
  runFrom (Timed.step serialConfig) ⟨State.fresh blank, 0⟩ actions

/-- A parent whose lease ends at 10 is live. -/
def leasedRun : List Action :=
  [.invoke (.createParent "p" [] (some 10)) (readAt 0), .item 0 0 (readAt 1), .item 0 0 (readAt 1), .item 0 0 (readAt 1),
    .item 0 0 (readAt 1), .advance 0]

/-- Its lease lapses and `reap_expired` lists it. -/
def lapsedRun : List Action := leasedRun ++ [.invoke .reapExpired (readAt 20)]

theorem lapsedRun_collected : "p" ∈ (timedRun lapsedRun).state.waiting ∧
    (timedRun lapsedRun).state.CollectsQualified serialConfig (.item 1 0 (readAt 21)) := by
  have reached : Reachable (Timed.Step serialConfig) (Timed.Undisturbed serialConfig) ⟨State.fresh blank, 0⟩
      (timedRun lapsedRun) := reachable_runFrom (by decide) (by decide)
  exact ⟨by decide, collected_while_undisturbed boot_blank reached (by decide)⟩

/-- The owner of the parent renews the lease after `reap_expired` has listed it,
and the renewal returns before the kill begins. -/
def renewedRun : List Action := lapsedRun ++ [.invoke (.renewLease "p" 100) (readAt 20)]

theorem renewed_branch_is_collected : ¬ ∀ timed action next, Reachable (Timed.Step serialConfig) always
    ⟨State.fresh blank, 0⟩ timed → timed.Step serialConfig action next →
      timed.state.CollectsQualified serialConfig action := by
  intro claimed
  have reached : Reachable (Timed.Step serialConfig) always ⟨State.fresh blank, 0⟩ (timedRun renewedRun) :=
    reachable_runFrom (by decide) meets_always
  let action : Action := .item 1 0 (readAt 21)
  have enabled : ((timedRun renewedRun).step serialConfig action).isSome = true := by decide
  obtain ⟨next, taken⟩ := Option.isSome_iff_exists.1 enabled
  have qualified := claimed (timedRun renewedRun) action next reached taken
  let renewed : Branch := ⟨"p", none, .live, 0, some 120⟩
  obtain ⟨_, lapsed⟩ := qualified 1 0 (readAt 21) _ ⟨"p", false, .queued⟩ renewed _ rfl rfl (by decide)
    (by decide) rfl rfl (by decide) rfl
  exact absurd (lapsed (by decide)) (by decide)

end Agentfork.Orchestrator

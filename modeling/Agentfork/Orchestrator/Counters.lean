import Agentfork.Orchestrator.Collection
import Agentfork.Orchestrator.Drain

/-! # The counters of the lifecycle calls

`kills` is counted in the section that forgets the record. `forks` and
`reaped_expired` are counted once for a whole call, after its fan-out, and a
fan-out that raises skips that: the children that went live and the branches that
were collected before the exception reach no counter.

`Tally` counts the same events one by one, by looking at the records. Between the
two stands what the calls have not reported: all of it while they run, and for
good once they have raised. -/

namespace Agentfork.Orchestrator

open Shared Transition

/-! ## Events -/

namespace Task

/-- The step of a child has made its record live. -/
def makesLive (before after : Shared) : Task → Bool
  | .start task => task.parentId.isSome && (!before.isLive task.branchId && after.isLive task.branchId)
  | .kill _ => false

/-- The step of a kill has removed the record. -/
def removes (before after : Shared) : Task → Bool
  | .start _ => false
  | .kill task => decide (task.branchId ∈ before.branches) && decide (task.branchId ∉ after.branches)

end Task

/-- What has happened to the records so far. -/
structure Tally where
  /-- children of a fork that became live -/
  live : Nat
  /-- records that a kill has removed -/
  killed : Nat
  /-- those of them that a collector has listed for their lease -/
  lapsed : Nat
  deriving DecidableEq, Repr

/-- A task of the call has led from one state to another. -/
def Tally.observe (call : Call) (task : Task) (before after : Shared) (tally : Tally) : Tally where
  live := tally.live + (task.makesLive before after).toNat
  killed := tally.killed + (task.removes before after).toNat
  lapsed := tally.lapsed + (task.removes before after && call.forLease task.branchId).toNat

/-- The orchestrator beside what has happened in it. -/
structure Tallied where
  state : State
  tally : Tally

namespace Tallied

def observed (tallied : Tallied) (after : State) : Action → Tally
  | .item c i _ =>
    match tallied.state.calls[c]? with
    | none => tallied.tally
    | some call =>
      match call.items[i]? with
      | none => tallied.tally
      | some task => tallied.tally.observe call task tallied.state.shared after.shared
  | .invoke _ _ | .advance _ => tallied.tally

def step (config : Config) (tallied : Tallied) (action : Action) : Option Tallied :=
  (tallied.state.step config action).map fun after => ⟨after, tallied.observed after action⟩

def Step (config : Config) (before : Tallied) (action : Action) (after : Tallied) : Prop :=
  before.step config action = some after

def fresh (shared : Shared) : Tallied := ⟨State.fresh shared, ⟨0, 0, 0⟩⟩

theorem Step.state {config : Config} {before after : Tallied} {action : Action}
    (taken : before.Step config action after) :
    before.state.Step config action after.state ∧ after.tally = before.observed after.state action := by
  obtain ⟨next, stepped, rfl⟩ := Option.map_eq_some_iff.1 taken
  exact ⟨stepped, rfl⟩

/-- No call is in progress. -/
def Quiescent (tallied : Tallied) : Prop := ∀ call ∈ tallied.state.calls, call.isOver = true

/-- The counters say what has happened. -/
structure Exact (tallied : Tallied) : Prop where
  forks : tallied.state.shared.metrics.forks = tallied.tally.live
  kills : tallied.state.shared.metrics.kills = tallied.tally.killed
  reapedExpired : tallied.state.shared.metrics.reapedExpired = tallied.tally.lapsed

instance (tallied : Tallied) : Decidable tallied.Quiescent :=
  inferInstanceAs (Decidable (∀ call ∈ tallied.state.calls, call.isOver = true))

end Tallied

/-! ## What is left to report -/

/-- The start has come through the section that makes the record live. -/
def StartPhase.succeeded : StartPhase → Bool
  | .settle (.ok _) | .finished (.ok _) => true
  | _ => false

namespace Task

/-- One of the children of a fork. -/
def isChild : Task → Bool
  | .start task => task.parentId.isSome
  | .kill _ => false

def wentLive : Task → Bool
  | .start task => task.parentId.isSome && task.phase.succeeded
  | .kill _ => false

/-- The section that is about to count finds the record as the counter takes it
to be: a child is not live yet, a killed branch is still there. -/
def countable (shared : Shared) : Task → Bool
  | .start ⟨branchId, some _, _, .goLive⟩ => !shared.isLive branchId
  | .kill ⟨branchId, _, .forget _⟩ => decide (branchId ∈ shared.branches)
  | _ => true

end Task

namespace Call

def isFork (call : Call) : Bool :=
  match call.op with
  | .fork _ _ _ _ => true
  | _ => false

/-- The task has reaped a branch that the call has listed for its lease. -/
def reapedForLease (call : Call) (task : Task) : Bool :=
  task.receipt?.any fun receipt => receipt.reaped && call.forLease receipt.branchId

/-- The call has returned. -/
def succeeded (call : Call) : Bool :=
  match call.stage with
  | .finished (.ok _) => true
  | _ => false

def unreportedForks (call : Call) : Nat :=
  if call.succeeded then 0 else call.items.countP Task.wentLive

def unreportedLapsed (call : Call) : Nat :=
  if call.succeeded then 0 else call.items.countP call.reapedForLease

/-- The fan-out raises although it has something to report. -/
def drops (call : Call) : Bool :=
  match call.stage with
  | .fanOut => (fanOutFault call.items).isSome &&
      call.items.any fun task => task.wentLive || call.reapedForLease task
  | _ => false

end Call

/-- The step counts what it does: no fan-out raises after a part of it has gone
well, and the sections that count find the record. -/
def State.Counts (state : State) : Action → Prop
  | .invoke _ _ => True
  | .item c i _ => (state.task? (c, i)).all (Task.countable state.shared) = true
  | .advance c => (state.calls[c]?).all (fun call => !call.drops) = true

instance (state : State) (action : Action) : Decidable (state.Counts action) :=
  match action with
  | .invoke _ _ => inferInstanceAs (Decidable True)
  | .item c i _ => inferInstanceAs (Decidable ((state.task? (c, i)).all (Task.countable state.shared) = true))
  | .advance c => inferInstanceAs (Decidable ((state.calls[c]?).all (fun call => !call.drops) = true))

def Tallied.Counts (tallied : Tallied) (action : Action) : Prop := tallied.state.Counts action

instance (tallied : Tallied) (action : Action) : Decidable (tallied.Counts action) :=
  inferInstanceAs (Decidable (tallied.state.Counts action))

/-! ## The sections and the counters

A section that raises has changed no counter, and one that returns only the one
it is for. -/

variable {config : Config} {env : Env} {shared after : Shared}

theorem record_metrics (config : Config) (failure : Option Fault) (branch : Branch) (shared : Shared) :
    (record config failure branch shared).2.metrics = shared.metrics := by
  unfold record
  obtain ⟨fault, failed⟩ | written := persist_cases config failure { shared with
    branches := shared.branches.insert branch.branchId branch }
  · simp only [failed]
  · simp only [written]
    exact write_metrics _ _

theorem forget_metrics (config : Config) (failure : Option Fault) (branchId : BranchId) (shared : Shared) :
    (forget config failure branchId shared).2.metrics = shared.metrics := by
  unfold forget
  obtain ⟨fault, failed⟩ | written := persist_cases config failure { shared with
    branches := shared.branches.erase branchId }
  · simp only [failed]
  · simp only [written]
    exact write_metrics _ _

theorem replaceBranch_metrics (config : Config) (failure : Option Fault) (branchId : BranchId)
    (change : Branch → Branch) (shared : Shared) :
    (replaceBranch config failure branchId change shared).2.metrics = shared.metrics := by
  unfold replaceBranch
  cases shared.branches.get? branchId with
  | none => rfl
  | some previous =>
    obtain ⟨fault, failed⟩ | written := persist_cases config failure { shared with
      branches := shared.branches.insert branchId (change previous) }
    · simp only [failed]
    · simp only [written]
      exact write_metrics _ _

theorem goLive_metrics (config : Config) (failure : Option Fault) (task : StartTask) (shared : Shared) :
    (goLive config failure task shared).2.metrics = shared.metrics := by
  have kept := replaceBranch_metrics config failure task.branchId (setState .live) shared
  unfold goLive
  cases task.parentId with
  | none => exact kept
  | some parentId =>
    simp only
    split
    · exact kept
    · rfl

theorem admitParent_metrics (config : Config) (failure : Option Fault) (now : Int) (branchId : BranchId)
    (tokens : List Nat) (lease : Option Int) (shared : Shared) :
    (admitParent config failure now branchId tokens lease shared).2.metrics = shared.metrics := by
  unfold admitParent
  cases ensureOpen false shared with
  | error fault => rfl
  | ok =>
    simp only
    split
    · rfl
    · split
      · rfl
      · cases leaseExpiry config now lease with
        | error fault => rfl
        | ok expiry =>
          have kept := record_metrics config failure ⟨branchId, none, .forking, now, expiry⟩ shared
          cases outcome : record config failure ⟨branchId, none, .forking, now, expiry⟩ shared with
          | mk result recorded =>
            simp only [outcome] at kept ⊢
            cases result <;> exact kept

theorem chooseId_metrics (parentId : BranchId) (shared : Shared) (given : Option BranchId) :
    (chooseId parentId shared given).2.metrics = shared.metrics := by cases given <;> rfl

theorem planChildren_metrics (config : Config) (now : Int) (parentId : BranchId) (lease : Option Int)
    (wanted : List (Option BranchId)) (children : List Branch) (shared : Shared) :
    (planChildren config now parentId lease wanted children shared).2.metrics = shared.metrics := by
  induction wanted generalizing children shared with
  | nil => rfl
  | cons given wanted inductionHypothesis =>
    have chosen := chooseId_metrics parentId shared given
    unfold planChildren
    simp only
    split
    · exact chosen
    · cases leaseExpiry config now lease with
      | error fault => exact chosen
      | ok expiry => exact (inductionHypothesis _ _).trans chosen

theorem admitFork_metrics (config : Config) (failure : Option Fault) (now : Int) (parentId : BranchId) (n : Int)
    (childIds : Option (List BranchId)) (lease : Option Int) (shared : Shared) :
    (admitFork config failure now parentId n childIds lease shared).2.metrics = shared.metrics := by
  unfold admitFork
  cases ensureOpen false shared with
  | error fault => rfl
  | ok =>
    simp only
    split
    · rfl
    · split
      · rfl
      · have planned := planChildren_metrics config now parentId lease (requested n childIds) [] shared
        cases outcome : planChildren config now parentId lease (requested n childIds) [] shared with
        | mk result chosen =>
          simp only [outcome] at planned ⊢
          cases result with
          | error fault => exact planned
          | ok children =>
            obtain ⟨fault, failed⟩ | written := persist_cases config failure { chosen with
              branches := insertAll children chosen.branches }
            · simp only [failed]
              exact planned
            · simp only [written]
              exact (write_metrics _ _).trans planned

theorem renewLease_metrics (config : Config) (failure : Option Fault) (now : Int) (branchId : BranchId)
    (lease : Int) (shared : Shared) :
    (renewLease config failure now branchId lease shared).2.metrics = shared.metrics := by
  unfold renewLease
  cases ensureOpen false shared with
  | error fault => rfl
  | ok =>
    simp only
    split
    · rfl
    · split
      · rfl
      · exact replaceBranch_metrics config failure branchId _ shared

theorem metrics_of_outcome {α : Type} {outcome : Except Fault α × Shared} {result : Except Fault α}
    (equal : outcome = (result, after)) (kept : outcome.2.metrics = shared.metrics) : after.metrics = shared.metrics := by
  rw [equal] at kept
  exact kept

theorem invoke_metrics {op : Op} {call : Call} (invoked : invoke config env shared op = some (after, call)) :
    after.metrics = shared.metrics := by
  cases invoke_move invoked with
  | refused refuses =>
    cases refuses with
    | createParent raises => exact metrics_of_outcome raises (admitParent_metrics ..)
    | fork raises => exact metrics_of_outcome raises (admitFork_metrics ..)
    | renewLease raises => exact metrics_of_outcome raises (renewLease_metrics ..)
    | killLosers | noWinner | reapExpired | reconcile => rfl
  | createParent admits => exact metrics_of_outcome admits (admitParent_metrics ..)
  | fork admits => exact metrics_of_outcome admits (admitFork_metrics ..)
  | renewLease _ renews => exact metrics_of_outcome renews (renewLease_metrics ..)
  | kills | closed | closing | closes => rfl

/-! ## The sections and the records -/

theorem isLive_congr {branchId : BranchId}
    (same : after.branches.get? branchId = shared.branches.get? branchId) :
    after.isLive branchId = shared.isLive branchId := by
  rw [isLive, isLive, same]

theorem startStep_metrics {task : StartTask} {phase : StartPhase}
    (taken : startStep config env shared task = some (after, phase)) : after.metrics = shared.metrics := by
  cases startStep_move taken with
  | begins | ends => rfl
  | calls _ call replies =>
    obtain rfl | rfl := replies.state
    · cases call <;> rfl
    · rfl
  | goesLive | forgets => exact write_metrics _ _
  | staysForking _ raises =>
    have kept := goLive_metrics config env.persist task shared
    rwa [raises] at kept
  | staysRecorded _ raises =>
    have kept := forget_metrics config env.persist task.branchId shared
    rwa [raises] at kept

theorem succeeded_afterSpawn (config : Config) (task : StartTask) :
    (task.afterSpawn config).succeeded = false ∧ task.afterReady.succeeded = false := by
  unfold StartTask.afterSpawn StartTask.afterReady
  repeat' split
  all_goals exact ⟨rfl, rfl⟩

/-- Outside the section that makes the record live nothing succeeds and nothing
becomes live. -/
theorem startStep_not_goLive {task : StartTask} {phase : StartPhase}
    (taken : startStep config env shared task = some (after, phase)) (elsewhere : task.phase ≠ .goLive) :
    phase.succeeded = task.phase.succeeded ∧
      (after.isLive task.branchId = true → shared.isLive task.branchId = true) := by
  cases startStep_move taken with
  | begins atPhase =>
    rw [atPhase]
    exact ⟨rfl, id⟩
  | calls atPhase call replies =>
    have sameRecord : after.isLive task.branchId = true → shared.isLive task.branchId = true := by
      obtain rfl | rfl := replies.state
      · cases call <;> exact id
      · exact id
    refine ⟨?_, sameRecord⟩
    rw [atPhase]
    cases call with
    | kvStart | kvExtend | rollbackKv => cases replies <;> rfl
    | sandboxSpawn =>
      cases replies with
      | working | raised | refused => rfl
      | returned => exact (succeeded_afterSpawn config task).1
    | waitReady =>
      cases replies with
      | working | raised | refused => rfl
      | returned => exact (succeeded_afterSpawn config task).2
    | @rollbackSandbox _ failed => cases replies <;> cases failed <;> rfl
  | goesLive atPhase | staysForking atPhase => exact absurd atPhase elsewhere
  | forgets atPhase =>
    rw [atPhase]
    refine ⟨rfl, fun live => ?_⟩
    simp [isLive] at live
  | staysRecorded atPhase _ quiet =>
    rw [atPhase]
    exact ⟨rfl, fun live => isLive_congr (quiet.branches task.branchId) ▸ live⟩
  | @ends outcome atPhase =>
    rw [atPhase]
    exact ⟨by cases outcome <;> rfl, id⟩

/-- A start whose record is not live yet succeeds in the step that makes it live. -/
theorem startStep_counts {task : StartTask} {phase : StartPhase}
    (taken : startStep config env shared task = some (after, phase))
    (notYet : task.phase = .goLive → shared.isLive task.branchId = false) :
    phase.succeeded.toNat = task.phase.succeeded.toNat +
      (!shared.isLive task.branchId && after.isLive task.branchId).toNat := by
  by_cases atPhase : task.phase = .goLive
  · have notLive := notYet atPhase
    cases startStep_move taken with
    | begins other | forgets other | staysRecorded other | ends other =>
      rw [atPhase] at other
      cases other
    | calls other call =>
      rw [atPhase] at other
      subst other
      cases call
    | staysForking _ _ quiet =>
      rw [isLive_congr (quiet.branches task.branchId), atPhase, notLive]
      rfl
    | @goesLive previous =>
      have nowLive : (write config { shared with
          branches := shared.branches.insert task.branchId (setState .live previous) }).isLive task.branchId =
            true := by
        simp [isLive, setState]
      rw [nowLive, atPhase, notLive]
      rfl
  · obtain ⟨samePhase, live⟩ := startStep_not_goLive taken atPhase
    rw [samePhase]
    cases was : shared.isLive task.branchId with
    | true => rfl
    | false =>
      cases is : after.isLive task.branchId with
      | false => rfl
      | true => rw [live is] at was; cases was

theorem admitKill_metrics (config : Config) (failure : Option Fault) (task : KillTask) (shared : Shared) :
    (admitKill config failure task shared).1.metrics = shared.metrics := by
  unfold admitKill
  cases shared.ensureOpen task.allowClosing with
  | error fault => rfl
  | ok =>
    simp only
    split
    · rfl
    · have kept := replaceBranch_metrics config failure task.branchId (setState .killing)
        (shared.markKilling task.branchId)
      cases outcome : replaceBranch config failure task.branchId (setState .killing)
          (shared.markKilling task.branchId) with
      | mk result marked =>
        simp only [outcome] at kept ⊢
        cases result <;> exact kept

/-- A kill that is not admitted reaps nothing. -/
theorem admitKill_reaps_nothing {failure : Option Fault} {task : KillTask} {outcome : Except Fault KillReceipt}
    (refuses : admitKill config failure task shared = (after, .finished outcome)) (call : Call) :
    call.reapedForLease (.kill { task with phase := .finished outcome }) = false := by
  unfold admitKill at refuses
  split at refuses
  · cases refuses
    rfl
  · split at refuses
    · cases refuses
      rfl
    · split at refuses <;> cases refuses
      rfl

/-- What a step of a kill counts. -/
inductive KillCounts (before after : Shared) (task : KillTask) (phase : KillPhase) : Prop where
  | nothing (metrics : ∃ failures, after.metrics = { before.metrics with killFailures := failures })
      (keeps : task.branchId ∈ before.branches → task.branchId ∈ after.branches)
      (receipt : ∀ call : Call, call.reapedForLease (.kill { task with phase := phase }) = false)
  | kill {freed : Nat} (atForget : task.phase = .forget freed)
      (metrics : after.metrics = { before.metrics with kills := before.metrics.kills + 1 })
      (gone : task.branchId ∉ after.branches)
      (receipt : phase = .finished (.ok ⟨task.branchId, freed, true⟩))

theorem killStep_counts {task : KillTask} {phase : KillPhase}
    (taken : killStep config env shared task = some (after, phase)) : KillCounts shared after task phase := by
  cases killStep_move taken with
  | refused _ refuses quiet =>
    have metrics := admitKill_metrics config env.persist task shared
    rw [refuses] at metrics
    refine .nothing ⟨_, metrics⟩ (fun recorded => ?_) (admitKill_reaps_nothing refuses)
    obtain ⟨branch, found⟩ := Dict.mem_iff_get?.1 recorded
    exact Dict.mem_of_get? ((quiet.branches task.branchId).trans found)
  | admitted _ found _ _ admits =>
    have metrics := admitKill_metrics config env.persist task shared
    rw [admits] at metrics
    refine .nothing ⟨_, metrics⟩ (fun _ => ?_) fun _ => rfl
    simp
  | calls _ call replies =>
    have unreported : ∀ call : Call, call.reapedForLease (.kill { task with phase := phase }) = false := by
      cases call <;> cases replies <;> exact fun _ => rfl
    obtain rfl | rfl := replies.state
    · cases call <;> exact .nothing ⟨_, rfl⟩ id unreported
    · exact .nothing ⟨_, rfl⟩ id unreported
  | fails => exact .nothing ⟨_, rfl⟩ id fun _ => rfl
  | forgets atForget => exact .kill atForget rfl (by simp) rfl
  | staysRecorded _ raises quiet =>
    have kept := forget_metrics config env.persist task.branchId (shared.doneKilling task.branchId)
    rw [raises] at kept
    refine .nothing ⟨_, kept⟩ (fun recorded => ?_) fun _ => rfl
    obtain ⟨branch, found⟩ := Dict.mem_iff_get?.1 recorded
    exact Dict.mem_of_get? ((quiet.branches task.branchId).trans found)

/-! ## Tasks -/

/-- A step of a task counts what it does to the record. -/
structure Task.Tells (before after : Shared) (task next : Task) : Prop where
  forks : after.metrics.forks = before.metrics.forks
  kills : after.metrics.kills = before.metrics.kills + (task.removes before after).toNat
  reapedExpired : after.metrics.reapedExpired = before.metrics.reapedExpired
  live : next.wentLive.toNat = task.wentLive.toNat + (task.makesLive before after).toNat
  reaped : ∀ call : Call, (call.reapedForLease next).toNat = (call.reapedForLease task).toNat +
    (task.removes before after && call.forLease task.branchId).toNat
  child : next.isChild = task.isChild

theorem Task.finished_of_reapedForLease {call : Call} {task : Task} (reaped : call.reapedForLease task = true) :
    task.finished = true := by
  unfold Call.reapedForLease at reaped
  cases received : task.receipt? with
  | none => rw [received] at reaped; cases reaped
  | some receipt => exact Task.finished_of_receipt received

theorem Task.not_finished_of_step {task next : Task} (stepped : task.step config env shared = some (after, next)) :
    task.finished = false := by
  cases task with
  | start task =>
    obtain ⟨_, taken, _⟩ := Option.map_eq_some_iff.1 stepped
    obtain ⟨_, _, _, phase⟩ := task
    cases phase with
    | finished outcome => exact absurd rfl (startStep_unfinished taken outcome)
    | _ => rfl
  | kill task =>
    obtain ⟨_, taken, _⟩ := Option.map_eq_some_iff.1 stepped
    obtain ⟨_, _, phase⟩ := task
    cases phase with
    | finished outcome => exact absurd rfl (killStep_unfinished taken outcome)
    | _ => rfl

theorem StartTask.notYet_of_countable {task : StartTask} (isChild : task.parentId.isSome = true)
    (countable : (Task.start task).countable shared = true) (atPhase : task.phase = .goLive) :
    shared.isLive task.branchId = false := by
  obtain ⟨branchId, parentId, tokens, phase⟩ := task
  subst atPhase
  cases parentId with
  | none => cases isChild
  | some parentId => simpa [Task.countable] using countable

theorem KillTask.recorded_of_countable {task : KillTask} {freed : Nat}
    (countable : (Task.kill task).countable shared = true) (atPhase : task.phase = .forget freed) :
    task.branchId ∈ shared.branches := by
  obtain ⟨branchId, allowClosing, phase⟩ := task
  subst atPhase
  exact of_decide_eq_true countable

theorem Task.step_tells {task next : Task} (stepped : task.step config env shared = some (after, next))
    (countable : task.countable shared = true) : task.Tells shared after next := by
  have notFinished := Task.not_finished_of_step stepped
  have noReceipt : ∀ call : Call, call.reapedForLease task = false := by
    intro call
    cases reaped : call.reapedForLease task with
    | false => rfl
    | true => rw [Task.finished_of_reapedForLease reaped] at notFinished; cases notFinished
  cases task with
  | start task =>
    obtain ⟨⟨_, phase⟩, taken, equal⟩ := Option.map_eq_some_iff.1 stepped
    cases equal
    have metrics := startStep_metrics taken
    refine ⟨by rw [metrics], by rw [metrics]; rfl, by rw [metrics], ?_, fun call => rfl, rfl⟩
    cases isChild : task.parentId.isSome with
    | false =>
      simp only [wentLive, makesLive, isChild, Bool.false_and]
      rfl
    | true =>
      simp only [wentLive, makesLive, isChild, Bool.true_and]
      exact startStep_counts taken fun atPhase => StartTask.notYet_of_countable isChild countable atPhase
  | kill task =>
    obtain ⟨⟨_, phase⟩, taken, equal⟩ := Option.map_eq_some_iff.1 stepped
    cases equal
    cases killStep_counts taken with
    | nothing metrics keeps receipt =>
      obtain ⟨failures, metrics⟩ := metrics
      have notRemoved : (Task.kill task).removes shared after = false := by
        unfold removes
        by_cases recorded : task.branchId ∈ shared.branches
        · simp [keeps recorded]
        · simp [recorded]
      refine ⟨by rw [metrics], ?_, by rw [metrics], rfl, fun call => ?_, rfl⟩
      · rw [metrics, notRemoved]
        rfl
      · rw [noReceipt, receipt, notRemoved]
        rfl
    | @kill freed atForget metrics gone receipt =>
      have recorded := KillTask.recorded_of_countable countable atForget
      have removed : (Task.kill task).removes shared after = true := by
        simp [removes, recorded, gone]
      refine ⟨by rw [metrics], ?_, by rw [metrics], rfl, fun call => ?_, rfl⟩
      · rw [metrics, removed]
        rfl
      · rw [noReceipt, removed, receipt]
        simp [Call.reapedForLease, receipt?, branchId]

/-! ## Sums -/

theorem countP_set {α : Type} {items : List α} {i : Nat} {old : α} (atItem : items[i]? = some old) (new : α)
    (counted : α → Bool) : (items.set i new).countP counted + (counted old).toNat =
      items.countP counted + (counted new).toNat := by
  obtain ⟨inside, isOld⟩ := List.getElem?_eq_some_iff.1 atItem
  have member : old ∈ items := isOld ▸ List.getElem_mem inside
  rw [List.countP_set inside, isOld]
  cases isCounted : counted old with
  | false => cases counted new <;> simp
  | true =>
    have positive : 0 < items.countP counted := List.countP_pos_iff.2 ⟨old, member, isCounted⟩
    cases counted new <;> simp <;> omega

theorem sum_map_set {α : Type} {items : List α} {i : Nat} {old : α} (atItem : items[i]? = some old) (new : α)
    (weight : α → Nat) : ((items.set i new).map weight).sum + weight old =
      (items.map weight).sum + weight new := by
  induction items generalizing i with
  | nil => cases atItem
  | cons item items inductionHypothesis =>
    cases i with
    | zero =>
      cases atItem
      simp only [List.set_cons_zero, List.map_cons, List.sum_cons]
      omega
    | succ i =>
      have rest := inductionHypothesis atItem
      simp only [List.set_cons_succ, List.map_cons, List.sum_cons]
      omega

/-! ## Calls -/

namespace Call

/-- What the op of a call says about its tasks and stages. -/
def StageFits (call : Call) : Prop :=
  match call.stage with
  | .fanOut | .finished _ => True
  | .tally receipts => call.op = .reconcile ∧ receipts = call.receipts ∧ ∀ task ∈ call.items, task.finished = true
  | .sweep _ _ | .retry _ _ => ∃ winnerId, call.op = .killLosers winnerId
  | .draining | .awaitClosed => call.op = .close

structure Fits (call : Call) : Prop where
  /-- a fork has children and nothing else, and no other call has a child -/
  children : ∀ task ∈ call.items, task.isChild = call.isFork
  stage : call.StageFits

variable {call next : Call}

theorem unreportedForks_eq_zero (fits : call.Fits) (notFork : call.isFork = false) : call.unreportedForks = 0 := by
  unfold unreportedForks
  split
  · rfl
  · refine List.countP_eq_zero.2 fun task member wentLive => ?_
    have isChild := (fits.children task member).trans notFork
    cases task with
    | start task =>
      simp only [Task.wentLive, Bool.and_eq_true] at wentLive
      simp only [Task.isChild] at isChild
      rw [isChild] at wentLive
      cases wentLive.1
    | kill task => cases wentLive

theorem unreportedLapsed_eq_zero (notForLease : ∀ branchId, call.forLease branchId = false) :
    call.unreportedLapsed = 0 := by
  unfold unreportedLapsed
  split
  · rfl
  · refine List.countP_eq_zero.2 fun task _ reaped => ?_
    unfold reapedForLease at reaped
    obtain ⟨receipt, _, isReaped⟩ := Option.any_eq_true _ _ |>.1 reaped
    simp [notForLease] at isReaped

theorem forLease_of_not_collects (notCollector : call.collects = false) (branchId : BranchId) :
    call.forLease branchId = false := by
  unfold collects at notCollector
  unfold forLease
  cases isOp : call.op <;> simp only [isOp] at notCollector ⊢ <;> cases notCollector

/-- A fork that returns has a branch of each child that went live. -/
theorem forked_length (fits : call.Fits) (isFork : call.isFork = true)
    (finished : ∀ task ∈ call.items, task.finished = true) :
    (call.items.filterMap Task.branch?).length = call.items.countP Task.wentLive := by
  rw [List.length_filterMap_eq_countP]
  refine List.countP_congr fun task member => ?_
  have isChild := (fits.children task member).trans isFork
  have isFinished := finished task member
  cases task with
  | kill task => cases isChild
  | start task =>
    obtain ⟨branchId, parentId, tokens, phase⟩ := task
    simp only [Task.isChild] at isChild
    cases phase with
    | finished outcome => cases outcome <;> simp [Task.branch?, Task.wentLive, isChild, StartPhase.succeeded]
    | _ => cases isFinished

theorem reaped_length (call : Call) (forLease : BranchId → Bool) (same : call.forLease = forLease) :
    (call.receipts.filter fun receipt => receipt.reaped && forLease receipt.branchId).length =
      call.items.countP call.reapedForLease := by
  subst same
  rw [← List.countP_eq_length_filter, receipts, List.countP_filterMap]
  refine List.countP_congr fun task _ => ?_
  unfold reapedForLease
  cases task.receipt? <;> simp

/-! ### The first section -/

/-- A call that has nothing to report yet. -/
structure Blank (call : Call) : Prop where
  fits : call.Fits
  nothing : ∀ task ∈ call.items, task.wentLive = false ∧ call.reapedForLease task = false

theorem Blank.unreported (isBlank : call.Blank) : call.unreportedForks = 0 ∧ call.unreportedLapsed = 0 := by
  unfold unreportedForks unreportedLapsed
  constructor
  · split
    · rfl
    · exact List.countP_eq_zero.2 fun task member => by rw [(isBlank.nothing task member).1]; nofun
  · split
    · rfl
    · exact List.countP_eq_zero.2 fun task member => by rw [(isBlank.nothing task member).2]; nofun

theorem blank_ended (op : Op) (outcome : Except Fault Value) : (ended op outcome).Blank :=
  ⟨⟨fun _ member => absurd member List.not_mem_nil, trivial⟩, fun _ member => absurd member List.not_mem_nil⟩

theorem blank_kills (op : Op) (branchIds expired : List BranchId) (notFork : (Call.mk op [] .fanOut []).isFork = false) :
    (Call.mk op (branchIds.map (killTask false)) .fanOut expired).Blank := by
  refine ⟨⟨fun task member => ?_, trivial⟩, fun task member => ?_⟩
  · obtain ⟨branchId, _, rfl⟩ := List.mem_map.1 member
    exact notFork.symm
  · obtain ⟨branchId, _, rfl⟩ := List.mem_map.1 member
    exact ⟨rfl, rfl⟩

theorem blank_starts (op : Op) (children : List Branch) (tokens : List Nat) {phase : StartPhase}
    (notYet : phase.succeeded = false)
    (kind : ∀ child ∈ children, child.parentId.isSome = (Call.mk op [] .fanOut []).isFork) :
    (Call.mk op (children.map (startTask phase tokens)) .fanOut []).Blank := by
  refine ⟨⟨fun task member => ?_, trivial⟩, fun task member => ?_⟩
  · obtain ⟨child, isChild, rfl⟩ := List.mem_map.1 member
    exact kind child isChild
  · obtain ⟨child, _, rfl⟩ := List.mem_map.1 member
    refine ⟨?_, rfl⟩
    simp [startTask, Task.wentLive, notYet]

theorem invoke_blank {op : Op} (invoked : invoke config env shared op = some (after, call)) : call.Blank := by
  cases invoke_move invoked with
  | refused | renewLease | closed => exact blank_ended _ _
  | @createParent _ _ _ child _ _ _ noParent =>
    refine blank_starts _ [child] _ rfl fun other member => ?_
    rw [List.mem_singleton.1 member, noParent]
    rfl
  | fork _ _ parents =>
    refine blank_starts _ _ [] rfl fun child member => ?_
    rw [parents child member]
    rfl
  | kills listed => cases listed <;> exact blank_kills _ _ _ rfl
  | closing | closes =>
    exact ⟨⟨fun _ member => absurd member List.not_mem_nil, rfl⟩, fun _ member => absurd member List.not_mem_nil⟩

/-! ### The later sections -/

theorem isFork_congr (same : next.op = call.op) : next.isFork = call.isFork := by
  unfold isFork
  rw [same]

theorem turn_fits (fits : call.Fits) {receipts : Dict BranchId KillReceipt} {pending : List BranchId}
    {winnerId : BranchId} (isOp : call.op = .killLosers winnerId) (move : SweepMove shared call receipts pending next) :
    next.Fits := by
  have notFork : call.isFork = false := by simp [isFork, isOp]
  cases move with
  | ends => exact ⟨fits.children, trivial⟩
  | reaped | gone => exact ⟨fits.children, winnerId, isOp⟩
  | waits => exact fits
  | killsAgain =>
    refine ⟨fun task member => ?_, winnerId, isOp⟩
    obtain old | new := List.mem_append.1 member
    · exact fits.children task old
    · rw [List.mem_singleton.1 new]
      exact notFork.symm

theorem advance_fits (fits : call.Fits) (advanced : call.advance config shared = some (after, next)) :
    next.Fits := by
  have stageFits := fits.stage
  unfold StageFits at stageFits
  -- the tasks that a section adds are kills, and only two ops add some
  have ofItems : ∀ more, next.items = call.items ++ more → (∀ task ∈ more, task.isChild = call.isFork) →
      ∀ task ∈ next.items, task.isChild = next.isFork := by
    intro more items kinds task member
    rw [isFork_congr (advance_op advanced)]
    rw [items] at member
    exact (List.mem_append.1 member).elim (fits.children task) (kinds task)
  have ofSame : next.items = call.items → ∀ task ∈ next.items, task.isChild = next.isFork := fun items =>
    ofItems [] (items.trans (List.append_nil _).symm) fun _ member => absurd member List.not_mem_nil
  cases advance_move advanced with
  | fanOut _ ended isFault move =>
    cases move with
    | sweeps isOp => exact ⟨ofSame rfl, _, isOp⟩
    | reconciled isOp => exact ⟨ofSame rfl, isOp, rfl, finished_of_fanOut ended isFault⟩
    | raised | reconcileRaised | closeRaised | started | forked | killed | renewed | reaped | closed =>
      exact ⟨ofSame rfl, trivial⟩
  | tally | retryRaised | follows => exact ⟨ofSame rfl, trivial⟩
  | sweep atStage move =>
    simp only [atStage] at stageFits
    obtain ⟨winnerId, isOp⟩ := stageFits
    exact turn_fits fits isOp move
  | retried atStage =>
    simp only [atStage] at stageFits
    obtain ⟨winnerId, isOp⟩ := stageFits
    exact ⟨ofSame rfl, winnerId, isOp⟩
  | drained atStage =>
    simp only [atStage] at stageFits
    refine ⟨ofItems _ rfl fun task member => ?_, trivial⟩
    obtain ⟨branchId, _, rfl⟩ := List.mem_map.1 member
    unfold isFork
    rw [stageFits]
    rfl

/-- A section moves to the counters what the call owes no longer. -/
structure Reports (before after : Shared) (call next : Call) : Prop where
  fits : next.Fits
  forks : after.metrics.forks + next.unreportedForks = before.metrics.forks + call.unreportedForks
  kills : after.metrics.kills = before.metrics.kills
  reapedExpired : after.metrics.reapedExpired + next.unreportedLapsed =
    before.metrics.reapedExpired + call.unreportedLapsed

theorem unreported_of_running (running : call.succeeded = false) :
    call.unreportedForks = call.items.countP Task.wentLive ∧
      call.unreportedLapsed = call.items.countP call.reapedForLease := by
  rw [unreportedForks, unreportedLapsed, running]
  exact ⟨rfl, rfl⟩

/-- A call that does not return in the section owes what it owed. -/
theorem unreported_restaged (stage : Stage) (running : call.succeeded = false)
    (still : ({ call with stage := stage } : Call).succeeded = false) :
    ({ call with stage := stage } : Call).unreportedForks = call.unreportedForks ∧
      ({ call with stage := stage } : Call).unreportedLapsed = call.unreportedLapsed := by
  obtain ⟨forks, lapsed⟩ := unreported_of_running running
  obtain ⟨stillForks, stillLapsed⟩ := unreported_of_running still
  rw [forks, lapsed, stillForks, stillLapsed]
  exact ⟨rfl, rfl⟩

theorem succeeded_of_stage {stage : Stage} (atStage : call.stage = stage)
    (running : ∀ value, stage ≠ .finished (.ok value)) : call.succeeded = false := by
  unfold succeeded
  rw [atStage]
  split
  · exact absurd rfl (running _)
  · rfl

/-- A call that is no fork and no collector owes nothing. -/
theorem reports_elsewhere (fits : call.Fits) (nextFits : next.Fits) (same : next.op = call.op)
    (notFork : call.isFork = false) (notCollector : call.collects = false) (metrics : after.metrics = shared.metrics) :
    Reports shared after call next := by
  have nextNotFork : next.isFork = false := (isFork_congr same).trans notFork
  have nextNotCollector : next.collects = false := by
    unfold collects at notCollector ⊢
    rwa [same]
  refine ⟨nextFits, ?_, by rw [metrics], ?_⟩
  · rw [metrics, unreportedForks_eq_zero fits notFork, unreportedForks_eq_zero nextFits nextNotFork]
  · rw [metrics, unreportedLapsed_eq_zero (forLease_of_not_collects notCollector),
      unreportedLapsed_eq_zero (forLease_of_not_collects nextNotCollector)]

/-- A fan-out that raises reports nothing. -/
theorem reports_raised (running : call.succeeded = false) {fault : Fault} (nextFits : (call.finish (.error fault)).Fits)
    (forks : after.metrics.forks = shared.metrics.forks) (kills : after.metrics.kills = shared.metrics.kills)
    (reaped : after.metrics.reapedExpired = shared.metrics.reapedExpired) :
    Reports shared after call (call.finish (.error fault)) := by
  obtain ⟨owedForks, owedLapsed⟩ := unreported_restaged (.finished (.error fault)) running rfl
  refine ⟨nextFits, ?_, kills, ?_⟩
  · rw [forks]
    exact congrArg _ owedForks
  · rw [reaped]
    exact congrArg _ owedLapsed

/-- A fan-out that raises nothing counts all children of a fork and all that
`reap_expired` has reaped; `reconcile` does so in its next section, and a fan-out
that raises counts neither. -/
theorem reports_fanOut (fits : call.Fits) (nextFits : next.Fits) (same : next.op = call.op) (atStage : call.stage = .fanOut)
    (ended : call.fanOutEnded config = true) {fault : Option Fault} (isFault : fanOutFault call.items = fault)
    (move : FanOutMove shared call fault after next) : Reports shared after call next := by
  have running := succeeded_of_stage atStage nofun
  obtain ⟨owedForks, owedLapsed⟩ := unreported_of_running running
  cases move with
  | raised | reconcileRaised | closeRaised => exact reports_raised running nextFits rfl rfl rfl
  | started isOp | killed isOp | sweeps isOp | renewed isOp | closed isOp =>
    exact reports_elsewhere fits nextFits same (by simp [isFork, isOp]) (by simp [collects, isOp]) rfl
  | forked isOp =>
    have notCollector : call.collects = false := by simp [collects, isOp]
    refine ⟨nextFits, ?_, rfl, ?_⟩
    · rw [owedForks, ← forked_length fits (by simp [isFork, isOp]) (finished_of_fanOut ended isFault)]
      rfl
    · rw [unreportedLapsed_eq_zero (forLease_of_not_collects notCollector)]
      rfl
  | reaped isOp =>
    have listsAll : call.forLease = fun _ => true := funext fun branchId => by simp [forLease, isOp]
    refine ⟨nextFits, ?_, rfl, ?_⟩
    · rw [unreportedForks_eq_zero fits (by simp [isFork, isOp])]
      rfl
    · rw [owedLapsed, ← reaped_length call _ listsAll]
      simp only [Bool.and_true]
      rfl
  | reconciled =>
    obtain ⟨forks, lapsed⟩ := unreported_restaged (.tally call.receipts) running rfl
    exact ⟨nextFits, congrArg _ forks, rfl, congrArg _ lapsed⟩

theorem advance_reports (fits : call.Fits) (advanced : call.advance config shared = some (after, next)) :
    Reports shared after call next := by
  have nextFits := advance_fits fits advanced
  have same := advance_op advanced
  have stageFits := fits.stage
  unfold StageFits at stageFits
  cases advance_move advanced with
  | fanOut atStage ended isFault move => exact reports_fanOut fits nextFits same atStage ended isFault move
  | tally atStage =>
    have running := succeeded_of_stage atStage nofun
    simp only [atStage] at stageFits
    obtain ⟨isOp, isReceipts, _⟩ := stageFits
    obtain ⟨_, owedLapsed⟩ := unreported_of_running running
    have listed : call.forLease = fun branchId => decide (branchId ∈ call.expired) :=
      funext fun branchId => by simp [forLease, isOp]
    refine ⟨nextFits, ?_, rfl, ?_⟩
    · rw [unreportedForks_eq_zero fits (by simp [isFork, isOp])]
      rfl
    · rw [owedLapsed, ← reaped_length call _ listed, isReceipts]
      rfl
  | sweep atStage | retryRaised atStage | retried atStage =>
    simp only [atStage] at stageFits
    obtain ⟨winnerId, isOp⟩ := stageFits
    exact reports_elsewhere fits nextFits same (by simp [isFork, isOp]) (by simp [collects, isOp]) rfl
  | drained atStage | follows atStage =>
    simp only [atStage] at stageFits
    exact reports_elsewhere fits nextFits same (by simp [isFork, stageFits]) (by simp [collects, stageFits]) rfl

end Call

/-! ## Runs -/

/-- The counters are behind what has happened by what is still owed. -/
structure Accounted (tallied : Tallied) : Prop where
  fits : ∀ call ∈ tallied.state.calls, call.Fits
  forks : tallied.state.shared.metrics.forks +
    (tallied.state.calls.map Call.unreportedForks).sum = tallied.tally.live
  kills : tallied.state.shared.metrics.kills = tallied.tally.killed
  reapedExpired : tallied.state.shared.metrics.reapedExpired +
    (tallied.state.calls.map Call.unreportedLapsed).sum = tallied.tally.lapsed

/-- A call that has raised owes nothing. -/
def Call.Settled (call : Call) : Prop :=
  ∀ fault, call.stage = .finished (.error fault) → call.unreportedForks = 0 ∧ call.unreportedLapsed = 0

/-- A call whose tasks still run is in no stage that has their receipts. -/
theorem Call.Fits.stage_item {call : Call} {task : Task} (fits : call.Fits) (member : task ∈ call.items)
    (notFinished : task.finished = false) (items : List Task) :
    ({ call with items := items } : Call).StageFits := by
  have stageFits := fits.stage
  unfold StageFits at stageFits ⊢
  cases atStage : call.stage with
  | tally receipts =>
    simp only [atStage] at stageFits
    rw [stageFits.2.2 task member] at notFinished
    cases notFinished
  | fanOut | finished => exact trivial
  | sweep | retry | draining | awaitClosed =>
    simp only [atStage] at stageFits ⊢
    exact stageFits

/-- A step of a task changes what its call owes. -/
theorem Call.unreported_item {call : Call} {i : Nat} {task next : Task} (running : call.isOver = false)
    (atItem : call.items[i]? = some task) (tells : task.Tells shared after next) :
    ({ call with items := call.items.set i next } : Call).unreportedForks =
        call.unreportedForks + (task.makesLive shared after).toNat ∧
      ({ call with items := call.items.set i next } : Call).unreportedLapsed =
        call.unreportedLapsed + (task.removes shared after && call.forLease task.branchId).toNat := by
  have notSucceeded : call.succeeded = false := by
    unfold isOver at running
    unfold succeeded
    cases atStage : call.stage with
    | finished => simp [atStage] at running
    | _ => rfl
  obtain ⟨owedForks, owedLapsed⟩ := unreported_of_running notSucceeded
  obtain ⟨nowForks, nowLapsed⟩ :=
    @unreported_of_running { call with items := call.items.set i next } notSucceeded
  have forks := countP_set atItem next Task.wentLive
  have lapsed := countP_set atItem next call.reapedForLease
  have live := tells.live
  have reaped := tells.reaped call
  rw [owedForks, owedLapsed, nowForks, nowLapsed]
  refine ⟨by simp only; omega, ?_⟩
  change (call.items.set i next).countP call.reapedForLease = _
  omega

namespace Accounted

variable {before next : Tallied} {action : Action}

theorem item {c i : Nat} {call : Call} {task moved : Task} {tally : Tally} {state : State}
    (accounted : Accounted ⟨state, tally⟩) (atCall : state.calls[c]? = some call)
    (atItem : call.items[i]? = some task) (running : call.isOver = false)
    (stepped : task.step config env state.shared = some (after, moved))
    (countable : task.countable state.shared = true) :
    Accounted ⟨⟨after, state.calls.set c { call with items := call.items.set i moved }⟩,
      tally.observe call task state.shared after⟩ := by
  have tells := Task.step_tells stepped countable
  have callFits := accounted.fits call (List.mem_of_getElem? atCall)
  obtain ⟨forks, lapsed⟩ := Call.unreported_item running atItem tells
  have sumForks := sum_map_set atCall { call with items := call.items.set i moved } Call.unreportedForks
  have sumLapsed := sum_map_set atCall { call with items := call.items.set i moved } Call.unreportedLapsed
  refine ⟨fun other isOther => ?_, ?_, ?_, ?_⟩
  · obtain old | rfl := List.mem_or_eq_of_mem_set isOther
    · exact accounted.fits other old
    · refine ⟨fun other isItem => ?_, ?_⟩
      · obtain old | rfl := List.mem_or_eq_of_mem_set isItem
        · exact callFits.children other old
        · exact tells.child.trans (callFits.children task (List.mem_of_getElem? atItem))
      · exact callFits.stage_item (List.mem_of_getElem? atItem) (Task.not_finished_of_step stepped) _
  · have was := accounted.forks
    simp only [Tally.observe, tells.forks] at was ⊢
    omega
  · have was := accounted.kills
    simp only [Tally.observe, tells.kills] at was ⊢
    omega
  · have was := accounted.reapedExpired
    simp only [Tally.observe, tells.reapedExpired] at was ⊢
    omega

theorem invoke {op : Op} {call : Call} {tally : Tally} {state : State} (accounted : Accounted ⟨state, tally⟩)
    (invoked : invoke config env state.shared op = some (after, call)) :
    Accounted ⟨⟨after, state.calls ++ [call]⟩, tally⟩ := by
  have isBlank := Call.invoke_blank invoked
  obtain ⟨noForks, noLapsed⟩ := isBlank.unreported
  have metrics := invoke_metrics invoked
  refine ⟨fun other isOther => ?_, ?_, ?_, ?_⟩
  · obtain old | new := List.mem_append.1 isOther
    · exact accounted.fits other old
    · rw [List.mem_singleton.1 new]
      exact isBlank.fits
  · have was := accounted.forks
    simp only [metrics, List.map_append, List.map_cons, List.map_nil, List.sum_append, List.sum_cons,
      List.sum_nil, noForks] at was ⊢
    omega
  · exact (congrArg Metrics.kills metrics).trans accounted.kills
  · have was := accounted.reapedExpired
    simp only [metrics, List.map_append, List.map_cons, List.map_nil, List.sum_append, List.sum_cons,
      List.sum_nil, noLapsed] at was ⊢
    omega

theorem advance {c : Nat} {call later : Call} {tally : Tally} {state : State}
    (accounted : Accounted ⟨state, tally⟩) (atCall : state.calls[c]? = some call)
    (advanced : call.advance config state.shared = some (after, later)) :
    Accounted ⟨⟨after, state.calls.set c later⟩, tally⟩ := by
  have reports := Call.advance_reports (accounted.fits call (List.mem_of_getElem? atCall)) advanced
  have sumForks := sum_map_set atCall later Call.unreportedForks
  have sumLapsed := sum_map_set atCall later Call.unreportedLapsed
  refine ⟨fun other isOther => ?_, ?_, ?_, ?_⟩
  · obtain old | rfl := List.mem_or_eq_of_mem_set isOther
    · exact accounted.fits other old
    · exact reports.fits
  · have was := accounted.forks
    have moved := reports.forks
    simp only at was ⊢
    omega
  · exact reports.kills.trans accounted.kills
  · have was := accounted.reapedExpired
    have moved := reports.reapedExpired
    simp only at was ⊢
    omega

theorem boot {world : World} (booted : Shared.boot config world = .ok shared) : Accounted (Tallied.fresh shared) := by
  have metrics : shared.metrics = ⟨0, 0, 0, 0, 0⟩ := by
    unfold Shared.boot at booted
    simp only at booted
    split at booted <;> cases booted
    rfl
  refine ⟨fun _ member => absurd member List.not_mem_nil, ?_, ?_, ?_⟩ <;>
    simp [Tallied.fresh, State.fresh, metrics]

/-- Whether a fan-out raises or not, what has happened is counted or owed. -/
theorem step (accounted : Accounted before)
    (countable : ∀ c i env task, action = .item c i env → before.state.task? (c, i) = some task →
      task.countable before.state.shared = true)
    (taken : before.Step config action next) : Accounted next := by
  obtain ⟨state, tally⟩ := before
  obtain ⟨after, afterTally⟩ := next
  obtain ⟨stepped, observed⟩ := taken.state
  simp only at stepped observed
  cases State.Step.move stepped with
  | @item c i env call task moved shared atCall atItem running _ taskStepped =>
    have sameTask : state.task? (c, i) = some task := (taskAt_of_call atCall i).trans atItem
    simp only [Tallied.observed, atCall, atItem] at observed
    rw [observed]
    exact accounted.item atCall atItem running taskStepped (countable c i env task rfl sameTask)
  | journal _ _ _ _ invoked =>
    rw [show afterTally = tally from observed]
    exact accounted.invoke invoked
  | invoke _ _ invoked =>
    rw [show afterTally = tally from observed]
    exact accounted.invoke invoked
  | advance atCall _ _ _ advanced =>
    rw [show afterTally = tally from observed]
    exact accounted.advance atCall advanced

end Accounted

/-! ## Calls that raise -/

namespace Call

theorem settled_invoke {op : Op} {call : Call} (invoked : invoke config env shared op = some (after, call)) :
    call.Settled := fun _ _ => (invoke_blank invoked).unreported

/-- A fan-out that raises with nothing to report leaves nothing owed. -/
theorem settled_raised {call : Call} (atStage : call.stage = .fanOut) (keeps : call.drops = false) {fault : Fault}
    (raised : fanOutFault call.items = some fault) : (call.finish (.error fault)).Settled := by
  intro _ _
  obtain ⟨forks, lapsed⟩ := @unreported_of_running (call.finish (.error fault)) rfl
  unfold drops at keeps
  simp only [atStage, raised, Option.isSome_some, Bool.true_and, List.any_eq_false, Bool.or_eq_true, not_or] at keeps
  rw [forks, lapsed]
  exact ⟨List.countP_eq_zero.2 fun task member => (keeps task member).1,
    List.countP_eq_zero.2 fun task member => (keeps task member).2⟩

/-- A call that is no fork and no collector never owes anything. -/
theorem settled_elsewhere {call : Call} (fits : call.Fits) (notFork : call.isFork = false)
    (notCollector : call.collects = false) : call.Settled := fun _ _ =>
  ⟨unreportedForks_eq_zero fits notFork, unreportedLapsed_eq_zero (forLease_of_not_collects notCollector)⟩

theorem settled_advance {call next : Call} (fits : call.Fits) (keeps : call.drops = false)
    (advanced : call.advance config shared = some (after, next)) : next.Settled := by
  have stageFits := fits.stage
  have nextFits := advance_fits fits advanced
  have same := advance_op advanced
  unfold StageFits at stageFits
  cases advance_move advanced with
  | fanOut atStage _ isFault move =>
    cases move with
    | raised | reconcileRaised | closeRaised => exact settled_raised atStage keeps isFault
    | started | forked | killed | sweeps | renewed | reaped | reconciled | closed =>
      intro fault raised
      cases raised
  | tally =>
    intro fault raised
    cases raised
  | sweep atStage | retryRaised atStage | retried atStage =>
    simp only [atStage] at stageFits
    obtain ⟨winnerId, isOp⟩ := stageFits
    exact settled_elsewhere nextFits (by simp [isFork, same, isOp]) (by simp [collects, same, isOp])
  | drained atStage | follows atStage =>
    simp only [atStage] at stageFits
    exact settled_elsewhere nextFits (by simp [isFork, same, stageFits]) (by simp [collects, same, stageFits])

end Call

/-- Every call that has raised has reported what went well before. -/
theorem settled_step {before after : State} {action : Action} (fits : ∀ call ∈ before.calls, call.Fits)
    (settled : ∀ call ∈ before.calls, call.Settled) (counts : before.Counts action)
    (taken : before.Step config action after) : ∀ call ∈ after.calls, call.Settled := by
  cases State.Step.move taken with
  | @item c i env call task moved shared atCall atItem running _ taskStepped =>
    intro other isOther
    obtain old | rfl := List.mem_or_eq_of_mem_set isOther
    · exact settled other old
    · -- a call that runs a task is not over
      intro fault raised
      have isStage : call.stage = .finished (.error fault) := raised
      rw [Call.isOver, isStage] at running
      cases running
  | journal _ _ _ _ invoked =>
    intro other isOther
    obtain old | new := List.mem_append.1 isOther
    · exact settled other old
    · rw [List.mem_singleton.1 new]
      exact Call.settled_invoke invoked
  | invoke _ _ invoked =>
    intro other isOther
    obtain old | new := List.mem_append.1 isOther
    · exact settled other old
    · rw [List.mem_singleton.1 new]
      exact Call.settled_invoke invoked
  | @advance c _ call later _ atCall _ _ _ advanced =>
    intro other isOther
    obtain old | rfl := List.mem_or_eq_of_mem_set isOther
    · exact settled other old
    · have keeps : call.drops = false := by simpa [State.Counts, atCall] using counts
      exact Call.settled_advance (fits call (List.mem_of_getElem? atCall)) keeps advanced

/-! ## Exactness -/

theorem State.Counts.countable {state : State} {action : Action} (counts : state.Counts action) {c i : Nat}
    {env : Env} {task : Task} (isItem : action = .item c i env) (found : state.task? (c, i) = some task) :
    task.countable state.shared = true := by
  subst isItem
  simpa [State.Counts, found] using counts

namespace Accounted

variable {tallied : Tallied}

/-- With no call in progress the counters are exact if nothing is owed, and only then. -/
theorem exact_iff (accounted : Accounted tallied) : tallied.Exact ↔
    ∀ call ∈ tallied.state.calls, call.unreportedForks = 0 ∧ call.unreportedLapsed = 0 := by
  have forks := accounted.forks
  have lapsed := accounted.reapedExpired
  constructor
  · intro exact call member
    have noForks : (tallied.state.calls.map Call.unreportedForks).sum = 0 := by
      have isExact := exact.forks
      omega
    have noLapsed : (tallied.state.calls.map Call.unreportedLapsed).sum = 0 := by
      have isExact := exact.reapedExpired
      omega
    exact ⟨List.sum_eq_zero_iff_forall_eq_nat.1 noForks _ (List.mem_map_of_mem member),
      List.sum_eq_zero_iff_forall_eq_nat.1 noLapsed _ (List.mem_map_of_mem member)⟩
  · intro nothing
    have noForks : (tallied.state.calls.map Call.unreportedForks).sum = 0 := by
      refine List.sum_eq_zero_iff_forall_eq_nat.2 fun owed member => ?_
      obtain ⟨call, isCall, rfl⟩ := List.mem_map.1 member
      exact (nothing call isCall).1
    have noLapsed : (tallied.state.calls.map Call.unreportedLapsed).sum = 0 := by
      refine List.sum_eq_zero_iff_forall_eq_nat.2 fun owed member => ?_
      obtain ⟨call, isCall, rfl⟩ := List.mem_map.1 member
      exact (nothing call isCall).2
    exact ⟨by omega, accounted.kills, by omega⟩

theorem exact_of_settled (accounted : Accounted tallied) (quiescent : tallied.Quiescent)
    (settled : ∀ call ∈ tallied.state.calls, call.Settled) : tallied.Exact := by
  refine accounted.exact_iff.2 fun call member => ?_
  have ended := quiescent call member
  cases atStage : call.stage with
  | finished outcome =>
    cases outcome with
    | error fault => exact settled call member fault atStage
    | ok value => simp [Call.unreportedForks, Call.unreportedLapsed, Call.succeeded, atStage]
  | _ => simp [Call.isOver, atStage] at ended

end Accounted

/-- What a run that counts comes to. -/
theorem accounted_of_reachable {world : World} {tallied : Tallied} (booted : Shared.boot config world = .ok shared)
    (reached : Reachable (Tallied.Step config) Tallied.Counts (Tallied.fresh shared) tallied) :
    Accounted tallied ∧ ∀ call ∈ tallied.state.calls, call.Settled := by
  induction reached with
  | refl => exact ⟨Accounted.boot booted, fun _ member => absurd member List.not_mem_nil⟩
  | tail _ counts taken inductionHypothesis =>
    obtain ⟨accounted, settled⟩ := inductionHypothesis
    exact ⟨accounted.step (fun _ _ _ _ isItem found => counts.countable isItem found) taken,
      settled_step accounted.fits settled counts taken.state.1⟩

/-- In a run whose steps count what they do, the counters are exact whenever no
call is in progress. -/
theorem counters_exact {world : World} {tallied : Tallied} (booted : Shared.boot config world = .ok shared)
    (reached : Reachable (Tallied.Step config) Tallied.Counts (Tallied.fresh shared) tallied)
    (quiescent : tallied.Quiescent) : tallied.Exact := by
  obtain ⟨accounted, settled⟩ := accounted_of_reachable booted reached
  exact accounted.exact_of_settled quiescent settled

/-- The state of the serial orchestrator after the actions, with what has happened. -/
def talliedRun (actions : List Action) : Tallied :=
  runFrom (Tallied.step serialConfig) (Tallied.fresh blank) actions

/-- A parent with a lease and its child. -/
def leasedFamilyRun : List Action :=
  [.invoke (.createParent "p" [] (some 10)) (readAt 0), .item 0 0 returns, .item 0 0 returns, .item 0 0 returns,
    .item 0 0 returns, .advance 0,
    .invoke (.fork "p" 1 (some ["a"]) none) returns, .item 1 0 returns, .item 1 0 returns, .item 1 0 returns,
    .item 1 0 returns, .item 1 0 returns, .advance 1]

/-- A fork whose only child cannot be spawned, a kill that fails at first, and a
collection of the parent. -/
def countedRun : List Action := leasedFamilyRun ++
  [.invoke (.fork "p" 1 (some ["b"]) none) returns, .item 2 0 returns, .item 2 0 returns,
    .item 2 0 (raises .exception), .item 2 0 returns, .item 2 0 returns, .item 2 0 returns, .item 2 0 returns,
    .advance 2,
    .invoke (.kill "a") returns, .item 3 0 returns, .item 3 0 (raises .exception), .item 3 0 returns, .advance 3,
    .invoke (.kill "a") returns, .item 4 0 returns, .item 4 0 returns, .item 4 0 returns, .item 4 0 returns,
    .advance 4,
    .invoke .reapExpired (readAt 20), .item 5 0 returns, .item 5 0 returns, .item 5 0 returns, .item 5 0 returns,
    .advance 5]

theorem countedRun_exact : (talliedRun countedRun).Exact ∧ (talliedRun countedRun).tally = ⟨1, 2, 1⟩ := by
  have reached : Reachable (Tallied.Step serialConfig) Tallied.Counts (Tallied.fresh blank)
      (talliedRun countedRun) := reachable_runFrom (by decide) (by decide)
  exact ⟨counters_exact boot_blank reached (by decide), by decide⟩

/-- Two children of which the second one cannot be spawned: `fork` raises, and the
first one is live. -/
def halfForkedRun : List Action :=
  [.invoke (.createParent "p" [] none) returns, .item 0 0 returns, .item 0 0 returns, .item 0 0 returns,
    .item 0 0 returns, .advance 0,
    .invoke (.fork "p" 2 (some ["a", "b"]) none) returns, .item 1 0 returns, .item 1 0 returns,
    .item 1 0 returns, .item 1 0 returns, .item 1 0 returns, .item 1 1 returns, .item 1 1 returns,
    .item 1 1 (raises .exception), .item 1 1 returns, .item 1 1 returns, .item 1 1 returns, .item 1 1 returns,
    .advance 1]

/-- The sibling of a failed child is live and in no counter. -/
theorem sibling_is_not_counted : ¬ ∀ tallied, Reachable (Tallied.Step serialConfig) always (Tallied.fresh blank) tallied →
    tallied.Quiescent → tallied.Exact := by
  intro claimed
  have reached : Reachable (Tallied.Step serialConfig) always (Tallied.fresh blank) (talliedRun halfForkedRun) :=
    reachable_runFrom (by decide) meets_always
  have exact := claimed (talliedRun halfForkedRun) reached (by decide)
  have counted : (talliedRun halfForkedRun).state.shared.metrics.forks = 0 := by decide
  have happened : (talliedRun halfForkedRun).tally.live = 1 := by decide
  have same := exact.forks
  rw [counted, happened] at same
  cases same

/-! ## Ids that are journaled once

In a run in which nobody journals an id that still is in `_spawning`, the sections
that count find the record as they take it to be, so only a fan-out that raises
can make a counter wrong. -/

theorem Disciplined.countable {origin : Finset BranchId} {state : State} (disciplined : Disciplined config origin state)
    {index : Nat × Nat} {task : Task} (found : state.task? index = some task) :
    task.countable state.shared = true := by
  cases task with
  | start task =>
    obtain ⟨branchId, parentId, tokens, phase⟩ := task
    cases phase with
    | goLive =>
      have owns : StartOwns (state.shared.view origin branchId) _ := disciplined.owned.owns index _ found rfl
      have isForking := owns.phase.1
      simp only [view] at isForking
      obtain ⟨branch, stored, isState⟩ := Option.map_eq_some_iff.1 isForking
      have notLive : state.shared.isLive branchId = false := by
        rw [isLive, stored, Option.any_some, (Prod.mk.inj isState).1]
        rfl
      cases parentId with
      | none => rfl
      | some parentId => simp [Task.countable, notLive]
    | _ => cases parentId <;> rfl
  | kill task =>
    obtain ⟨branchId, allowClosing, phase⟩ := task
    cases phase with
    | forget freed =>
      have owns : KillOwns (state.shared.view origin branchId) _ := disciplined.owned.owns index _ found rfl
      obtain ⟨parentId, isKilling⟩ := owns.record
      simp only [view] at isKilling
      obtain ⟨branch, stored, _⟩ := Option.map_eq_some_iff.1 isKilling
      exact decide_eq_true (Dict.mem_of_get? stored)
    | _ => rfl

/-- No id is journaled that still is in `_spawning`, and no fan-out raises after a
part of it has gone well. -/
structure Tallied.Careful (config : Config) (tallied : Tallied) (action : Action) : Prop where
  unmarked : tallied.state.Unmarked config action
  reports : ∀ c call, action = .advance c → tallied.state.calls[c]? = some call → call.drops = false

/-- A careful run counts what it does. -/
theorem counts_of_careful {world : World} {tallied : Tallied} (booted : Shared.boot config world = .ok shared)
    (reached : Reachable (Tallied.Step config) (Tallied.Careful config) (Tallied.fresh shared) tallied) :
    Reachable (Tallied.Step config) Tallied.Counts (Tallied.fresh shared) tallied ∧
      Disciplined config shared.loaded tallied.state := by
  induction reached with
  | refl => exact ⟨.refl, Disciplined.boot booted⟩
  | @tail middle next action _ careful taken inductionHypothesis =>
    obtain ⟨counted, disciplined⟩ := inductionHypothesis
    refine ⟨.tail counted ?_ taken, disciplined.step careful.unmarked taken.state.1⟩
    change middle.state.Counts action
    cases action with
    | invoke op env => exact trivial
    | item c i env => exact Option.all_eq_true _ _ |>.2 fun task found => disciplined.countable found
    | advance c =>
      refine Option.all_eq_true _ _ |>.2 fun call atCall => ?_
      rw [careful.reports c call rfl atCall]
      rfl

end Agentfork.Orchestrator

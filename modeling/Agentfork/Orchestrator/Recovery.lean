import Agentfork.Orchestrator.Drain

/-! # Recovery from a crash

A crash leaves the registry file and the backends as they are. A new process
that loads the file and runs nothing but one `reconcile` kills each loaded record
once; if `reconcile` returns, all of these kills have returned, and an id that
the crashed process had without a record was in no backend to begin with. -/

namespace Agentfork.Orchestrator

open Shared Transition

variable {config : Config} {origin : Finset BranchId}

/-! ## The candidates of a first reconcile -/

theorem keys_of_keyed {branches : Dict BranchId Branch} (keyed : Keyed branches) :
    branches.values.map Branch.branchId = branches.keys := by
  unfold Dict.values Dict.keys
  rw [List.map_map]
  refine List.map_congr_left fun entry member => ?_
  obtain ⟨branchId, branch⟩ := entry
  exact keyed branchId branch (Dict.mem_entries.1 member)

/-- What a new process finds: nothing is marked, and all records are loaded. -/
structure Restarted (shared : Shared) : Prop where
  keyed : Keyed shared.branches
  loaded : shared.loaded = shared.branches.keys.toFinset
  spawning : shared.spawning = ∅
  killing : shared.killing = ∅
  opened : shared.ensureOpen false = .ok ()
  started : shared.started = []

theorem restarted_of_boot {world : World} {shared : Shared} (booted : Shared.boot config world = .ok shared) :
    Restarted shared ∧ shared.toWorld = world ∧ shared.branches = ofRecords world.file := by
  unfold Shared.boot at booted
  simp only at booted
  split at booted
  · cases booted
  · cases booted
    exact ⟨⟨keyed_insertAll keyed_empty, rfl, rfl, rfl, rfl, rfl⟩, rfl, rfl⟩

namespace Restarted

variable {shared : Shared} {order : List BranchId} {now : Int}

theorem unowned (restarted : Restarted shared) (branchId : BranchId) : shared.unowned branchId = true := by
  simp [Shared.unowned, restarted.spawning, restarted.killing]

theorem mem_stuck (restarted : Restarted shared) (isOrder : order.toFinset = shared.loaded)
    {branchId : BranchId} : branchId ∈ shared.stuck order ↔ branchId ∈ shared.branches := by
  have inOrder : branchId ∈ order ↔ branchId ∈ shared.branches := by
    rw [← List.mem_toFinset, isOrder, restarted.loaded, List.mem_toFinset, Dict.mem_keys]
  have recorded : ∀ branch ∈ shared.branches.values, branch.branchId ∈ shared.branches := by
    intro branch member
    rw [← Dict.mem_keys, ← keys_of_keyed restarted.keyed]
    exact List.mem_map.2 ⟨branch, member, rfl⟩
  unfold stuck
  simp only [restarted.unowned, Bool.and_true, List.mem_append, List.mem_filter, decide_eq_true_eq]
  constructor
  · rintro (midway | ⟨listed, _⟩)
    · obtain ⟨branch, member, rfl⟩ := List.mem_map.1 midway
      exact recorded branch (List.mem_of_mem_filter member)
    · exact inOrder.1 listed
  · intro isRecorded
    by_cases midway : branchId ∈ (shared.branches.values.filter fun branch =>
        decide (branch.state ≠ .live)).map Branch.branchId
    · exact .inl midway
    · exact .inr ⟨inOrder.2 isRecorded, midway⟩

theorem nodup_stuck (restarted : Restarted shared) (distinct : order.Nodup) : (shared.stuck order).Nodup := by
  unfold stuck
  refine List.Nodup.append ?_ (distinct.filter _) fun branchId midway listed => ?_
  · have keys := shared.branches.keys_nodup
    rw [← keys_of_keyed restarted.keyed] at keys
    exact keys.sublist (List.filter_sublist.map _)
  · simp only [List.mem_filter, Bool.and_eq_true, decide_eq_true_eq] at listed
    exact listed.2.1 midway

theorem expired_eq_nil (restarted : Restarted shared) (isOrder : order.toFinset = shared.loaded) :
    shared.expiredUnowned now (shared.stuck order) = [] := by
  unfold expiredUnowned
  rw [List.map_eq_nil_iff, List.filter_eq_nil_iff]
  intro branch member expired
  simp only [Bool.and_eq_true, decide_eq_true_eq] at expired
  refine expired.2 ((restarted.mem_stuck isOrder).2 ?_)
  rw [← Dict.mem_keys, ← keys_of_keyed restarted.keyed]
  exact List.mem_map.2 ⟨branch, member, rfl⟩

end Restarted

/-! ## One kill of a loaded record -/

/-- The kill has its branch still before it, is at it, has failed, or has
removed the branch for good. -/
def Task.Collects (view : View) : Task → Prop
  | .start _ => False
  | .kill ⟨_, _, .queued⟩ => view.record.isSome = true ∧ ¬ view.killing ∧ ¬ view.spawning
  | .kill ⟨branchId, _, .finished (.ok receipt)⟩ => receipt.branchId = branchId ∧ receipt.reaped = true ∧
      view.record = none ∧ ¬ view.kv ∧ ¬ view.sandbox
  | .kill _ => True

section Steps

variable {env : Env} {shared after : Shared}

theorem admitKill_recorded {task : KillTask} {failure : Option Fault} {receipt : KillReceipt}
    (recorded : task.branchId ∈ shared.branches) (notKilling : task.branchId ∉ shared.killing)
    (notSpawning : task.branchId ∉ shared.spawning) :
    admitKill config failure task shared ≠ (after, .finished (.ok receipt)) := by
  intro refused
  unfold admitKill at refused
  cases opened : shared.ensureOpen task.allowClosing with
  | error fault => rw [opened] at refused; cases refused
  | ok =>
    simp only [opened, recorded, notKilling, notSpawning, not_true_eq_false, or_self, if_false] at refused
    split at refused <;> cases refused

/-- A kill that returns after it has begun has removed its branch. -/
theorem killStep_collected {task : KillTask} {receipt : KillReceipt} (begun : task.phase ≠ .queued)
    (owns : KillOwns (shared.view origin task.branchId) task)
    (taken : killStep config env shared task = some (after, .finished (.ok receipt))) :
    receipt.branchId = task.branchId ∧ receipt.reaped = true ∧
      (after.view origin task.branchId).record = none ∧ ¬ (after.view origin task.branchId).kv ∧
      ¬ (after.view origin task.branchId).sandbox := by
  have here := owns.phase
  cases killStep_move taken with
  | refused atPhase => exact absurd atPhase begun
  | calls _ call replies => cases call <;> cases replies
  | forgets atPhase =>
    rw [atPhase] at here
    have forgotten := view_forgotten origin (shared.doneKilling task.branchId) task.branchId
      task.branchId config
    rw [if_pos rfl, view_doneKilling, if_pos rfl] at forgotten
    have record := congrArg View.record forgotten
    have kv := congrArg View.kv forgotten
    have sandbox := congrArg View.sandbox forgotten
    exact ⟨rfl, rfl, record, fun held => here.1 (kv ▸ held), fun held => here.2 (sandbox ▸ held)⟩

theorem Task.Collects.step {task next : Task} (collects : task.Collects (shared.view origin task.branchId))
    (owns : task.active = true → lifecycle.owns (shared.view origin task.branchId) task)
    (stepped : task.step config env shared = some (after, next)) :
    next.Collects (after.view origin task.branchId) := by
  cases task with
  | start task => exact collects.elim
  | kill task =>
    obtain ⟨⟨_, phase⟩, taken, equal⟩ := Option.map_eq_some_iff.1 stepped
    cases equal
    obtain ⟨branchId, allowClosing, before⟩ := task
    cases phase with
    | queued => exact absurd rfl (killStep_ne_queued taken)
    | sandboxKill | kvKill | failed | forget => exact trivial
    | finished outcome =>
      cases outcome with
      | error fault => exact trivial
      | ok receipt =>
        by_cases queued : before = .queued
        · subst queued
          obtain ⟨isRecorded, notKilling, notSpawning⟩ := collects
          obtain ⟨branch, found⟩ := Option.isSome_iff_exists.1 (Option.isSome_map ▸ isRecorded)
          exact absurd (Option.some.inj taken)
            (admitKill_recorded (Dict.mem_of_get? found) notKilling notSpawning)
        · have active : (Task.kill ⟨branchId, allowClosing, before⟩).active = true :=
            active_kill.2 ⟨queued, killStep_unfinished taken⟩
          exact killStep_collected queued (owns active) taken

end Steps

/-! ## The call -/

namespace Call

/-- What a `reconcile` has in hand, in each of its stages. -/
def Collected (call : Call) : Prop :=
  match call.stage with
  | .fanOut | .finished (.error _) => True
  | .tally receipts => call.items.map Task.receipt? = receipts.map some
  | .finished (.ok value) => ∃ receipts, value = .receipts receipts ∧
      call.items.map Task.receipt? = receipts.map some
  | _ => False

theorem map_eq_filterMap {items : List Task} (received : ∀ task ∈ items, task.receipt?.isSome = true) :
    items.map Task.receipt? = (items.filterMap Task.receipt?).map some := by
  induction items with
  | nil => rfl
  | cons task items inductionHypothesis =>
    obtain ⟨receipt, isReceipt⟩ := Option.isSome_iff_exists.1 (received task List.mem_cons_self)
    rw [List.map_cons, List.filterMap_cons, isReceipt, List.map_cons,
      inductionHypothesis fun other member => received other (List.mem_cons_of_mem task member)]

/-- A fan-out of kills that raises nothing has a receipt of each. -/
theorem receipts_of_fanOut {call : Call} (kills : ∀ task ∈ call.items, task.isStart = false)
    (ended : call.fanOutEnded config = true) (noFault : fanOutFault call.items = none) :
    call.items.map Task.receipt? = call.receipts.map some := by
  have finished := finished_of_fanOut ended noFault
  have noneFaulted := noFault_of_fanOut noFault
  have received : ∀ task ∈ call.items, task.receipt?.isSome = true := by
    intro task member
    have isFinished := finished task member
    have noFault := noneFaulted task member
    have isKill := kills task member
    cases task with
    | start task => cases isKill
    | kill task =>
      obtain ⟨_, _, phase⟩ := task
      cases phase with
      | finished outcome =>
        cases outcome with
        | ok receipt => rfl
        | error fault => cases noFault
      | _ => cases isFinished
  exact map_eq_filterMap received

theorem advance_reconcile {shared after : Shared} {call next : Call} (op : call.op = .reconcile)
    (kills : ∀ task ∈ call.items, task.isStart = false) (collected : call.Collected)
    (advanced : call.advance config shared = some (after, next)) :
    next.op = .reconcile ∧ next.items = call.items ∧ next.Collected := by
  unfold Collected at collected
  cases advance_move advanced with
  | fanOut atStage ended isFault move =>
    cases move with
    | reconciled => exact ⟨op, rfl, receipts_of_fanOut kills ended isFault⟩
    | reconcileRaised => exact ⟨op, rfl, trivial⟩
    | raised notReconcile => exact absurd op notReconcile
    | started isOp | forked isOp | killed isOp | sweeps isOp | renewed isOp | reaped isOp | closeRaised isOp | closed isOp =>
      rw [op] at isOp
      cases isOp
  | @tally receipts atStage =>
    simp only [atStage] at collected
    exact ⟨op, rfl, receipts, rfl, collected⟩
  | sweep atStage | retryRaised atStage | retried atStage | drained atStage | follows atStage =>
    simp only [atStage] at collected

end Call

theorem invoke_reconcile {env : Env} {shared after : Shared} {call : Call} (restarted : Restarted shared)
    (invoked : invoke config env shared .reconcile = some (after, call)) :
    after = shared ∧ call.op = .reconcile ∧ call.stage = .fanOut ∧
      call.items = (shared.stuck env.order).map (killTask false) ∧
      env.order.Nodup ∧ env.order.toFinset = shared.loaded := by
  cases invoke_move invoked with
  | refused refuses =>
    cases refuses with
    | reconcile isShut =>
      rw [restarted.opened] at isShut
      cases isShut
  | kills listed =>
    cases listed with
    | reconcile isOpen isOrder =>
      rw [restarted.expired_eq_nil isOrder.2, List.append_nil]
      exact ⟨rfl, rfl, rfl, rfl, isOrder.1, isOrder.2⟩

/-! ## The run of the new process -/

/-- The new process calls `reconcile` once. -/
def State.Recovers (state : State) : Action → Prop
  | .invoke op _ => op = .reconcile ∧ state.calls = []
  | _ => True

/-- The only call of the new process kills each loaded record. -/
structure Reconciling (config : Config) (loaded : Shared) (state : State) (call : Call) : Prop where
  only : state.calls = [call]
  op : call.op = .reconcile
  disciplined : Disciplined config loaded.loaded state
  ids : (call.items.map Task.branchId).Perm loaded.branches.keys
  collects : ∀ task ∈ call.items, task.Collects (state.shared.view loaded.loaded task.branchId)
  untouched : ∀ branchId, branchId ∉ loaded.branches →
    state.shared.view loaded.loaded branchId = loaded.view loaded.loaded branchId
  collected : call.Collected

theorem State.Unmarked.of_started {state after : State} {action : Action}
    (taken : state.Step config action after) (same : after.shared.started = state.shared.started) :
    state.Unmarked config action := by
  intro branchId journaled
  unfold State.journals at journaled
  rw [show state.step config action = some after from taken] at journaled
  simp only [same, List.drop_length, List.not_mem_nil] at journaled

namespace Reconciling

variable {loaded : Shared} {state after : State} {call : Call}

theorem isKill (reconciling : Reconciling config loaded state call) :
    ∀ task ∈ call.items, task.isStart = false := by
  intro task member
  have collects := reconciling.collects task member
  cases task with
  | start task => exact collects.elim
  | kill task => rfl

theorem mem_ids (reconciling : Reconciling config loaded state call) {branchId : BranchId} :
    (∃ task ∈ call.items, task.branchId = branchId) ↔ branchId ∈ loaded.branches := by
  rw [← Dict.mem_keys, ← reconciling.ids.mem_iff, List.mem_map]

/-- The step of one of the kills. -/
theorem item (reconciling : Reconciling config loaded state call) {i : Nat} {env : Env} {task next : Task}
    {shared : Shared} (atItem : call.items[i]? = some task) (running : call.isOver = false)
    (stepped : task.step config env state.shared = some (shared, next))
    (disciplined : Disciplined config loaded.loaded
      ⟨shared, state.calls.set 0 { call with items := call.items.set i next }⟩) :
    Reconciling config loaded ⟨shared, state.calls.set 0 { call with items := call.items.set i next }⟩
      { call with items := call.items.set i next } := by
  have moves := Task.step_moves (reconciling.disciplined.recorded task.branchId) stepped
  have member := List.mem_of_getElem? atItem
  have found : state.task? (0, i) = some task := by
    rw [State.task?, taskAt_of_call (by rw [reconciling.only]; rfl)]
    exact atItem
  have sameIds := ids_set atItem moves.key
  have distinct : (call.items.map Task.branchId).Nodup :=
    reconciling.ids.nodup_iff.2 loaded.branches.keys_nodup
  refine ⟨?_, reconciling.op, disciplined, sameIds ▸ reconciling.ids, fun other otherMember => ?_,
    fun branchId absent => ?_, ?_⟩
  · simp only [reconciling.only, List.set_cons_zero]
  · obtain ⟨j, atOther⟩ := List.mem_iff_getElem?.1 otherMember
    by_cases here : i = j
    · subst here
      rw [List.getElem?_set_self (List.getElem?_eq_some_iff.1 atItem).1] at atOther
      cases atOther
      rw [moves.key]
      exact (reconciling.collects task member).step
        (reconciling.disciplined.owned.owns (0, i) task found) stepped
    · rw [List.getElem?_set_ne here] at atOther
      -- the other kills work on other ids
      have differs : other.branchId ≠ task.branchId :=
        fun same => here (index_of_key distinct atItem atOther same.symm)
      rw [moves.onlyAt other.branchId differs]
      exact reconciling.collects other (List.mem_of_getElem? atOther)
  · have differs : branchId ≠ task.branchId := by
      rintro rfl
      exact absent (reconciling.mem_ids.1 ⟨task, member, rfl⟩)
    exact (moves.onlyAt branchId differs).trans (reconciling.untouched branchId absent)
  · have collected := reconciling.collected
    unfold Call.Collected at collected ⊢
    cases atStage : call.stage with
    | fanOut => trivial
    | tally receipts =>
      simp only [atStage] at collected
      -- all kills have returned
      have received : task.receipt? ∈ receipts.map some := collected ▸ List.mem_map.2 ⟨task, member, rfl⟩
      obtain ⟨receipt, _, isReceipt⟩ := List.mem_map.1 received
      rw [Task.step_finished (Task.finished_of_receipt isReceipt.symm)] at stepped
      cases stepped
    | sweep | retry | draining | awaitClosed => simp only [atStage] at collected
    | finished outcome =>
      unfold Call.isOver at running
      rw [atStage] at running
      cases running

theorem step (reconciling : Reconciling config loaded state call) {action : Action}
    (recovers : state.Recovers action) (taken : state.Step config action after) :
    ∃ next, Reconciling config loaded after next := by
  have isCall : ∀ {c other}, state.calls[c]? = some other → c = 0 ∧ other = call := by
    intro c other atCall
    rw [reconciling.only, List.getElem?_singleton] at atCall
    split at atCall
    · next here => exact ⟨here, (Option.some.inj atCall).symm⟩
    · cases atCall
  cases State.Step.move taken with
  | item atCall atItem running _ stepped =>
    obtain ⟨rfl, rfl⟩ := isCall atCall
    have unmarked := State.Unmarked.of_started taken (Task.step_marks stepped).1
    exact ⟨_, reconciling.item atItem running stepped (reconciling.disciplined.step unmarked taken)⟩
  | journal _ _ _ _ _ | invoke _ _ _ =>
    have noCall := recovers.2
    rw [reconciling.only] at noCall
    cases noCall
  | @advance c shared other next more atCall silent _ _ advanced =>
    obtain ⟨rfl, rfl⟩ := isCall atCall
    have unmarked := State.Unmarked.of_started taken silent.started
    obtain ⟨op, items, collected⟩ := Call.advance_reconcile reconciling.op reconciling.isKill
      reconciling.collected advanced
    refine ⟨next, ?_, op, reconciling.disciplined.step unmarked taken, items ▸ reconciling.ids,
      fun task member => ?_, fun branchId absent => ?_, collected⟩
    · simp only [reconciling.only, List.set_cons_zero]
    · rw [silent.view]
      exact reconciling.collects task (items ▸ member)
    · rw [silent.view]
      exact reconciling.untouched branchId absent

theorem start {shared : Shared} {env : Env} (restarted : Restarted loaded)
    (disciplined : Disciplined config loaded.loaded (State.fresh loaded))
    (invoked : invoke config env loaded .reconcile = some (shared, call)) :
    Reconciling config loaded ⟨shared, [call]⟩ call := by
  have taken : (State.fresh loaded).Step config (.invoke .reconcile env) ⟨shared, [call]⟩ :=
    Option.map_eq_some_iff.2 ⟨(shared, call), invoked, rfl⟩
  obtain ⟨rfl, op, stage, items, distinct, isOrder⟩ := invoke_reconcile restarted invoked
  have unmarked := State.Unmarked.of_started taken rfl
  have ids : call.items.map Task.branchId = shared.stuck env.order := by
    rw [items, List.map_map]
    exact List.map_id _
  refine ⟨rfl, op, disciplined.step unmarked taken, ?_, fun task member => ?_, fun _ _ => rfl, ?_⟩
  · rw [ids]
    refine (List.perm_ext_iff_of_nodup (restarted.nodup_stuck distinct) shared.branches.keys_nodup).2
      fun branchId => ?_
    rw [restarted.mem_stuck isOrder, Dict.mem_keys]
  · rw [items] at member
    obtain ⟨branchId, isStuck, rfl⟩ := List.mem_map.1 member
    obtain ⟨branch, found⟩ := Dict.mem_iff_get?.1 ((restarted.mem_stuck isOrder).1 isStuck)
    refine ⟨?_, ?_, ?_⟩
    · rw [show (killTask false branchId).branchId = branchId from rfl, view_record_of_get? found]
      rfl
    · simp only [view, restarted.killing, Finset.notMem_empty, not_false_eq_true]
    · simp only [view, restarted.spawning, Finset.notMem_empty, not_false_eq_true]
  · unfold Call.Collected
    rw [stage]
    trivial

end Reconciling

/-! ## Crash and recovery -/

section Crash

variable {successor : Config} {world : World} {shared loaded : Shared} {crashed state : State} {call : Call}
  {value : Value}

theorem reconciling_of_reachable (reloaded : Shared.boot config world = .ok loaded)
    (recovered : Reachable (State.Step config) State.Recovers (State.fresh loaded) state) :
    state = State.fresh loaded ∨ ∃ call, Reconciling config loaded state call := by
  obtain ⟨restarted, _, _⟩ := restarted_of_boot reloaded
  refine recovered.invariant (motive := fun state =>
    state = State.fresh loaded ∨ ∃ call, Reconciling config loaded state call) (.inl rfl) ?_
  intro before action after kept recovers taken
  refine .inr ?_
  obtain rfl | ⟨call, reconciling⟩ := kept
  · cases action with
    | invoke op env =>
      obtain ⟨rfl, _⟩ := recovers
      obtain ⟨⟨shared, call⟩, invoked, rfl⟩ := Option.map_eq_some_iff.1 taken
      exact ⟨call, Reconciling.start restarted (Disciplined.boot reloaded) invoked⟩
    | item c i env => cases taken
    | advance c => cases taken
  · exact reconciling.step recovers taken

/-- A kill that has returned leaves nothing of its branch. -/
theorem Reconciling.gone (reconciling : Reconciling config loaded state call)
    (received : ∀ task ∈ call.items, ∃ receipt, task.receipt? = some receipt) {branchId : BranchId}
    (recorded : branchId ∈ loaded.branches) :
    branchId ∉ state.shared.branches ∧ branchId ∉ state.shared.kv ∧ branchId ∉ state.shared.sandbox := by
  obtain ⟨task, member, rfl⟩ := reconciling.mem_ids.2 recorded
  have collects := reconciling.collects task member
  obtain ⟨receipt, isReceipt⟩ := received task member
  cases task with
  | start task => cases isReceipt
  | kill task =>
    obtain ⟨branchId, _, phase⟩ := task
    cases phase with
    | finished outcome =>
      cases outcome with
      | ok receipt =>
        obtain ⟨_, _, noRecord, noKv, noSandbox⟩ := collects
        exact ⟨Dict.get?_eq_none.1 (Option.map_eq_none_iff.1 noRecord), noKv, noSandbox⟩
      | error fault => cases isReceipt
    | _ => cases isReceipt

theorem Task.Collects.receipt {view : View} {task : Task} {receipt : KillReceipt} (collects : task.Collects view)
    (received : task.receipt? = some receipt) : receipt.branchId = task.branchId ∧ receipt.reaped = true := by
  cases task with
  | start task => cases received
  | kill task =>
    obtain ⟨branchId, _, phase⟩ := task
    cases phase with
    | finished outcome =>
      cases outcome with
      | ok other =>
        cases received
        exact ⟨collects.1, collects.2.1⟩
      | error fault => cases received
    | _ => cases received

/-- After any crash, a `reconcile` that returns has removed what the crashed
process has left: every record, and every branch it had in a backend. -/
theorem reconcile_recovers (registry : config.registry = true) (keepsRegistry : successor.registry = true)
    (booted : Shared.boot config world = .ok shared)
    (reached : Reachable (State.Step config) always (State.fresh shared) crashed)
    (once : crashed.shared.started.Nodup)
    (reloaded : Shared.boot successor crashed.shared.toWorld = .ok loaded)
    (recovered : Reachable (State.Step successor) State.Recovers (State.fresh loaded) state)
    (isCall : state.calls[0]? = some call) (returned : call.stage = .finished (.ok value)) :
    state.shared.branches.keys = [] ∧ state.shared.file = [] ∧
      (∀ branchId, branchId ∈ crashed.shared.started ∨ branchId ∈ shared.loaded →
        branchId ∉ state.shared.kv ∧ branchId ∉ state.shared.sandbox) ∧
      ∃ receipts, value = .receipts receipts ∧
        (receipts.map KillReceipt.branchId).Perm loaded.branches.keys ∧
        ∀ receipt ∈ receipts, receipt.reaped = true := by
  have disciplined := disciplined_of_once booted reached once
  obtain ⟨_, sameWorld, sameRecords⟩ := restarted_of_boot reloaded
  obtain rfl | ⟨only, reconciling⟩ := reconciling_of_reachable reloaded recovered
  · cases isCall
  · rw [reconciling.only] at isCall
    cases isCall
    have collected := reconciling.collected
    unfold Call.Collected at collected
    rw [returned] at collected
    obtain ⟨receipts, rfl, received⟩ := collected
    have allReceived : ∀ task ∈ call.items, ∃ receipt, task.receipt? = some receipt := by
      intro task member
      have isReceipt : task.receipt? ∈ receipts.map some := received ▸ List.mem_map.2 ⟨task, member, rfl⟩
      obtain ⟨receipt, _, equal⟩ := List.mem_map.1 isReceipt
      exact ⟨receipt, equal.symm⟩
    have noRecord : ∀ branchId, branchId ∉ state.shared.branches := by
      intro branchId
      by_cases recorded : branchId ∈ loaded.branches
      · exact (reconciling.gone allReceived recorded).1
      · have same := congrArg View.record (reconciling.untouched branchId recorded)
        rw [← Dict.get?_eq_none, ← Option.map_eq_none_iff]
        refine same.trans ?_
        rw [view, Dict.get?_eq_none.2 recorded]
        rfl
    have synced := reconciling.disciplined.synced
    refine ⟨?_, ?_, fun branchId mine => ?_, receipts, rfl, ?_, fun receipt member => ?_⟩
    · exact List.eq_nil_iff_forall_not_mem.2 fun branchId listed => noRecord branchId (Dict.mem_keys.1 listed)
    · exact List.eq_nil_iff_forall_not_mem.2 fun branch listed =>
        noRecord branch.branchId ((synced.mem_file keepsRegistry).2 ⟨branch, listed, rfl⟩)
    · by_cases recorded : branchId ∈ loaded.branches
      · exact (reconciling.gone allReceived recorded).2
      · -- what the crashed process did not list it did not hold, and nobody has worked on it since
        have notHeld : ¬ (branchId ∈ crashed.shared.kv ∨ branchId ∈ crashed.shared.sandbox) := by
          intro held
          have listed := (disciplined.synced.mem_file registry).1 (disciplined.recorded_of_held mine held)
          rw [sameRecords, mem_ofRecords] at recorded
          exact recorded listed
        rw [not_or] at notHeld
        have same := reconciling.untouched branchId recorded
        have kv : (branchId ∈ state.shared.kv) = (branchId ∈ loaded.kv) := congrArg View.kv same
        have sandbox : (branchId ∈ state.shared.sandbox) = (branchId ∈ loaded.sandbox) :=
          congrArg View.sandbox same
        rw [kv, sandbox, show loaded.kv = crashed.shared.kv from congrArg World.kv sameWorld,
          show loaded.sandbox = crashed.shared.sandbox from congrArg World.sandbox sameWorld]
        exact notHeld
    · have sameIds : receipts.map KillReceipt.branchId = call.items.map Task.branchId := by
        have ids : (call.items.map Task.receipt?).map (Option.map KillReceipt.branchId) =
            (call.items.map Task.branchId).map some := by
          rw [List.map_map, List.map_map]
          refine List.map_congr_left fun task member => ?_
          obtain ⟨receipt, isReceipt⟩ := allReceived task member
          simp only [Function.comp_apply, isReceipt, Option.map_some,
            ((reconciling.collects task member).receipt isReceipt).1]
        rw [received, List.map_map] at ids
        refine List.map_injective_iff.2 (Option.some_injective _) ?_
        rw [← ids, List.map_map]
        rfl
      exact sameIds ▸ reconciling.ids
    · have isReceipt : some receipt ∈ call.items.map Task.receipt? :=
        received ▸ List.mem_map.2 ⟨receipt, member, rfl⟩
      obtain ⟨task, isTask, equal⟩ := List.mem_map.1 isReceipt
      exact ((reconciling.collects task isTask).receipt equal).2

end Crash

/-- A new process after a crash in the middle of the first creation. -/
def leftover : Shared :=
  match Shared.boot serialConfig (serialRun startingRun).shared.toWorld with
  | .ok shared => shared
  | .error _ => blank

def recoveryRun : List Action :=
  [.invoke .reconcile { returns with order := ["p"] }, .item 0 0 returns, .item 0 0 returns,
    .item 0 0 returns, .item 0 0 returns, .advance 0, .advance 0]

instance (state : State) : ∀ action, Decidable (state.Recovers action)
  | .invoke op _ => inferInstanceAs (Decidable (op = .reconcile ∧ state.calls = []))
  | .item _ _ _ => inferInstanceAs (Decidable True)
  | .advance _ => inferInstanceAs (Decidable True)

theorem recoveryRun_recovers :
    "p" ∈ (serialRun startingRun).shared.kv ∧ leftover.branches.keys = ["p"] ∧
      "p" ∉ (runFrom (State.step serialConfig) (State.fresh leftover) recoveryRun).shared.kv := by
  have returned : ((runFrom (State.step serialConfig) (State.fresh leftover) recoveryRun).calls[0]?).map
      Call.stage = some (.finished (.ok (.receipts [⟨"p", 0, true⟩]))) := by rfl
  obtain ⟨call, isCall, isStage⟩ := Option.map_eq_some_iff.1 returned
  obtain ⟨_, _, gone, _⟩ := reconcile_recovers rfl rfl boot_blank
    (serialRun_reachable (by decide) meets_always) (by decide)
    (show Shared.boot serialConfig (serialRun startingRun).shared.toWorld = .ok leftover from rfl)
    (reachable_runFrom (by decide) (by decide)) isCall isStage
  exact ⟨by decide, by decide, (gone "p" (.inl (by decide))).1⟩

end Agentfork.Orchestrator

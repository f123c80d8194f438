import Agentfork.Orchestrator.Drain
import Agentfork.Orchestrator.Leases
import Agentfork.Orchestrator.ManagedCache

/-! # The steps of a fork that goes by a plan

A plan says for each child which of its transitions raises, if any. The tasks of
the fork run in any order; a child whose transition has raised is rolled back.
`Stands` says for each phase of a child what it has in registry and backends, and
`Forking` is what all steps of the fork keep. -/

namespace Agentfork.Orchestrator

open Shared Transition Kv

/-- A transition of `spawn_one`. -/
inductive Point where
  | forkBranch
  | spawn
  | live
  deriving DecidableEq, Repr

/-! ## Steps that go by a plan -/

/-- The call raises if it is meant to and else returns. -/
def Reply.fits (fails : Bool) : Reply → Bool
  | .working => true
  | .returned => !fails
  | .raised _ _ => fails

/-- The transitions raise as planned; the cleanups of a rollback and its registry
write succeed. -/
def StartTask.goesBy (config : Config) (plan : BranchId → Option Point) (env : Env) (shared : Shared)
    (task : StartTask) : Bool :=
  match task.phase with
  | .kvStart => env.reply.fits (plan task.branchId = some .forkBranch)
  | .sandboxSpawn => env.reply.fits (plan task.branchId = some .spawn)
  | .goLive => (goLive config env.persist task shared).1.isOk == decide (plan task.branchId ≠ some .live)
  | .rollbackKv _ | .rollbackSandbox _ _ => env.reply.fits false
  | .rollbackForget _ => env.persist = none
  | _ => true

/-! ## One child -/

/-- What one id has in registry and backends. -/
structure Holding where
  record : Option Branch
  kv : Prop
  sandbox : Prop

def Shared.holdingOf (shared : Shared) (branchId : BranchId) : Holding :=
  ⟨shared.branches.get? branchId, branchId ∈ shared.kv, branchId ∈ shared.sandbox⟩

/-- How far a child has come, and what it has there. -/
def StartPhase.Stands (planned : Option Point) (child : Branch) (holding : Holding) : StartPhase → Prop
  | .queued | .kvStart => holding.record = some child ∧ ¬ holding.kv
  | .sandboxSpawn => holding.record = some child ∧ holding.kv ∧ planned ≠ some .forkBranch
  | .goLive => holding.record = some child ∧ holding.kv ∧ holding.sandbox ∧ planned ≠ some .forkBranch ∧
      planned ≠ some .spawn
  | .rollbackKv _ => holding.record = some child ∧ planned ≠ none
  | .rollbackSandbox _ false => holding.record = some child ∧ planned ≠ none ∧ ¬ holding.kv
  | .rollbackForget _ => holding.record = some child ∧ planned ≠ none ∧ ¬ holding.kv ∧ ¬ holding.sandbox
  | .settle (.ok branch) | .finished (.ok branch) => planned = none ∧ branch = setState .live child ∧
      holding.record = some branch ∧ holding.kv ∧ holding.sandbox
  | .settle (.error _) | .finished (.error _) => planned ≠ none ∧ holding.record = none ∧ ¬ holding.kv ∧
      ¬ holding.sandbox
  | _ => False

section Child

variable {config : Config} {plan : BranchId → Option Point} {env : Env} {shared after : Shared}

/-- A step of a child leaves what the other ids have. -/
theorem startStep_elsewhere {task : StartTask} {phase : StartPhase}
    (taken : startStep config env shared task = some (after, phase)) {other : BranchId}
    (differs : other ≠ task.branchId) : after.holdingOf other = shared.holdingOf other := by
  have onlyAt : OnlyAt ∅ task.branchId shared after := startStep_onlyAt taken
  have record := (startStep_record taken other).elsewhere onlyAt differs
  have kv : (other ∈ after.kv) = (other ∈ shared.kv) := congrArg View.kv (onlyAt other differs)
  have sandbox : (other ∈ after.sandbox) = (other ∈ shared.sandbox) := congrArg View.sandbox (onlyAt other differs)
  rw [holdingOf, holdingOf, record, kv, sandbox]

/-- A registry write that does not fail forgets the record. -/
theorem forget_written (config : Config) (branchId : BranchId) (shared : Shared) :
    forget config none branchId shared = (.ok (), { write config { shared with
      branches := shared.branches.erase branchId } with loaded := shared.loaded.erase branchId }) := by
  obtain ⟨fault, failed, equal, _⟩ | equal := forget_cases config none branchId shared
  · unfold forget persist at equal
    cases registry : config.registry <;> simp [registry] at equal
  · exact equal

/-- A step of a child that goes by the plan. -/
theorem startStep_stands {task : StartTask} {phase : StartPhase} {child : Branch}
    (direct : task.afterSpawn config = .goLive) (atomic : task.phase = .kvStart → env.reply ≠ .working) (goes : task.goesBy config plan env shared = true)
    (stands : task.phase.Stands (plan task.branchId) child (shared.holdingOf task.branchId))
    (taken : startStep config env shared task = some (after, phase)) :
    phase.Stands (plan task.branchId) child (after.holdingOf task.branchId) := by
  unfold StartTask.goesBy at goes
  cases startStep_move taken with
  | begins atPhase =>
    rw [atPhase] at stands
    exact stands
  | calls atPhase call replies =>
    simp only [atPhase] at stands goes
    cases call with
    | waitReady | kvExtend => exact stands.elim
    | kvStart =>
      cases replies with
      | working replied => exact absurd replied (atomic atPhase)
      | returned replied =>
        rw [replied] at goes
        refine ⟨stands.1, Finset.mem_insert_self _ _, ?_⟩
        simpa [Reply.fits] using goes
      | raised replied | refused replied =>
        rw [replied] at goes
        have planned : plan task.branchId = some .forkBranch := by simpa [Reply.fits] using goes
        exact ⟨stands.1, by rw [planned]; exact Option.some_ne_none _⟩
    | sandboxSpawn =>
      obtain ⟨record, kv, notFork⟩ := stands
      cases replies with
      | working => exact ⟨record, kv, notFork⟩
      | returned replied =>
        rw [replied] at goes
        rw [direct]
        refine ⟨record, kv, Finset.mem_insert_self _ _, notFork, ?_⟩
        simpa [Reply.fits] using goes
      | raised replied | refused replied =>
        rw [replied] at goes
        have planned : plan task.branchId = some .spawn := by simpa [Reply.fits] using goes
        exact ⟨record, by rw [planned]; exact Option.some_ne_none _⟩
    | rollbackKv =>
      cases replies with
      | working => exact stands
      | returned => exact ⟨stands.1, stands.2, Finset.notMem_erase _ _⟩
      | raised replied | refused replied => rw [replied] at goes; cases goes
    | @rollbackSandbox _ failed =>
      cases failed with
      | true => exact stands.elim
      | false =>
        obtain ⟨record, planned, notKv⟩ := stands
        cases replies with
        | working => exact ⟨record, planned, notKv⟩
        | returned => exact ⟨record, planned, notKv, Finset.notMem_erase _ _⟩
        | raised replied | refused replied => rw [replied] at goes; cases goes
  | staysForking atPhase raises quiet =>
    simp only [atPhase, raises] at stands goes
    have planned : plan task.branchId = some .live := by simpa [Except.isOk, Except.toBool] using goes
    exact ⟨(quiet.branches task.branchId).trans stands.1, by rw [planned]; exact Option.some_ne_none _⟩
  | @goesLive previous atPhase found _ written =>
    simp only [atPhase, written] at stands goes
    obtain ⟨record, kv, sandbox, notFork, notSpawn⟩ := stands
    have isRecord : some previous = some child := found.symm.trans record
    cases isRecord
    have notLive : plan task.branchId ≠ some .live := by simpa [Except.isOk, Except.toBool] using goes
    refine ⟨?_, rfl, ?_, ?_, ?_⟩
    · cases planned : plan task.branchId with
      | none => rfl
      | some point => rw [planned] at notFork notSpawn notLive; cases point <;> contradiction
    · change (write config _).branches.get? task.branchId = _
      rw [write_branches, Dict.get?_insert, if_pos rfl]
    · change task.branchId ∈ (write config _).kv
      rw [write_kv]
      exact kv
    · change task.branchId ∈ (write config _).sandbox
      rw [write_sandbox]
      exact sandbox
  | forgets atPhase =>
    simp only [atPhase] at stands
    obtain ⟨record, planned, notKv, notSandbox⟩ := stands
    refine ⟨planned, ?_, ?_, ?_⟩
    · simp only [holdingOf, write_branches, Dict.get?_erase, if_pos]
    · simp only [holdingOf, write_kv]
      exact notKv
    · simp only [holdingOf, write_sandbox]
      exact notSandbox
  | staysRecorded atPhase raises =>
    simp only [atPhase] at goes
    rw [of_decide_eq_true goes, forget_written] at raises
    cases raises
  | @ends outcome atPhase =>
    simp only [atPhase] at stands
    cases outcome <;> exact stands

end Child

/-! ## The branches in the cache -/

/-- What a new branch starts with: what its parent has, or nothing. -/
def inherited (base : PrefixModel Nat) (parentId : Option BranchId) (branchId : BranchId) : Option (Live Nat) :=
  match parentId with
  | none => some ⟨branchId, []⟩
  | some parentId => base.live.get? parentId

/-- Apart from the new branches the cache holds the branches it held, and a new
branch that it holds is as it has started. -/
structure Lineage (base : PrefixModel Nat) (parentId : Option BranchId) (ids : List BranchId)
    (model : PrefixModel Nat) : Prop where
  others : ∀ branchId, branchId ∉ ids → model.live.get? branchId = base.live.get? branchId
  children : ∀ branchId ∈ ids, ∀ branch, model.live.get? branchId = some branch →
    inherited base parentId branchId = some branch

theorem Lineage.insert {base model : PrefixModel Nat} {parentId : Option BranchId} {ids : List BranchId}
    (lineage : Lineage base parentId ids model) {branchId : BranchId} (member : branchId ∈ ids) {branch : Live Nat}
    (isInherited : inherited base parentId branchId = some branch) :
    Lineage base parentId ids ⟨model.live.insert branchId branch⟩ := by
  constructor
  · intro other notMember
    rw [Dict.get?_insert, if_neg (ne_of_mem_of_not_mem member notMember).symm]
    exact lineage.others other notMember
  · intro other isMember entry found
    rw [Dict.get?_insert] at found
    split at found
    · next here =>
      cases found
      rw [here]
      exact isInherited
    · exact lineage.children other isMember entry found

theorem Lineage.erase {base model : PrefixModel Nat} {parentId : Option BranchId} {ids : List BranchId}
    (lineage : Lineage base parentId ids model) {branchId : BranchId} (member : branchId ∈ ids) :
    Lineage base parentId ids ⟨model.live.erase branchId⟩ := by
  constructor
  · intro other notMember
    rw [Dict.get?_erase, if_neg (ne_of_mem_of_not_mem member notMember).symm]
    exact lineage.others other notMember
  · intro other isMember entry found
    rw [Dict.get?_erase] at found
    split at found
    · cases found
    · exact lineage.children other isMember entry found

theorem Lineage.cacheStep {base model : PrefixModel Nat} {parentId : Option BranchId} {ids : List BranchId}
    (lineage : Lineage base parentId ids model) (notChild : ∀ parent, parentId = some parent → parent ∉ ids)
    {cache : TreeKVCache Nat} (agrees : Agrees cache model) {task : StartTask} (isParent : task.parentId = parentId)
    (member : task.branchId ∈ ids) {clock : Nat} {op : Kv.Op Nat} (isCall : (Task.start task).cacheCall clock = some op)
    (notExtend : task.phase ≠ .kvExtend) (named : op.named = true) {env : Env} {entered : Bool} {after : TreeKVCache Nat}
    (stepped : Orchestrator.cacheStep cache op env entered = some after) :
    Lineage base parentId ids (modelAfter cache op env model) := by
  unfold modelAfter
  obtain ⟨effect, ⟨value, succeeded⟩, _⟩ | ⟨noEffect, _⟩ := cacheStep_cases stepped
  · rw [if_pos effect, succeeded]
    unfold Task.cacheCall at isCall
    cases atPhase : task.phase with
    | kvStart =>
      simp only [atPhase, StartTask.treeCall, isParent] at isCall
      cases parentId with
      | none =>
        cases isCall
        exact lineage.insert member rfl
      | some parent =>
        cases isCall
        obtain ⟨_, isName, nonempty⟩ := Op.named_fork named
        cases isName
        obtain ⟨branch, live, _, forked⟩ := agrees.forkBranch_ok nonempty succeeded
        rw [forked]
        apply lineage.insert member
        rw [← live]
        exact (lineage.others parent (notChild parent rfl)).symm
    | rollbackKv fault =>
      simp only [atPhase] at isCall
      cases isCall
      exact lineage.erase member
    | kvExtend => exact absurd atPhase notExtend
    | _ =>
      simp only [atPhase] at isCall
      cases isCall
  · rw [if_neg (by simp [noEffect])]
    exact lineage

/-! ## The fork -/

/-- The transitions of the children raise as planned. -/
def Managed.goesBy (config : Config) (plan : BranchId → Option Point) (managed : Managed) : ManagedAction → Bool
  | .take (.item c i env) _ _ =>
    match managed.state.task? (c, i) with
    | some (.start task) => task.goesBy config plan env managed.state.shared
    | _ => true
  | _ => true

/-- The run is orderly and no loop over children ends before the last child. -/
def Managed.Careful (config : Config) (managed : Managed) (action : ManagedAction) : Prop :=
  managed.Orderly config action ∧
    match action with
    | .take action _ _ => managed.state.Attempts config action
    | .extend _ _ _ => True

instance (config : Config) (managed : Managed) : ∀ action, Decidable (managed.Careful config action)
  | .take action clock entered => inferInstanceAs (Decidable (managed.Orderly config (.take action clock entered) ∧
      managed.state.Attempts config action))
  | .extend clock branchId tokens => inferInstanceAs (Decidable (managed.Orderly config
      (.extend clock branchId tokens) ∧ True))

/-- The call starts branches. -/
def Op.starts : Op → Bool
  | .createParent _ _ _ | .fork _ _ _ _ => true
  | _ => false

/-- What a call that starts branches returns. -/
def Op.answer (items : List Task) : Op → Value
  | .createParent _ _ _ =>
    match items.findSome? Task.branch? with
    | some branch => .branch branch
    | none => .none
  | .fork _ _ _ _ => .branches (items.filterMap Task.branch?)
  | _ => .none

/-- How such a call has ended: it returns, or one of its tasks has raised. -/
def Call.Concluded (call : Call) : Except Fault Value → Prop
  | .ok value => value = call.op.answer call.items ∧ ∀ task ∈ call.items, task.fault? = none
  | .error _ => ∃ task ∈ call.items, task.fault? ≠ none

theorem Call.raised_of_fanOut {items : List Task} {fault : Fault} (raised : Call.fanOutFault items = some fault) :
    ∃ task ∈ items, task.fault? ≠ none := by
  unfold Call.fanOutFault at raised
  split at raised
  · next first located =>
    obtain ⟨aborting, isFirst, isFault⟩ := Option.bind_eq_some_iff.1 located
    exact ⟨aborting, List.mem_of_find?_eq_some isFirst, by rw [isFault]; nofun⟩
  · obtain ⟨task, member, isFault⟩ := List.exists_of_findSome?_eq_some raised
    exact ⟨task, member, by rw [isFault]; nofun⟩

/-- The end of the fan-out of a call that starts branches. -/
theorem Call.advance_starts {config : Config} {shared after : Shared} {call next : Call} (starts : call.op.starts = true)
    (atStage : call.stage = .fanOut) (advanced : call.advance config shared = some (after, next)) :
    call.fanOutEnded config = true ∧ next.op = call.op ∧ next.items = call.items ∧
      ∃ outcome, next.stage = .finished outcome ∧ call.Concluded outcome := by
  cases Call.advance_move advanced with
  | fanOut _ ended isFault move =>
    refine ⟨ended, ?_⟩
    cases move with
    | raised | reconcileRaised | closeRaised => exact ⟨rfl, rfl, _, rfl, Call.raised_of_fanOut isFault⟩
    | started isOp =>
      refine ⟨rfl, rfl, _, rfl, ?_, Call.noFault_of_fanOut isFault⟩
      rw [isOp, Op.answer]
      cases call.items.findSome? Task.branch? <;> rfl
    | forked isOp => exact ⟨rfl, rfl, _, rfl, by rw [isOp, Op.answer], Call.noFault_of_fanOut isFault⟩
    | killed isOp | sweeps isOp | renewed isOp | reaped isOp | reconciled isOp | closed isOp =>
      rw [isOp] at starts
      cases starts
  | tally other | sweep other | retryRaised other | retried other | drained other | follows other =>
    rw [atStage] at other
    cases other

/-- The call that starts `children` is the only one that has moved since `before`. -/
structure Forking (config : Config) (plan : BranchId → Option Point) (before : Managed) (base : PrefixModel Nat)
    (parentId : Option BranchId) (children : List Branch) (managed : Managed) (call : Call) : Prop where
  calls : managed.state.calls = before.state.calls ++ [call]
  starts : call.op.starts = true
  coherent : call.Coherent config
  length : call.items.length = children.length
  items : ∀ (i : Nat) (child : Branch), children[i]? = some child → ∃ phase,
    call.items[i]? = some (.start ⟨child.branchId, parentId, [], phase⟩) ∧
      phase.Stands (plan child.branchId) child (managed.state.shared.holdingOf child.branchId)
  elsewhere : ∀ branchId, branchId ∉ children.map Branch.branchId →
    managed.state.shared.holdingOf branchId = before.state.shared.holdingOf branchId
  synced : Synced config managed.state.shared
  holds : ∃ model, CacheHolds managed.cache managed.state.shared.kv model ∧
    Lineage base parentId (children.map Branch.branchId) model
  limits : managed.cache.limits = before.cache.limits
  stage : call.stage = .fanOut ∨ ∃ outcome, call.stage = .finished outcome ∧
    (∀ task ∈ call.items, task.finished = true) ∧ call.Concluded outcome

/-- What the call may rely on: the children are new, and nothing is waited for. -/
structure Admitted (config : Config) (parentId : Option BranchId) (children : List Branch) : Prop where
  distinct : (children.map Branch.branchId).Nodup
  notChild : ∀ parent, parentId = some parent → parent ∉ children.map Branch.branchId
  direct : parentId = none → config.waitReady = false

theorem Admitted.afterSpawn {config : Config} {parentId : Option BranchId} {children : List Branch}
    (admitted : Admitted config parentId children) (branchId : BranchId) (phase : StartPhase) :
    StartTask.afterSpawn config ⟨branchId, parentId, [], phase⟩ = .goLive := by
  cases parentId with
  | none => simp only [StartTask.afterSpawn, admitted.direct rfl]; rfl
  | some parent => rfl

namespace Forking

variable {config : Config} {plan : BranchId → Option Point} {before managed after : Managed} {base : PrefixModel Nat}
  {parentId : Option BranchId} {children : List Branch} {call : Call}

theorem atCall (forking : Forking config plan before base parentId children managed call) :
    managed.state.calls[before.state.calls.length]? = some call := by
  rw [forking.calls, List.getElem?_concat_length]

/-- Every item of the call is one of the children. -/
theorem child_of_item (forking : Forking config plan before base parentId children managed call) {i : Nat} {task : Task}
    (atItem : call.items[i]? = some task) : ∃ child phase, children[i]? = some child ∧
      task = .start ⟨child.branchId, parentId, [], phase⟩ ∧
      phase.Stands (plan child.branchId) child (managed.state.shared.holdingOf child.branchId) := by
  have inside : i < children.length := forking.length ▸ (List.getElem?_eq_some_iff.1 atItem).1
  have atChild : children[i]? = some children[i] := List.getElem?_eq_getElem inside
  obtain ⟨phase, isItem, stands⟩ := forking.items i children[i] atChild
  rw [atItem] at isItem
  cases isItem
  exact ⟨children[i], phase, atChild, rfl, stands⟩

/-- The step of one of the children. -/
theorem item (forking : Forking config plan before base parentId children managed call)
    (admitted : Admitted config parentId children)
    (clock : Nat) (entered : Bool) {i : Nat} {env : Env} {task next : Task} {shared : Shared} {cache : TreeKVCache Nat}
    (atItem : call.items[i]? = some task) (running : call.isOver = false)
    (allowed : task.queued = true → call.mayStart config i = true)
    (onward : call.threaded config = false → next.isStart = true → next.aborts = true → i + 1 = call.items.length)
    (goes : ∀ start, task = .start start → start.goesBy config plan env managed.state.shared = true)
    (stepped : task.step config env managed.state.shared = some (shared, next))
    (permitted : ∀ op, task.cacheCall clock = some op → op.named = true ∧
      Tracked.NamespaceFree ⟨managed.cache, PrefixModel.init⟩ op)
    (called : Managed.Calls managed.cache env entered cache (task.cacheCall clock)) :
    Forking config plan before base parentId children
      ⟨⟨shared, managed.state.calls.set before.state.calls.length { call with items := call.items.set i next }⟩, cache⟩
      { call with items := call.items.set i next } := by
  have coherent := Call.item_coherent forking.coherent atItem running allowed onward stepped
  have kv := Task.step_kv clock stepped
  have synced := Task.step_synced forking.synced stepped
  obtain ⟨child, phase, atChild, rfl, stands⟩ := forking.child_of_item atItem
  have member : child.branchId ∈ children.map Branch.branchId :=
    List.mem_map.2 ⟨child, List.mem_of_getElem? atChild, rfl⟩
  have goes := goes _ rfl
  obtain ⟨⟨_, moved⟩, taken, equal⟩ := Option.map_eq_some_iff.1 stepped
  cases equal
  have inside := (List.getElem?_eq_some_iff.1 atItem).1
  have atomic : phase = .kvStart → env.reply ≠ .working := by
    rintro rfl working
    exact cacheStep_not_working called working
  have notExtend : phase ≠ .kvExtend := by
    rintro rfl
    exact stands
  refine ⟨?_, forking.starts, coherent, ?_, fun j other atOther => ?_, fun branchId notMember => ?_, synced, ?_, ?_, ?_⟩
  · exact set_last forking.calls _
  · rw [List.length_set]
    exact forking.length
  · by_cases here : i = j
    · subst here
      rw [atChild] at atOther
      cases atOther
      exact ⟨moved, List.getElem?_set_self inside,
        startStep_stands (admitted.afterSpawn child.branchId phase) atomic goes stands taken⟩
    · obtain ⟨otherPhase, isOther, otherStands⟩ := forking.items j other atOther
      have differs : other.branchId ≠ child.branchId :=
        fun same => here (index_of_key admitted.distinct atChild atOther same.symm)
      refine ⟨otherPhase, (List.getElem?_set_ne here).trans isOther, ?_⟩
      rw [startStep_elsewhere taken differs]
      exact otherStands
  · rw [startStep_elsewhere taken (ne_of_mem_of_not_mem member notMember).symm]
    exact forking.elsewhere branchId notMember
  · obtain ⟨model, holds, lineage⟩ := forking.holds
    unfold Task.heldAfter at kv
    cases isCall : (Task.start ⟨child.branchId, parentId, [], phase⟩).cacheCall clock with
    | none =>
      rw [isCall] at called
      simp only [isCall] at kv
      obtain rfl := called
      exact ⟨model, kv ▸ holds, lineage⟩
    | some op =>
      obtain ⟨named, free⟩ := permitted op isCall
      rw [isCall] at called
      simp only [isCall] at kv
      exact ⟨_, kv ▸ (cacheStep_holds holds named free called).1,
        lineage.cacheStep admitted.notChild holds.agrees rfl member isCall notExtend named called⟩
  · cases isCall : (Task.start ⟨child.branchId, parentId, [], phase⟩).cacheCall clock with
    | none =>
      rw [isCall] at called
      obtain rfl := called
      exact forking.limits
    | some op =>
      obtain ⟨model, holds, _⟩ := forking.holds
      obtain ⟨named, free⟩ := permitted op isCall
      rw [isCall] at called
      exact (cacheStep_holds holds named free called).2.trans forking.limits
  · obtain atStage | ⟨outcome, atStage, _⟩ := forking.stage
    · exact .inl atStage
    · unfold Call.isOver at running
      rw [atStage] at running
      cases running

/-- The end of the fan-out. -/
theorem concludes (forking : Forking config plan before base parentId children managed call) {shared : Shared}
    {next : Call} (advanced : call.advance config managed.state.shared = some (shared, next)) :
    next.op = call.op ∧ next.items = call.items ∧ ∃ outcome, next.stage = .finished outcome ∧
      (∀ task ∈ call.items, task.finished = true) ∧ call.Concluded outcome := by
  have coherent := forking.coherent
  unfold Call.Coherent at coherent
  obtain atStage | ⟨outcome, atStage, _⟩ := forking.stage
  · simp only [atStage] at coherent
    obtain ⟨ended, op, items, outcome, finished, concluded⟩ := Call.advance_starts forking.starts atStage advanced
    refine ⟨op, items, outcome, finished, fun task member => ?_, concluded⟩
    -- a child that is not active any more has ended
    have inactive := Call.inactive_of_ended coherent.1 coherent.2 ended task member
    obtain ⟨i, atItem⟩ := List.mem_iff_getElem?.1 member
    obtain ⟨child, phase, _, rfl, _⟩ := forking.child_of_item atItem
    cases phase with
    | finished outcome => rfl
    | _ => cases inactive
  · exact absurd atStage (Call.advance_unfinished advanced outcome)

theorem advance (forking : Forking config plan before base parentId children managed call) {shared : Shared} {next : Call}
    (advanced : call.advance config managed.state.shared = some (shared, next)) :
    Forking config plan before base parentId children
      ⟨⟨shared, managed.state.calls.set before.state.calls.length next⟩, managed.cache⟩ next := by
  have coherent := Call.advance_coherent forking.coherent advanced
  obtain ⟨op, items, outcome, atStage, finished, concluded⟩ := forking.concludes advanced
  obtain ⟨metrics, closing, closed, rfl⟩ := advance_flags advanced
  refine ⟨?_, op ▸ forking.starts, coherent, items ▸ forking.length, items ▸ forking.items, forking.elsewhere,
    forking.synced.congr rfl rfl, forking.holds, forking.limits, .inr ⟨outcome, atStage, ?_⟩⟩
  · exact set_last forking.calls _
  · unfold Call.Concluded at concluded ⊢
    rw [op, items]
    exact ⟨finished, concluded⟩

theorem step (forking : Forking config plan before base parentId children managed call)
    (admitted : Admitted config parentId children) {action : ManagedAction} (careful : managed.Careful config action)
    (own : action.isOf before.state.calls.length = true) (goes : managed.goesBy config plan action = true)
    (taken : managed.Step config action after) :
    ∃ next, next.op = call.op ∧ Forking config plan before base parentId children after next := by
  cases taken.own own forking.atCall with
  | @item i clock env entered task next shared cache atItem running allowed stepped called =>
    obtain ⟨⟨_, permitted⟩, attempts⟩ := careful
    rw [Managed.cacheCall_item clock forking.atCall atItem] at permitted
    refine ⟨{ call with items := call.items.set i next }, rfl, forking.item admitted clock entered atItem running allowed
      (attempts.onward forking.atCall atItem stepped) ?_ stepped (fun op isCall => ?_) called⟩
    · rintro start rfl
      have found : managed.state.task? (before.state.calls.length, i) = some (.start start) :=
        (taskAt_of_call forking.atCall i).trans atItem
      simpa only [Managed.goesBy, found] using goes
    · exact permitted (op, env) (by rw [isCall]; rfl)
  | advance advanced => exact ⟨_, (forking.concludes advanced).1, forking.advance advanced⟩

/-- All children have ended once the call has. -/
theorem ended (forking : Forking config plan before base parentId children managed call) {outcome : Except Fault Value}
    (returned : call.stage = .finished outcome) : call.Concluded outcome ∧
      ∀ (i : Nat) (child : Branch), children[i]? = some child → ∃ result,
        call.items[i]? = some (.start ⟨child.branchId, parentId, [], .finished result⟩) ∧
          (StartPhase.finished result).Stands (plan child.branchId) child
            (managed.state.shared.holdingOf child.branchId) := by
  obtain atStage | ⟨other, atStage, finished, concluded⟩ := forking.stage
  · rw [returned] at atStage
    cases atStage
  · rw [returned] at atStage
    cases atStage
    refine ⟨concluded, fun i child atChild => ?_⟩
    obtain ⟨phase, atItem, stands⟩ := forking.items i child atChild
    have isFinished := finished _ (List.mem_of_getElem? atItem)
    cases phase with
    | finished result => exact ⟨result, atItem, stands⟩
    | _ => cases isFinished

/-- The first section of a call that starts branches. -/
theorem start {origin : Finset BranchId} {op : Op} {phase : StartPhase} {shared : Shared}
    (sound : Managed.Sound config origin before) (holds : CacheHolds before.cache before.state.shared.kv base)
    (starts : op.starts = true) (journaled : Journaled config before.state.shared children shared)
    (fresh : phase = .queued ∨ phase = .kvStart) (parents : ∀ child ∈ children, child.parentId = parentId)
    (coherent : Call.Coherent config ⟨op, children.map (startTask phase []), .fanOut, []⟩) :
    Forking config plan before base parentId children
      ⟨⟨shared, before.state.calls ++ [⟨op, children.map (startTask phase []), .fanOut, []⟩]⟩, before.cache⟩
      ⟨op, children.map (startTask phase []), .fanOut, []⟩ := by
  -- a child that has not begun is in no backend
  have unheld : ∀ child ∈ children, child.branchId ∉ before.state.shared.kv :=
    fun child member held => journaled.absent child member (sound.recorded (.inl held))
  refine ⟨rfl, starts, coherent, List.length_map _, fun i child atChild => ?_, fun branchId notMember => ?_,
    journaled.synced sound.disciplined.synced.keyed, ?_, rfl, .inl rfl⟩
  · have member := List.mem_of_getElem? atChild
    have stands : shared.branches.get? child.branchId = some child ∧ child.branchId ∉ shared.kv := by
      rw [journaled.branches, find?_of_mem journaled.distinct member, journaled.kv]
      exact ⟨rfl, unheld child member⟩
    refine ⟨phase, ?_, ?_⟩
    · rw [List.getElem?_map, atChild, ← parents child member]
      rfl
    · obtain rfl | rfl := fresh
      · exact stands
      · exact stands
  · rw [holdingOf, holdingOf, journaled.branches, find?_of_notMem notMember, Option.none_or, journaled.kv,
      journaled.sandbox]
  · refine ⟨base, journaled.kv ▸ holds, fun _ _ => rfl, fun branchId member branch live => ?_⟩
    obtain ⟨child, isChild, rfl⟩ := List.mem_map.1 member
    exact absurd ((holds.held child.branchId).1 (Dict.mem_of_get? live)) (unheld child isChild)

/-- The first section of a fork. -/
theorem of_admitFork (plan : BranchId → Option Point) {origin : Finset BranchId} {env : Env} {parentId : BranchId} {n : Int}
    {childIds : Option (List BranchId)} {lease : Option Int} {shared : Shared}
    (sound : Managed.Sound config origin before) (holds : CacheHolds before.cache before.state.shared.kv base)
    (admits : admitFork config env.persist env.now parentId n childIds lease before.state.shared = (.ok children, shared)) :
    Admitted config (some parentId) children ∧ (children.map Branch.branchId).Nodup ∧
      (∀ branchId ∈ children.map Branch.branchId, branchId ∉ before.state.shared.branches) ∧
      Forking config plan before base (some parentId) children
        ⟨⟨shared, before.state.calls ++
          [⟨.fork parentId n childIds lease, children.map (startTask .queued []), .fanOut, []⟩]⟩, before.cache⟩
        ⟨.fork parentId n childIds lease, children.map (startTask .queued []), .fanOut, []⟩ := by
  obtain ⟨fault, failed, refused, _⟩ | ⟨found, after, equal, parentLive, parents, journaled⟩ :=
    admitFork_cases config env.persist env.now parentId n childIds lease before.state.shared
  · rw [admits] at refused
    cases refused
  · rw [admits] at equal
    cases equal
    have absent : ∀ branchId ∈ children.map Branch.branchId, branchId ∉ before.state.shared.branches := by
      intro branchId member
      obtain ⟨child, isChild, rfl⟩ := List.mem_map.1 member
      exact journaled.absent child isChild
    have admitted : Admitted config (some parentId) children := by
      refine ⟨journaled.distinct, ?_, nofun⟩
      intro _ isParent member
      cases isParent
      obtain ⟨parent, recorded, _⟩ := (Option.any_eq_true _ _).1 parentLive
      exact absent parentId member (Dict.mem_of_get? recorded)
    have invoked : invoke config env before.state.shared (.fork parentId n childIds lease) = some (shared,
        ⟨.fork parentId n childIds lease, children.map (startTask .queued []), .fanOut, []⟩) := by
      simp only [invoke, admits]
    exact ⟨admitted, journaled.distinct, absent,
      start sound holds rfl journaled (.inl rfl) parents (invoke_coherent invoked)⟩

end Forking

end Agentfork.Orchestrator

import Agentfork.Kv.Sequences
import Agentfork.Orchestrator.Alone
import Agentfork.Orchestrator.KillLosers
import Agentfork.Orchestrator.Leases

/-! # The sequences of the live branches

What a call that runs alone makes of the live branches and of what the cache
holds for them, however it ends. A branch is live only after its backend calls
have returned, and no longer live once a kill calls the backends, so the cache
calls of a rollback or of a kill are about branches that are not live. -/

namespace Agentfork.Orchestrator

open Shared Transition Kv

namespace Shared

theorem isLive_iff {shared : Shared} {branchId : BranchId} :
    shared.isLive branchId = true ↔ ∃ branch, shared.branches.get? branchId = some branch ∧ branch.state = .live := by
  unfold isLive
  rw [Option.any_eq_true]
  simp only [decide_eq_true_eq]

theorem isLive_congr {before after : Shared} {branchId : BranchId}
    (same : after.branches.get? branchId = before.branches.get? branchId) : after.isLive branchId = before.isLive branchId := by
  rw [isLive, same]
  rfl

end Shared

namespace Managed

def isLive (managed : Managed) (branchId : BranchId) : Bool := managed.state.shared.isLive branchId

/-- The sequence that the cache holds for a branch. -/
def cached (managed : Managed) (branchId : BranchId) : Option (List Nat) := managed.cache.treeTokens.get? branchId

def record (managed : Managed) (branchId : BranchId) : Option Branch := managed.state.shared.branches.get? branchId

/-- Every branch that is live afterwards was live and holds what it held. -/
def Retains (before after : Managed) : Prop :=
  ∀ branchId, after.isLive branchId = true → before.isLive branchId = true ∧ after.cached branchId = before.cached branchId

theorem isLive_iff {managed : Managed} {branchId : BranchId} :
    managed.isLive branchId = true ↔ ∃ branch, managed.record branchId = some branch ∧ branch.state = .live :=
  Shared.isLive_iff

theorem isLive_congr {before after : Managed} {branchId : BranchId} (same : after.record branchId = before.record branchId) :
    after.isLive branchId = before.isLive branchId := Shared.isLive_congr same

end Managed

theorem Managed.Retains.of_quiet {before : Managed} {shared : Shared} {calls : List Call}
    (quiet : Quiet before.state.shared shared) : before.Retains ⟨⟨shared, calls⟩, before.cache⟩ := by
  intro branchId isLive
  have same : (Managed.mk ⟨shared, calls⟩ before.cache).record branchId = before.record branchId := quiet.branches branchId
  exact ⟨(Managed.isLive_congr same).symm.trans isLive, rfl⟩

/-! ## Cache calls of tasks -/

section CacheCalls

variable {cache after : TreeKVCache Nat} {env : Env} {entered : Bool} {clock : Nat} {op : Kv.Op Nat}

/-- A cache call that ends in any way leaves the other trees. -/
theorem cacheStep_elsewhere (stepped : cacheStep cache op env entered = some after) (named : op.named = true)
    {other : BranchId} (notSubject : op.subject? ≠ some other) : cache.Keeps after other := by
  obtain ⟨_, _, rfl⟩ | ⟨_, rfl | ⟨rfl, _⟩⟩ := cacheStep_cases stepped
  · exact TreeKVCache.perform_elsewhere named notSubject
  · exact ⟨rfl, rfl⟩
  · exact TreeKVCache.perform_elsewhere named notSubject

/-- The cache call of a task is about its branch. -/
theorem Task.cacheCall_subject {task : Task} (isCall : task.cacheCall clock = some op) :
    op.subject? = some task.branchId := by
  cases task with
  | start task =>
    simp only [Task.cacheCall, StartTask.treeCall] at isCall
    split at isCall
    · split at isCall <;> cases isCall <;> rfl
    · cases isCall
      rfl
    · cases isCall
      rfl
    · cases isCall
  | kill task =>
    simp only [Task.cacheCall] at isCall
    split at isCall
    · cases isCall
      rfl
    · cases isCall

/-- Only a child with the empty id gets another one from the cache. -/
theorem Task.cacheCall_named {task : Task} (isCall : task.cacheCall clock = some op)
    (named : ∀ start, task = .start start → start.parentId = none ∨ start.branchId ≠ "") : op.named = true := by
  cases task with
  | start task =>
    simp only [Task.cacheCall, StartTask.treeCall] at isCall
    split at isCall
    · split at isCall
      · cases isCall
        rfl
      · next isParent =>
        cases isCall
        obtain noParent | nonempty := named task rfl
        · rw [isParent] at noParent
          cases noParent
        · exact decide_eq_true nonempty
    · cases isCall
      rfl
    · cases isCall
      rfl
    · cases isCall
  | kill task =>
    simp only [Task.cacheCall] at isCall
    split at isCall
    · cases isCall
      rfl
    · cases isCall

theorem Managed.Calls.elsewhere {task : Task} (called : Managed.Calls cache env entered after (task.cacheCall clock))
    (named : ∀ start, task = .start start → start.parentId = none ∨ start.branchId ≠ "") {other : BranchId}
    (differs : other ≠ task.branchId) : cache.Keeps after other := by
  cases isCall : task.cacheCall clock with
  | none =>
    rw [isCall] at called
    obtain rfl := called
    exact ⟨rfl, rfl⟩
  | some op =>
    rw [isCall] at called
    refine cacheStep_elsewhere called (Task.cacheCall_named isCall named) ?_
    rw [Task.cacheCall_subject isCall]
    exact fun same => differs (Option.some.inj same).symm

/-- What a branch begins with. -/
def planted (cache : TreeKVCache Nat) : Option BranchId → Option (List Nat)
  | none => some []
  | some parentId => cache.treeTokens.get? parentId

theorem treeCall_plants {task : StartTask} (named : task.parentId = none ∨ task.branchId ≠ "")
    (stepped : cacheStep cache task.treeCall env entered = some after) (returned : env.reply = .returned) :
    after.treeTokens.get? task.branchId = planted cache task.parentId := by
  obtain ⟨_, ⟨value, succeeded⟩, rfl⟩ | ⟨noEffect, _⟩ := cacheStep_cases stepped
  · unfold StartTask.treeCall at succeeded ⊢
    cases isParent : task.parentId with
    | none =>
      rw [isParent] at succeeded
      obtain ⟨_, _, inserted⟩ | ⟨⟨error, failed⟩, _⟩ := cache.createTree_sequence task.branchId
      · refine (congrArg (Dict.get? · task.branchId) inserted).trans ?_
        rw [Dict.get?_insert, if_pos rfl, planted]
      · simp only [TreeKVCache.apply, Prod.map_fst, failed] at succeeded
        cases succeeded
    | some parentId =>
      rw [isParent] at succeeded named
      have nonempty : task.branchId ≠ "" := named.resolve_left (Option.some_ne_none parentId)
      refine (TreeKVCache.forkBranch_sequence parentId nonempty).1 ?_
      simp only [TreeKVCache.apply, Prod.map_fst] at succeeded
      cases outcome : (cache.forkBranch parentId (some task.branchId)).1 with
      | ok tid => exact ⟨tid, rfl⟩
      | error error =>
        rw [outcome] at succeeded
        cases succeeded
  · rw [returned] at noEffect
    cases noEffect

end CacheCalls

/-! ## Steps of a start -/

/-- How far a new branch has come: its record, and what the cache holds for it. -/
def StartPhase.Plants (child : Branch) (start : Option (List Nat)) (record : Option Branch) (cached : Option (List Nat)) :
    StartPhase → Prop
  | .queued | .kvStart => record = some child
  | .sandboxSpawn | .waitReady | .goLive => record = some child ∧ cached = start
  | .kvExtend => False
  | .settle (.ok branch) | .finished (.ok branch) => branch = setState .live child ∧ record = some branch ∧ cached = start
  | .rollbackKv _ | .rollbackSandbox _ _ | .rollbackForget _ | .settle (.error _) | .finished (.error _) =>
    record = some child ∨ record = none

section Starts

variable {config : Config} {env : Env} {shared after : Shared} {task : StartTask} {phase : StartPhase} {child : Branch}
  {start cached later : Option (List Nat)}

/-- Neither a child nor a root without tokens comes to its extend. -/
theorem StartTask.afterSpawn_direct (config : Config) (noTokens : task.tokens = []) :
    task.afterSpawn config = .waitReady ∨ task.afterSpawn config = .goLive := by
  unfold StartTask.afterSpawn StartTask.afterReady
  rw [if_pos noTokens]
  cases task.parentId with
  | some parentId => exact .inr rfl
  | none =>
    cases config.waitReady with
    | true => exact .inl rfl
    | false => exact .inr rfl

/-- Where the cache call of a start may change what the cache holds for its branch. -/
def StartPhase.writes : StartPhase → Bool
  | .kvStart | .rollbackKv _ => true
  | _ => false

theorem startStep_plants (isChild : task.branchId = child.branchId) (noTokens : task.tokens = [])
    (plants : task.phase.Plants child start (shared.branches.get? child.branchId) cached)
    (taken : startStep config env shared task = some (after, phase))
    (begins : task.phase = .kvStart → env.reply = .returned → later = start)
    (keeps : task.phase.writes = false → later = cached) :
    phase.Plants child start (after.branches.get? child.branchId) later := by
  cases startStep_move taken with
  | begins atPhase =>
    rw [atPhase] at plants
    exact plants
  | calls atPhase call replies =>
    rw [atPhase] at plants
    cases call with
    | kvStart =>
      cases replies with
      | working => exact plants
      | returned replied => exact ⟨plants, begins atPhase replied⟩
      | raised | refused => exact .inl plants
    | sandboxSpawn =>
      have kept := keeps (by rw [atPhase]; rfl)
      cases replies with
      | working => exact ⟨plants.1, kept.trans plants.2⟩
      | returned =>
        obtain equal | equal := StartTask.afterSpawn_direct config noTokens
        · rw [equal]
          exact ⟨plants.1, kept.trans plants.2⟩
        · rw [equal]
          exact ⟨plants.1, kept.trans plants.2⟩
      | raised | refused => exact .inl plants.1
    | waitReady =>
      have kept := keeps (by rw [atPhase]; rfl)
      cases replies with
      | working => exact ⟨plants.1, kept.trans plants.2⟩
      | returned =>
        unfold StartTask.afterReady
        rw [if_pos noTokens]
        exact ⟨plants.1, kept.trans plants.2⟩
      | raised | refused => exact .inl plants.1
    | kvExtend => exact plants.elim
    | rollbackKv => cases replies <;> exact plants
    | @rollbackSandbox _ failed => cases replies <;> cases failed <;> exact plants
  | @goesLive previous atPhase found =>
    have kept := keeps (by rw [atPhase]; rfl)
    rw [atPhase] at plants
    rw [isChild, plants.1] at found
    cases found
    refine ⟨rfl, ?_, kept.trans plants.2⟩
    rw [write_branches, Dict.get?_insert, if_pos isChild.symm]
  | staysForking atPhase _ quiet =>
    rw [atPhase] at plants
    exact .inl ((quiet.branches child.branchId).trans plants.1)
  | forgets =>
    refine .inr ?_
    simp only [write_branches, Dict.get?_erase, if_pos isChild.symm]
  | staysRecorded atPhase _ quiet =>
    rw [atPhase] at plants
    exact plants.imp (quiet.branches child.branchId).trans (quiet.branches child.branchId).trans
  | @ends outcome atPhase =>
    have kept := keeps (by rw [atPhase]; rfl)
    rw [atPhase] at plants
    cases outcome with
    | ok branch => exact ⟨plants.1, plants.2.1, kept.trans plants.2.2⟩
    | error fault => exact plants

/-- A live branch has been planted. -/
theorem StartPhase.Plants.live {branch : Branch} (plants : phase.Plants child start (some branch) cached)
    (forking : child.state = .forking) (isLive : branch.state = .live) :
    branch = setState .live child ∧ cached = start := by
  have notChild : some branch ≠ some child := by
    intro same
    cases same
    rw [forking] at isLive
    cases isLive
  cases phase with
  | queued | kvStart => exact absurd plants notChild
  | sandboxSpawn | waitReady | goLive => exact absurd plants.1 notChild
  | kvExtend => exact plants.elim
  | rollbackKv | rollbackSandbox | rollbackForget => exact absurd (plants.resolve_right (fun same => by cases same)) notChild
  | settle outcome | finished outcome =>
    cases outcome with
    | ok settled =>
      obtain ⟨rfl, found, same⟩ := plants
      exact ⟨Option.some.inj found, same⟩
    | error fault => exact absurd (plants.resolve_right nofun) notChild

/-- A start that has raised leaves no live branch. -/
theorem StartPhase.not_plants_of_fault {branchId : BranchId} {parentId : Option BranchId} {tokens : List Nat}
    (faulted : (Task.start ⟨branchId, parentId, tokens, phase⟩).fault? ≠ none) (forking : child.state = .forking) :
    ¬ phase.Plants child start (some (setState .live child)) cached := by
  cases phase with
  | finished outcome =>
    cases outcome with
    | ok branch => exact absurd rfl faulted
    | error fault =>
      intro plants
      have same := congrArg Branch.state (Option.some.inj (plants.resolve_right nofun))
      rw [forking] at same
      cases same
  | _ => exact absurd rfl faulted

end Starts

theorem Task.branches_sublist {items : List Task}
    (own : ∀ task ∈ items, ∀ branch, task.branch? = some branch → branch.branchId = task.branchId) :
    ((items.filterMap Task.branch?).map Branch.branchId).Sublist (items.map Task.branchId) := by
  induction items with
  | nil => exact .slnil
  | cons task items inductionHypothesis =>
    have later := inductionHypothesis fun other member => own other (List.mem_cons_of_mem task member)
    rw [List.filterMap_cons, List.map_cons]
    split
    · exact later.cons _
    · next branch isBranch =>
      rw [List.map_cons, own task List.mem_cons_self branch isBranch]
      exact later.cons_cons _

/-- The tasks of a call stand for its branches, in their order. -/
theorem Task.ids_of_items {items : List Task} {children : List Branch} (length : items.length = children.length)
    (each : ∀ (i : Nat) child, children[i]? = some child → ∃ task, items[i]? = some task ∧ task.branchId = child.branchId) :
    items.map Task.branchId = children.map Branch.branchId := by
  refine List.ext_getElem? fun i => ?_
  rw [List.getElem?_map, List.getElem?_map]
  cases atChild : children[i]? with
  | none =>
    rw [List.getElem?_eq_none_iff] at atChild
    rw [List.getElem?_eq_none (length.trans_le atChild)]
    rfl
  | some child =>
    obtain ⟨task, atItem, sameId⟩ := each i child atChild
    rw [atItem, Option.map_some, Option.map_some, sameId]

/-! ## Calls that start branches -/

/-- The branches that a call is about to start. -/
structure Newborn (before : Managed) (parentId : Option BranchId) (children : List Branch) : Prop where
  distinct : (children.map Branch.branchId).Nodup
  absent : ∀ child ∈ children, before.record child.branchId = none
  forking : ∀ child ∈ children, child.state = .forking
  parents : ∀ child ∈ children, child.parentId = parentId
  notParent : ∀ parent, parentId = some parent → parent ∉ children.map Branch.branchId
  named : parentId = none ∨ ∀ child ∈ children, child.branchId ≠ ""

/-- The call that starts `children` is the only one that has moved since `before`. -/
structure Planting (before : Managed) (parentId : Option BranchId) (children : List Branch) (managed : Managed)
    (call : Call) : Prop where
  calls : managed.state.calls = before.state.calls ++ [call]
  starts : call.op.starts = true
  length : call.items.length = children.length
  items : ∀ (i : Nat) (child : Branch), children[i]? = some child → ∃ phase,
    call.items[i]? = some (.start ⟨child.branchId, parentId, [], phase⟩) ∧
      phase.Plants child (planted before.cache parentId) (managed.record child.branchId) (managed.cached child.branchId)
  elsewhere : ∀ branchId, branchId ∉ children.map Branch.branchId →
    managed.record branchId = before.record branchId ∧ managed.cached branchId = before.cached branchId
  stage : call.stage = .fanOut ∨ ∃ outcome, call.stage = .finished outcome ∧ call.Concluded outcome

namespace Planting

variable {config : Config} {before managed after : Managed} {parentId : Option BranchId} {children : List Branch}
  {call : Call}

theorem atCall (planting : Planting before parentId children managed call) :
    managed.state.calls[before.state.calls.length]? = some call := by
  rw [planting.calls, List.getElem?_concat_length]

theorem replaced (planting : Planting before parentId children managed call) (next : Call) :
    managed.state.calls.set before.state.calls.length next = before.state.calls ++ [next] := by
  exact set_last planting.calls _

theorem child_of_item (planting : Planting before parentId children managed call) {i : Nat} {task : Task}
    (atItem : call.items[i]? = some task) : ∃ child phase, children[i]? = some child ∧
      task = .start ⟨child.branchId, parentId, [], phase⟩ ∧
      phase.Plants child (planted before.cache parentId) (managed.record child.branchId) (managed.cached child.branchId) := by
  have inside : i < children.length := planting.length ▸ (List.getElem?_eq_some_iff.1 atItem).1
  have atChild : children[i]? = some children[i] := List.getElem?_eq_getElem inside
  obtain ⟨phase, isItem, plants⟩ := planting.items i children[i] atChild
  rw [atItem] at isItem
  cases isItem
  exact ⟨children[i], phase, atChild, rfl, plants⟩

/-- What new branches begin with is the same throughout. -/
theorem planted_eq (planting : Planting before parentId children managed call)
    (newborn : Newborn before parentId children) : planted managed.cache parentId = planted before.cache parentId := by
  cases isParent : parentId with
  | none => rfl
  | some parent => exact (planting.elsewhere parent (newborn.notParent parent isParent)).2

/-- The step of one of the new branches. -/
theorem item (planting : Planting before parentId children managed call) (newborn : Newborn before parentId children)
    {clock i : Nat} {entered : Bool} {env : Env} {task next : Task} {shared : Shared} {cache : TreeKVCache Nat}
    (atItem : call.items[i]? = some task) (running : call.isOver = false)
    (stepped : task.step config env managed.state.shared = some (shared, next))
    (called : Managed.Calls managed.cache env entered cache (task.cacheCall clock)) :
    Planting before parentId children
      ⟨⟨shared, managed.state.calls.set before.state.calls.length { call with items := call.items.set i next }⟩, cache⟩
      { call with items := call.items.set i next } := by
  obtain ⟨child, phase, atChild, rfl, plants⟩ := planting.child_of_item atItem
  have isChild := List.mem_of_getElem? atChild
  have member : child.branchId ∈ children.map Branch.branchId := List.mem_map.2 ⟨child, isChild, rfl⟩
  have named : parentId = none ∨ child.branchId ≠ "" := newborn.named.imp_right fun nonempty => nonempty child isChild
  obtain ⟨⟨_, moved⟩, taken, equal⟩ := Option.map_eq_some_iff.1 stepped
  cases equal
  -- no step of the branch is seen by the other ones
  have frame : ∀ other, other ≠ child.branchId → shared.branches.get? other = managed.record other ∧
      cache.treeTokens.get? other = managed.cached other := by
    intro other differs
    refine ⟨congrArg Holding.record (startStep_elsewhere taken differs), ?_⟩
    exact (called.elsewhere (fun start isStart => by cases isStart; exact named) differs).2
  have inside := (List.getElem?_eq_some_iff.1 atItem).1
  refine ⟨planting.replaced _, planting.starts, (List.length_set ..).trans planting.length, fun j other atOther => ?_,
    fun branchId notMember => ?_, ?_⟩
  · by_cases here : i = j
    · subst here
      rw [atChild] at atOther
      cases atOther
      have plants : (StartTask.mk child.branchId parentId [] phase).phase.Plants child (planted before.cache parentId)
        (managed.state.shared.branches.get? child.branchId) (managed.cached child.branchId) := plants
      refine ⟨moved, List.getElem?_set_self inside, startStep_plants rfl rfl plants taken ?_ ?_⟩
      · intro atStart returned
        simp only at atStart
        subst atStart
        have begun : cache.treeTokens.get? (StartTask.mk child.branchId parentId [] .kvStart).branchId =
          planted managed.cache parentId := treeCall_plants named called returned
        exact begun.trans (planting.planted_eq newborn)
      · intro silent
        have noCall : (Task.start ⟨child.branchId, parentId, [], phase⟩).cacheCall clock = none := by
          cases phase with
          | kvStart | rollbackKv => cases silent
          | kvExtend => exact plants.elim
          | _ => rfl
        rw [noCall] at called
        exact congrArg (fun cache => cache.treeTokens.get? child.branchId) called
    · obtain ⟨otherPhase, isOther, otherPlants⟩ := planting.items j other atOther
      have differs : other.branchId ≠ child.branchId :=
        fun same => here (index_of_key newborn.distinct atChild atOther same.symm)
      refine ⟨otherPhase, (List.getElem?_set_ne here).trans isOther, ?_⟩
      obtain ⟨sameRecord, sameCached⟩ := frame other.branchId differs
      unfold Managed.record Managed.cached
      rw [sameRecord, sameCached]
      exact otherPlants
  · obtain ⟨sameRecord, sameCached⟩ := frame branchId (ne_of_mem_of_not_mem member notMember).symm
    obtain ⟨wasRecord, wasCached⟩ := planting.elsewhere branchId notMember
    exact ⟨sameRecord.trans wasRecord, sameCached.trans wasCached⟩
  · obtain atStage | ⟨outcome, atStage, _⟩ := planting.stage
    · exact .inl atStage
    · unfold Call.isOver at running
      rw [atStage] at running
      cases running

theorem advance (planting : Planting before parentId children managed call) {shared : Shared} {next : Call}
    (advanced : call.advance config managed.state.shared = some (shared, next)) :
    Planting before parentId children ⟨⟨shared, managed.state.calls.set before.state.calls.length next⟩, managed.cache⟩ next := by
  obtain atStage | ⟨outcome, atStage, _⟩ := planting.stage
  · obtain ⟨_, op, items, outcome, finished, concluded⟩ := Call.advance_starts planting.starts atStage advanced
    obtain ⟨metrics, closing, closed, rfl⟩ := advance_flags advanced
    refine ⟨planting.replaced next, op ▸ planting.starts, items ▸ planting.length, items ▸ planting.items,
      planting.elsewhere, .inr ⟨outcome, finished, ?_⟩⟩
    unfold Call.Concluded at concluded ⊢
    rw [op, items]
    exact concluded
  · exact absurd atStage (Call.advance_unfinished advanced outcome)

/-- The branches that the tasks return are children, in their order. -/
theorem branches_sublist (planting : Planting before parentId children managed call) :
    ((call.items.filterMap Task.branch?).map Branch.branchId).Sublist (children.map Branch.branchId) := by
  have ids : call.items.map Task.branchId = children.map Branch.branchId := by
    refine Task.ids_of_items planting.length fun i child atChild => ?_
    obtain ⟨phase, isItem, _⟩ := planting.items i child atChild
    exact ⟨_, isItem, rfl⟩
  rw [← ids]
  refine Task.branches_sublist fun task member branch isBranch => ?_
  obtain ⟨i, atItem⟩ := List.mem_iff_getElem?.1 member
  obtain ⟨child, phase, _, rfl, plants⟩ := planting.child_of_item atItem
  cases phase with
  | finished outcome =>
    cases outcome with
    | ok started =>
      cases isBranch
      exact (congrArg Branch.branchId plants.1).trans rfl
    | error fault => cases isBranch
  | _ => cases isBranch

/-- Whatever its tasks do, the call only plants its own branches. -/
theorem of_reachable {first final : Managed} {opening : Call} (initial : Planting before parentId children first opening)
    (newborn : Newborn before parentId children)
    (reached : Reachable (Managed.Step config) (fun _ action => action.isOf before.state.calls.length = true) first final) :
    ∃ call, call.op = opening.op ∧ Planting before parentId children final call := by
  refine reached.invariant (motive := fun managed => ∃ call, call.op = opening.op ∧ Planting before parentId children managed call)
    ⟨opening, rfl, initial⟩ fun managed action after planting own taken => ?_
  obtain ⟨call, op, planting⟩ := planting
  cases taken.own own planting.atCall with
  | item atItem running _ stepped called =>
    refine ⟨_, ?_, planting.item newborn atItem running stepped called⟩
    exact op
  | advance advanced => exact ⟨_, (advance_op advanced).trans op, planting.advance advanced⟩

end Planting

/-! ## Calls that kill the losers -/

section Kills

variable {config : Config} {env : Env} {shared after : Shared} {task : KillTask} {phase : KillPhase}

/-- A kill makes no branch live. -/
theorem killStep_isLive (taken : killStep config env shared task = some (after, phase)) {branchId : BranchId}
    (isLive : after.isLive branchId = true) : shared.isLive branchId = true := by
  unfold Shared.isLive at isLive ⊢
  cases killStep_record taken branchId with
  | kept record _ =>
    rw [record] at isLive
    exact isLive
  | moved _ _ record _ =>
    rw [record] at isLive
    cases isLive
  | forgotten record =>
    rw [record] at isLive
    cases isLive

/-- A branch is not live while a kill works on it. -/
theorem killStep_dead (taken : killStep config env shared task = some (after, phase))
    (dead : (Task.kill task).active = true → shared.isLive task.branchId = false)
    (active : (Task.kill { task with phase := phase }).active = true) : after.isLive task.branchId = false := by
  by_contra isLive
  have wasLive := killStep_isLive taken ((Bool.not_eq_false _).mp isLive)
  by_cases queued : task.phase = .queued
  · cases killStep_move taken with
    | refused => cases active
    | admitted =>
      refine isLive ?_
      unfold Shared.isLive
      rw [write_branches, Dict.get?_insert, if_pos rfl]
      rfl
    | calls atPhase call =>
      rw [queued] at atPhase
      subst atPhase
      cases call
    | fails | forgets | staysRecorded => cases active
  · rw [dead (active_kill.2 ⟨queued, killStep_unfinished taken⟩)] at wasLive
    cases wasLive

/-- The first section of a `kill_losers` only lists its losers. -/
theorem invoke_killLosers {winnerId : BranchId} {call : Call}
    (invoked : invoke config env shared (.killLosers winnerId) = some (after, call)) :
    after = shared ∧ Dormant call.items := by
  cases invoke_move invoked with
  | refused refuses => cases refuses <;> exact ⟨rfl, dormant_nil⟩
  | kills => exact ⟨rfl, dormant_kills _ _⟩

end Kills

/-- The call that kills losers is the only one that has moved since `before`. -/
structure Reaping (losers : List BranchId) (before managed : Managed) (call : Call) : Prop where
  calls : managed.state.calls = before.state.calls ++ [call]
  culls : call.Culls (fun _ => True) losers
  dead : ∀ kill, Task.kill kill ∈ call.items → (Task.kill kill).active = true → managed.isLive kill.branchId = false
  retains : before.Retains managed

namespace Reaping

variable {config : Config} {losers : List BranchId} {before managed after : Managed} {call : Call}

theorem item (reaping : Reaping losers before managed call) {clock i : Nat} {entered : Bool} {env : Env} {task next : Task}
    {shared : Shared} {cache : TreeKVCache Nat} (atItem : call.items[i]? = some task)
    (stepped : task.step config env managed.state.shared = some (shared, next))
    (called : Managed.Calls managed.cache env entered cache (task.cacheCall clock)) :
    Reaping losers before
      ⟨⟨shared, managed.state.calls.set before.state.calls.length { call with items := call.items.set i next }⟩, cache⟩
      { call with items := call.items.set i next } := by
  have member := List.mem_of_getElem? atItem
  have culls := reaping.culls.item atItem stepped fun _ _ => trivial
  cases task with
  | start task => cases (reaping.culls.items _ member).isKill
  | kill task =>
    obtain ⟨⟨_, phase⟩, taken, equal⟩ := Option.map_eq_some_iff.1 stepped
    cases equal
    have wasDead := reaping.dead task member
    refine ⟨?_, culls, fun kill isItem active => ?_, fun branchId isLive => ?_⟩
    · exact set_last reaping.calls _
    · obtain old | new := List.mem_or_eq_of_mem_set isItem
      · by_contra isLive
        have wasLive : managed.state.shared.isLive kill.branchId = true :=
          killStep_isLive taken ((Bool.not_eq_false _).mp isLive)
        rw [show managed.state.shared.isLive kill.branchId = false from reaping.dead kill old active] at wasLive
        cases wasLive
      · cases new
        have dead : shared.isLive task.branchId = false := killStep_dead taken wasDead active
        exact dead
    · have wasLive : managed.state.shared.isLive branchId = true := killStep_isLive taken isLive
      obtain ⟨live, same⟩ := reaping.retains branchId wasLive
      refine ⟨live, Eq.trans ?_ same⟩
      by_cases here : branchId = task.branchId
      · -- the kill has not come to the backends
        have noCall : (Task.kill task).cacheCall clock = none := by
          obtain ⟨killed, allowClosing, phase⟩ := task
          cases phase with
          | kvKill =>
            rw [here, show managed.state.shared.isLive killed = false from wasDead rfl] at wasLive
            cases wasLive
          | _ => rfl
        rw [noCall] at called
        exact congrArg (fun cache => cache.treeTokens.get? branchId) called
      · exact (called.elsewhere (fun _ same => by cases same) here).2

theorem advance (reaping : Reaping losers before managed call) {shared : Shared} {next : Call}
    (advanced : call.advance config managed.state.shared = some (shared, next)) :
    Reaping losers before ⟨⟨shared, managed.state.calls.set before.state.calls.length next⟩, managed.cache⟩ next := by
  have culls := reaping.culls.advance (fun _ _ => trivial) advanced
  obtain ⟨_, more, dormant, items⟩ := advance_cases advanced
  obtain ⟨metrics, closing, closed, rfl⟩ := advance_flags advanced
  refine ⟨?_, culls, fun kill isItem active => ?_, reaping.retains⟩
  · exact set_last reaping.calls _
  · rw [items] at isItem
    obtain old | new := List.mem_append.1 isItem
    · exact reaping.dead kill old active
    · rw [dormant _ new] at active
      cases active

theorem of_reachable {first final : Managed} {opening : Call} (initial : Reaping losers before first opening)
    (reached : Reachable (Managed.Step config) (fun _ action => action.isOf before.state.calls.length = true) first final) :
    ∃ call, Reaping losers before final call := by
  refine reached.invariant (motive := fun managed => ∃ call, Reaping losers before managed call) ⟨opening, initial⟩
    fun managed action after reaping own taken => ?_
  obtain ⟨call, reaping⟩ := reaping
  have atCall : managed.state.calls[before.state.calls.length]? = some call := by
    rw [reaping.calls, List.getElem?_concat_length]
  cases taken.own own atCall with
  | item atItem _ _ stepped called => exact ⟨_, reaping.item atItem stepped called⟩
  | advance advanced => exact ⟨_, reaping.advance advanced⟩

end Reaping

/-! ## The children of a fork -/

namespace Shared

/-- The ids that a fork chooses. -/
def chosenIds (parentId : BranchId) : List (Option BranchId) → Shared → List BranchId
  | [], _ => []
  | given :: rest, shared =>
    (chooseId parentId shared given).1 :: chosenIds parentId rest (chooseId parentId shared given).2

theorem planChildren_chosen {config : Config} {now : Int} {parentId : BranchId} {lease : Option Int}
    {asked : List (Option BranchId)} {children planned : List Branch} {shared after : Shared}
    (result : planChildren config now parentId lease asked children shared = (.ok planned, after)) :
    planned.map Branch.branchId = children.map Branch.branchId ++ chosenIds parentId asked shared := by
  induction asked generalizing children shared with
  | nil =>
    cases result
    exact (List.append_nil _).symm
  | cons given asked inductionHypothesis =>
    simp only [planChildren] at result
    split at result
    · cases result
    · cases expiry : leaseExpiry config now lease with
      | error fault =>
        rw [expiry] at result
        cases result
      | ok expires =>
        rw [expiry] at result
        rw [inductionHypothesis result, List.map_append, List.append_assoc, chosenIds]
        rfl

theorem admitFork_chosen {config : Config} {failure : Option Fault} {now : Int} {parentId : BranchId} {n : Int}
    {childIds : Option (List BranchId)} {lease : Option Int} {shared after : Shared} {children : List Branch}
    (admits : admitFork config failure now parentId n childIds lease shared = (.ok children, after)) :
    children.map Branch.branchId = chosenIds parentId (requested n childIds) shared := by
  unfold admitFork at admits
  split at admits
  · cases admits
  · split at admits
    · cases admits
    · split at admits
      · cases admits
      · split at admits
        · cases admits
        · next planned middle result =>
          have chosen := planChildren_chosen result
          split at admits
          · cases admits
          · cases admits
            exact chosen

end Shared

/-! ## What the calls leave -/

namespace Managed

variable {config : Config} {before first after : Managed} {outcome : Except Fault Value}

/-- What a call that starts branches leaves: the new ones that are live hold what
they begin with, and all others are as they were. -/
structure Grafts (before : Managed) (parentId : Option BranchId) (ids : List BranchId) (after : Managed) : Prop where
  distinct : ids.Nodup
  absent : ∀ branchId ∈ ids, before.record branchId = none
  notParent : ∀ parent, parentId = some parent → parent ∉ ids
  new : ∀ branchId ∈ ids, after.isLive branchId = true → after.cached branchId = planted before.cache parentId ∧
    ∃ branch, after.record branchId = some branch ∧ branch.parentId = parentId
  elsewhere : ∀ branchId, branchId ∉ ids →
    after.record branchId = before.record branchId ∧ after.cached branchId = before.cached branchId

theorem Grafts.retains {parentId : Option BranchId} {ids : List BranchId} (grafts : before.Grafts parentId ids after)
    {branchId : BranchId} (old : branchId ∉ ids) (isLive : after.isLive branchId = true) :
    before.isLive branchId = true ∧ after.cached branchId = before.cached branchId := by
  obtain ⟨record, cached⟩ := grafts.elsewhere branchId old
  exact ⟨isLive_congr record ▸ isLive, cached⟩

/-- A call that is refused starts nothing. -/
theorem Grafts.refused {parentId : Option BranchId} {shared : Shared} {calls : List Call}
    (quiet : Quiet before.state.shared shared) : before.Grafts parentId [] ⟨⟨shared, calls⟩, before.cache⟩ where
  distinct := List.nodup_nil
  absent _ member := absurd member List.not_mem_nil
  notParent _ _ := List.not_mem_nil
  new _ member := absurd member List.not_mem_nil
  elsewhere branchId _ := ⟨quiet.branches branchId, rfl⟩

theorem isLive_of_new {parentId : Option BranchId} {children : List Branch} {call : Call}
    (planting : Planting before parentId children after call) (newborn : Newborn before parentId children) {child : Branch}
    (isChild : child ∈ children) (isLive : after.isLive child.branchId = true) :
    after.record child.branchId = some (setState .live child) ∧
      after.cached child.branchId = planted before.cache parentId := by
  obtain ⟨branch, recorded, atState⟩ := isLive_iff.1 isLive
  obtain ⟨i, atChild⟩ := List.mem_iff_getElem?.1 isChild
  obtain ⟨phase, _, plants⟩ := planting.items i child atChild
  rw [recorded] at plants ⊢
  obtain ⟨rfl, cached⟩ := plants.live (newborn.forking child isChild) atState
  exact ⟨rfl, cached⟩

theorem grafts_of_planting {parentId : Option BranchId} {children : List Branch} {call : Call}
    (planting : Planting before parentId children after call) (newborn : Newborn before parentId children) :
    before.Grafts parentId (children.map Branch.branchId) after where
  distinct := newborn.distinct
  absent branchId member := by
    obtain ⟨child, isChild, rfl⟩ := List.mem_map.1 member
    exact newborn.absent child isChild
  notParent := newborn.notParent
  new branchId member isLive := by
    obtain ⟨child, isChild, rfl⟩ := List.mem_map.1 member
    obtain ⟨recorded, cached⟩ := isLive_of_new planting newborn isChild isLive
    exact ⟨cached, setState .live child, recorded, newborn.parents child isChild⟩
  elsewhere := planting.elsewhere

/-- The first section of a call that starts branches. -/
theorem planting_start {parentId : Option BranchId} {children : List Branch} {shared : Shared} {op : Op} {phase : StartPhase}
    (journaled : Journaled config before.state.shared children shared) (fresh : phase = .queued ∨ phase = .kvStart)
    (starts : op.starts = true) (parents : ∀ child ∈ children, child.parentId = parentId) :
    Planting before parentId children
      ⟨⟨shared, before.state.calls ++ [⟨op, children.map (startTask phase []), .fanOut, []⟩]⟩, before.cache⟩
      ⟨op, children.map (startTask phase []), .fanOut, []⟩ := by
  refine ⟨rfl, starts, List.length_map _, fun i child atChild => ⟨phase, ?_, ?_⟩, fun branchId notMember => ⟨?_, rfl⟩,
    .inl rfl⟩
  · rw [List.getElem?_map, atChild, ← parents child (List.mem_of_getElem? atChild)]
    rfl
  · have recorded : shared.branches.get? child.branchId = some child := by
      rw [journaled.branches, find?_of_mem journaled.distinct (List.mem_of_getElem? atChild), Option.some_or]
    obtain rfl | rfl := fresh
    · exact recorded
    · exact recorded
  · exact (journaled.branches branchId).trans (by rw [find?_of_notMem notMember, Option.none_or]; rfl)

/-- A fork, however it ends. -/
theorem Alone.fork_grafts {parentId : BranchId} {n : Int} {childIds : Option (List BranchId)} {lease : Option Int}
    (alone : before.Alone config (.fork parentId n childIds lease) outcome after)
    (named : ∀ branchId ∈ chosenIds parentId (requested n childIds) before.state.shared,
      before.record branchId = none → branchId ≠ "") :
    ∃ ids, (∀ branchId ∈ ids, branchId ∈ chosenIds parentId (requested n childIds) before.state.shared) ∧
      before.Grafts (some parentId) ids after ∧ ∀ branches, outcome = .ok (.branches branches) →
        before.isLive parentId = true ∧ (branches.map Branch.branchId).Sublist ids := by
  obtain ⟨env, first, taken, reached, ended⟩ := alone
  obtain ⟨shared, opening, invoked, rfl⟩ := taken.invoked
  cases invoke_move invoked with
  | kills listed => cases listed
  | refused _ quiet =>
    rw [Managed.unmoved List.getElem?_concat_length rfl reached] at ended ⊢
    rw [List.getElem?_concat_length] at ended
    cases ended
    exact ⟨[], fun branchId member => absurd member List.not_mem_nil, .refused quiet,
      fun branches returned => by cases returned⟩
  | @fork _ _ _ _ children _ admits parentLive parents journaled =>
    have chosen := admitFork_chosen admits
    have absent : ∀ child ∈ children, before.record child.branchId = none :=
      fun child member => Dict.get?_eq_none.2 (journaled.absent child member)
    have newborn : Newborn before (some parentId) children := by
      refine ⟨journaled.distinct, absent, journaled.forking, parents, ?_, .inr fun child member => ?_⟩
      · intro parent isParent member
        cases isParent
        obtain ⟨child, isChild, same⟩ := List.mem_map.1 member
        obtain ⟨branch, recorded, _⟩ := isLive_iff.1 parentLive
        rw [← same, absent child isChild] at recorded
        cases recorded
      · exact named _ (chosen ▸ List.mem_map.2 ⟨child, member, rfl⟩) (absent child member)
    obtain ⟨call, op, planting⟩ := Planting.of_reachable (planting_start journaled (.inl rfl) rfl parents) newborn reached
    refine ⟨_, fun branchId member => chosen ▸ member, grafts_of_planting planting newborn, fun branches returned => ?_⟩
    subst returned
    refine ⟨parentLive, ?_⟩
    rw [planting.atCall] at ended
    obtain atStage | ⟨outcome, atStage, concluded⟩ := planting.stage
    · rw [Option.map_some, atStage] at ended
      cases ended
    · rw [Option.map_some, atStage] at ended
      cases ended
      obtain ⟨answer, _⟩ := concluded
      rw [op] at answer
      cases answer
      exact planting.branches_sublist

/-- A root, however its creation ends: only one that is returned is new. -/
theorem Alone.createParent_grafts {rootId : BranchId} {lease : Option Int}
    (alone : before.Alone config (.createParent rootId [] lease) outcome after) :
    (∃ value, outcome = .ok value ∧ before.Grafts none [rootId] after) ∨
      (∃ fault, outcome = .error fault) ∧ before.Retains after := by
  obtain ⟨env, first, taken, reached, ended⟩ := alone
  obtain ⟨shared, opening, invoked, rfl⟩ := taken.invoked
  cases invoke_move invoked with
  | kills listed => cases listed
  | @refused _ fault _ _ quiet =>
    rw [Managed.unmoved List.getElem?_concat_length rfl reached] at ended ⊢
    rw [List.getElem?_concat_length] at ended
    cases ended
    exact .inr ⟨⟨fault, rfl⟩, .of_quiet quiet⟩
  | @createParent _ _ _ child _ _ isRoot noParent journaled =>
    subst isRoot
    have parents : ∀ other ∈ [child], other.parentId = none := fun other member => by rwa [List.mem_singleton.1 member]
    have newborn : Newborn before none [child] :=
      ⟨journaled.distinct, fun other member => Dict.get?_eq_none.2 (journaled.absent other member), journaled.forking,
        parents, fun parent isParent => (by cases isParent), .inl rfl⟩
    obtain ⟨call, op, planting⟩ := Planting.of_reachable (planting_start journaled (.inr rfl) rfl parents) newborn reached
    have grafts := grafts_of_planting planting newborn
    cases outcome with
    | ok value => exact .inl ⟨value, rfl, grafts⟩
    | error fault =>
      refine .inr ⟨⟨fault, rfl⟩, fun branchId isLive => ?_⟩
      by_cases here : branchId = child.branchId
      · subst here
        -- the only task of the call has raised
        rw [planting.atCall, Option.map_some] at ended
        obtain atStage | ⟨outcome, atStage, concluded⟩ := planting.stage
        · rw [atStage] at ended
          cases ended
        · rw [atStage] at ended
          cases ended
          obtain ⟨task, member, faulted⟩ := concluded
          obtain ⟨i, atItem⟩ := List.mem_iff_getElem?.1 member
          obtain ⟨other, phase, atChild, rfl, plants⟩ := planting.child_of_item atItem
          obtain rfl := List.mem_singleton.1 (List.mem_of_getElem? atChild)
          rw [(isLive_of_new planting newborn List.mem_cons_self isLive).1] at plants
          exact absurd plants (StartPhase.not_plants_of_fault faulted (newborn.forking other List.mem_cons_self))
      · exact grafts.retains (by simpa using here) isLive

/-- A call of `kill_losers`, however it ends. -/
theorem Alone.killLosers_retains {winnerId : BranchId} (alone : before.Alone config (.killLosers winnerId) outcome after) :
    before.Retains after := by
  obtain ⟨env, first, taken, reached, _⟩ := alone
  obtain ⟨shared, opening, invoked, rfl⟩ := taken.invoked
  have culls : opening.Culls (fun _ => True) (before.state.shared.losers winnerId) := invoke_culls invoked
  obtain ⟨rfl, dormant⟩ := invoke_killLosers invoked
  have initial : Reaping (before.state.shared.losers winnerId) before
      ⟨⟨before.state.shared, before.state.calls ++ [opening]⟩, before.cache⟩ opening := by
    refine ⟨rfl, culls, fun kill member active => ?_, fun branchId isLive => ⟨isLive, rfl⟩⟩
    rw [dormant _ member] at active
    cases active
  obtain ⟨call, reaping⟩ := Reaping.of_reachable initial reached
  exact reaping.retains

end Managed

end Agentfork.Orchestrator

import Agentfork.Orchestrator.PlannedFork

/-! # A fork of which some children fail

Once the fork has ended, registry, cache and sandbox hold what they held and the
children that have not failed, and no later call can tell the fork from one of
these children alone. A child with the empty id breaks this: the cache takes the
empty id for none and makes one up, under which no rollback looks for it. -/

namespace Agentfork.Orchestrator

open Shared Transition Kv

/-! ## Whole forks -/

/-- A fork that `before` admits and that has ended, while no other call has moved. -/
structure ForkRun (config : Config) (condition : Managed → ManagedAction → Prop) (plan : BranchId → Option Point)
    (before : Managed) where
  parentId : BranchId
  n : Int
  childIds : Option (List BranchId)
  lease : Option Int
  env : Env
  children : List Branch
  admitted : Shared
  final : Managed
  outcome : Except Fault Value
  admits : admitFork config env.persist env.now parentId n childIds lease before.state.shared = (.ok children, admitted)
  reached : Reachable (Managed.Step config)
    (fun managed action => condition managed action ∧ action.isOf before.state.calls.length = true ∧
      managed.goesBy config plan action = true)
    ⟨⟨admitted, before.state.calls ++
      [⟨.fork parentId n childIds lease, children.map (startTask .queued []), .fanOut, []⟩]⟩, before.cache⟩ final
  returned : (final.state.calls[before.state.calls.length]?).map Call.stage = some (.finished outcome)

namespace ForkRun

variable {config : Config} {condition : Managed → ManagedAction → Prop} {plan : BranchId → Option Point}
  {before : Managed}

/-- The children of which no transition raises. -/
def survivors (run : ForkRun config condition plan before) : List Branch :=
  run.children.filter fun child => plan child.branchId = none

def survivorIds (run : ForkRun config condition plan before) : List BranchId := run.survivors.map Branch.branchId

/-- Registry, cache and sandbox hold what they held and the survivors, the fork
raises if a child has failed, and what comes later cannot tell the fork from one
of the survivors alone. -/
structure SparesSiblings (run : ForkRun config condition plan before) : Prop where
  registry : ∀ branchId, run.final.state.shared.branches.get? branchId =
    ((run.survivors.find? fun child => child.branchId = branchId).map (setState .live)).or
      (before.state.shared.branches.get? branchId)
  file : config.registry = true → ∀ branchId,
    (ofRecords run.final.state.shared.file).get? branchId = run.final.state.shared.branches.get? branchId
  sandbox : ∀ branchId, branchId ∈ run.final.state.shared.sandbox ↔
    branchId ∈ run.survivorIds ∨ branchId ∈ before.state.shared.sandbox
  namespaces : ∀ branchId, (run.final.cache.trees.get? branchId).map TreeId.ns =
    (before.cache.trees.get? (if branchId ∈ run.survivorIds then run.parentId else branchId)).map TreeId.ns
  tokens : ∀ branchId, run.final.cache.treeTokens.get? branchId =
    before.cache.treeTokens.get? (if branchId ∈ run.survivorIds then run.parentId else branchId)
  paths : ∀ ns, run.final.cache.paths ns = before.cache.paths ns
  resident : run.final.cache.residentTokens = before.cache.residentTokens
  raises : (∃ fault, run.outcome = .error fault) ↔ ∃ child ∈ run.children, plan child.branchId ≠ none
  returns : ∀ value, run.outcome = .ok value → value = .branches (run.children.map (setState .live))
  later : ∀ reference : ForkRun config condition (fun _ => none) before, reference.parentId = run.parentId →
    reference.children.map Branch.branchId = run.survivorIds →
      run.final.cache.residentTokens = reference.final.cache.residentTokens ∧
      ∀ ops : List (Kv.Op Nat), (∀ op ∈ ops, op.named = true ∧ ∀ treeId, op ≠ .createTree treeId) →
        (run.final.cache.results ops).map visible = (reference.final.cache.results ops).map visible

theorem mem_survivorIds (run : ForkRun config condition plan before) {child : Branch} (member : child ∈ run.children) :
    child.branchId ∈ run.survivorIds ↔ plan child.branchId = none := by
  simp only [survivorIds, survivors, List.mem_map, List.mem_filter, decide_eq_true_eq]
  constructor
  · rintro ⟨other, ⟨_, spared⟩, same⟩
    rw [← same]
    exact spared
  · intro spared
    exact ⟨child, ⟨member, spared⟩, rfl⟩

theorem survivorIds_subset (run : ForkRun config condition plan before) {branchId : BranchId}
    (member : branchId ∈ run.survivorIds) : branchId ∈ run.children.map Branch.branchId := by
  obtain ⟨child, survives, rfl⟩ := List.mem_map.1 member
  exact List.mem_map.2 ⟨child, List.mem_of_mem_filter survives, rfl⟩

/-- What the end of a fork has in common with its beginning. -/
structure Ended (run : ForkRun config condition plan before) (base : PrefixModel Nat) (call : Call) : Prop where
  distinct : (run.children.map Branch.branchId).Nodup
  absent : ∀ branchId ∈ run.children.map Branch.branchId, branchId ∉ before.state.shared.branches
  unheld : ∀ branchId ∈ run.children.map Branch.branchId,
    branchId ∉ before.state.shared.kv ∧ branchId ∉ before.state.shared.sandbox
  op : call.op = .fork run.parentId run.n run.childIds run.lease
  forking : Forking config plan before base (some run.parentId) run.children run.final call
  returned : call.stage = .finished run.outcome

variable {origin : Finset BranchId} {base : PrefixModel Nat} {call : Call}

theorem ended (run : ForkRun config (Managed.Careful config) plan before) (sound : Managed.Sound config origin before)
    (holds : CacheHolds before.cache before.state.shared.kv base) : ∃ call, run.Ended base call := by
  obtain ⟨admitted, distinct, absent, initial⟩ := Forking.of_admitFork plan sound holds run.admits
  have final := run.reached.invariant
    (motive := fun managed => ∃ call, call.op = .fork run.parentId run.n run.childIds run.lease ∧
      Forking config plan before base (some run.parentId) run.children managed call)
    ⟨_, rfl, initial⟩ fun _ _ _ forking guard taken => by
      obtain ⟨call, op, forking⟩ := forking
      obtain ⟨next, same, forking⟩ := forking.step admitted guard.1 guard.2.1 guard.2.2 taken
      exact ⟨next, same.trans op, forking⟩
  obtain ⟨call, op, forking⟩ := final
  refine ⟨call, distinct, absent, fun branchId member => ?_, op, forking, ?_⟩
  · rw [← not_or]
    exact fun held => absent branchId member (sound.recorded held)
  · have returned := run.returned
    rw [forking.atCall] at returned
    exact Option.some.inj returned

namespace Ended

variable {run : ForkRun config condition plan before}

/-- A child is live and in both backends, or nothing is left of it. -/
theorem settled (ended : run.Ended base call) {child : Branch} (member : child ∈ run.children) :
    (plan child.branchId = none → run.final.state.shared.holdingOf child.branchId =
      ⟨some (setState .live child), True, True⟩) ∧
    (plan child.branchId ≠ none → run.final.state.shared.holdingOf child.branchId = ⟨none, False, False⟩) := by
  obtain ⟨i, atChild⟩ := List.mem_iff_getElem?.1 member
  obtain ⟨result, _, stands⟩ := (ended.forking.ended ended.returned).2 i child atChild
  generalize run.final.state.shared.holdingOf child.branchId = holding at stands
  obtain ⟨record, kv, sandbox⟩ := holding
  cases result with
  | ok branch =>
    obtain ⟨spared, isLive, isRecord, inKv, inSandbox⟩ := stands
    refine ⟨fun _ => ?_, fun planned => absurd spared planned⟩
    simp only at isRecord inKv inSandbox
    rw [isRecord, isLive, eq_true inKv, eq_true inSandbox]
  | error fault =>
    obtain ⟨planned, noRecord, notKv, notSandbox⟩ := stands
    refine ⟨fun spared => absurd spared planned, fun _ => ?_⟩
    simp only at noRecord notKv notSandbox
    rw [noRecord, eq_false notKv, eq_false notSandbox]

/-- The cache holds what it held and copies of the parent. -/
theorem copies (ended : run.Ended base call) (holds : CacheHolds before.cache before.state.shared.kv base) :
    ∃ model, Agrees run.final.cache model ∧ PrefixModel.Copies base run.parentId run.survivorIds model := by
  obtain ⟨model, after, lineage⟩ := ended.forking.holds
  have unborn : ∀ branchId ∈ run.children.map Branch.branchId, base.live.get? branchId = none := by
    intro branchId member
    rw [Dict.get?_eq_none, holds.held]
    exact (ended.unheld branchId member).1
  refine ⟨model, after.agrees, fun branchId => ?_, fun branchId member => unborn branchId (run.survivorIds_subset member)⟩
  by_cases member : branchId ∈ run.children.map Branch.branchId
  · obtain ⟨child, isChild, rfl⟩ := List.mem_map.1 member
    have settled := ended.settled isChild
    by_cases spared : plan child.branchId = none
    · rw [if_pos ((run.mem_survivorIds isChild).2 spared)]
      have inKv : (child.branchId ∈ run.final.state.shared.kv) = True := congrArg Holding.kv (settled.1 spared)
      obtain ⟨branch, live⟩ := Dict.mem_iff_get?.1 ((after.held child.branchId).2 (inKv ▸ trivial))
      rw [live]
      exact (lineage.children child.branchId member branch live).symm
    · rw [if_neg fun survives => spared ((run.mem_survivorIds isChild).1 survives), unborn child.branchId member,
        Dict.get?_eq_none, after.held]
      have notKv : (child.branchId ∈ run.final.state.shared.kv) = False := congrArg Holding.kv (settled.2 spared)
      exact of_eq_false notKv
  · rw [if_neg fun survives => member (run.survivorIds_subset survives)]
    exact lineage.others branchId member

/-- The fork raises when a child has. -/
theorem raises (ended : run.Ended base call) :
    (∃ fault, run.outcome = .error fault) ↔ ∃ child ∈ run.children, plan child.branchId ≠ none := by
  obtain ⟨concluded, results⟩ := ended.forking.ended ended.returned
  constructor
  · rintro ⟨fault, isError⟩
    rw [isError] at concluded
    obtain ⟨task, member, faulted⟩ := concluded
    obtain ⟨i, atItem⟩ := List.mem_iff_getElem?.1 member
    obtain ⟨child, _, atChild, _⟩ := ended.forking.child_of_item atItem
    obtain ⟨result, isItem, stands⟩ := results i child atChild
    rw [atItem] at isItem
    cases isItem
    cases result with
    | ok branch => exact absurd rfl faulted
    | error fault => exact ⟨child, List.mem_of_getElem? atChild, stands.1⟩
  · rintro ⟨child, member, planned⟩
    obtain ⟨i, atChild⟩ := List.mem_iff_getElem?.1 member
    obtain ⟨result, isItem, stands⟩ := results i child atChild
    cases isOutcome : run.outcome with
    | error fault => exact ⟨fault, rfl⟩
    | ok value =>
      rw [isOutcome] at concluded
      have noFault := concluded.2 _ (List.mem_of_getElem? isItem)
      cases result with
      | ok branch => exact absurd stands.1 planned
      | error fault => cases noFault

theorem returns (ended : run.Ended base call) {value : Value} (returned : run.outcome = .ok value) :
    value = .branches (run.children.map (setState .live)) := by
  obtain ⟨concluded, results⟩ := ended.forking.ended ended.returned
  rw [returned] at concluded
  obtain ⟨rfl, noFault⟩ := concluded
  have branches : call.items.map Task.branch? = (run.children.map (setState .live)).map some := by
    refine List.ext_getElem? fun i => ?_
    rw [List.getElem?_map, List.getElem?_map, List.getElem?_map]
    cases atChild : run.children[i]? with
    | none =>
      rw [List.getElem?_eq_none_iff] at atChild
      rw [List.getElem?_eq_none (ended.forking.length.trans_le atChild)]
      rfl
    | some child =>
      obtain ⟨result, isItem, stands⟩ := results i child atChild
      have noFault := noFault _ (List.mem_of_getElem? isItem)
      cases result with
      | error fault => cases noFault
      | ok branch =>
        rw [isItem, Option.map_some, Option.map_some, Option.map_some, ← stands.2.1]
        rfl
  have filtered : call.items.filterMap Task.branch? = (call.items.map Task.branch?).filterMap id := by
    rw [List.filterMap_map]
    rfl
  rw [ended.op, Op.answer, filtered, branches, List.filterMap_map]
  exact congrArg Value.branches List.filterMap_some

end Ended

theorem Ended.registry {run : ForkRun config condition plan before} (ended : run.Ended base call) (branchId : BranchId) :
    run.final.state.shared.branches.get? branchId =
      ((run.survivors.find? fun child => child.branchId = branchId).map (setState .live)).or
        (before.state.shared.branches.get? branchId) := by
  by_cases member : branchId ∈ run.children.map Branch.branchId
  · obtain ⟨child, isChild, rfl⟩ := List.mem_map.1 member
    have settled := ended.settled isChild
    rw [Dict.get?_eq_none.2 (ended.absent child.branchId member), Option.or_none]
    by_cases spared : plan child.branchId = none
    · have distinct : (run.survivors.map Branch.branchId).Nodup :=
        ended.distinct.sublist (List.filter_sublist.map _)
      have survives : child ∈ run.survivors := List.mem_filter.2 ⟨isChild, decide_eq_true spared⟩
      rw [find?_of_mem distinct survives]
      exact congrArg Holding.record (settled.1 spared)
    · rw [find?_of_notMem fun survives => spared ((run.mem_survivorIds isChild).1 survives)]
      exact congrArg Holding.record (settled.2 spared)
  · rw [find?_of_notMem fun survives => member (run.survivorIds_subset survives), Option.map_none, Option.none_or]
    exact congrArg Holding.record (ended.forking.elsewhere branchId member)

theorem Ended.sandbox {run : ForkRun config condition plan before} (ended : run.Ended base call) (branchId : BranchId) :
    branchId ∈ run.final.state.shared.sandbox ↔
      branchId ∈ run.survivorIds ∨ branchId ∈ before.state.shared.sandbox := by
  by_cases member : branchId ∈ run.children.map Branch.branchId
  · obtain ⟨child, isChild, rfl⟩ := List.mem_map.1 member
    have settled := ended.settled isChild
    rw [or_iff_left (ended.unheld child.branchId member).2, run.mem_survivorIds isChild]
    by_cases spared : plan child.branchId = none
    · exact iff_of_true (of_eq_true (congrArg Holding.sandbox (settled.1 spared))) spared
    · exact iff_of_false (of_eq_false (congrArg Holding.sandbox (settled.2 spared))) spared
  · rw [or_iff_right fun survives => member (run.survivorIds_subset survives)]
    exact iff_of_eq (congrArg Holding.sandbox (ended.forking.elsewhere branchId member))

theorem survivorIds_unplanned (run : ForkRun config condition (fun _ => none) before) :
    run.survivorIds = run.children.map Branch.branchId := by
  apply congrArg (List.map Branch.branchId)
  exact List.filter_eq_self.2 fun _ _ => decide_eq_true rfl

theorem spares_siblings (run : ForkRun config (Managed.Careful config) plan before)
    (sound : Managed.Sound config origin before) : run.SparesSiblings := by
  obtain ⟨base, holds⟩ := sound.holds
  obtain ⟨call, ended⟩ := run.ended sound holds
  obtain ⟨model, agrees, copies⟩ := ended.copies holds
  have resident : run.final.cache.residentTokens = before.cache.residentTokens := by
    have reachable := agrees.reachableTokens_eq.trans
      (copies.totalCached.trans holds.agrees.reachableTokens_eq.symm)
    exact agrees.resident.trans ((congrArg Int.ofNat reachable).trans holds.agrees.resident.symm)
  refine ⟨ended.registry, ended.forking.synced.file, ended.sandbox, fun branchId => ?_, fun branchId => ?_,
    fun ns => ?_, resident, ended.raises, fun value => ended.returns, fun reference sameParent sameIds => ?_⟩
  · rw [agrees.trees, copies.live, holds.agrees.trees]
    split <;> rfl
  · rw [agrees.tokens, copies.live, holds.agrees.tokens]
    split <;> rfl
  · rw [agrees.paths_eq_cached, holds.agrees.paths_eq_cached, copies.cached]
  · obtain ⟨otherCall, otherEnded⟩ := reference.ended sound holds
    obtain ⟨otherModel, otherAgrees, otherCopies⟩ := otherEnded.copies holds
    rw [survivorIds_unplanned, sameIds, sameParent] at otherCopies
    -- both forks have made the same copies
    have same : SameHoldings run.final.cache reference.final.cache model :=
      ⟨agrees, otherAgrees.congr (otherCopies.same copies),
        otherEnded.forking.limits.trans ended.forking.limits.symm⟩
    exact ⟨same.resident.symm, fun ops named => same.results named⟩

end ForkRun

/-- In a run in which no child has the empty id, no id is journaled while it is
still marked and no root is created in the namespace of a live branch, a fork
that attempts every child leaves of the ones that fail nothing. -/
theorem failed_children_leave_no_trace {config : Config} {world : World} {shared : Shared} {capacity : Int}
    {budget : Option Int} {cache : TreeKVCache Nat} {before : Managed} {plan : BranchId → Option Point}
    (booted : Shared.boot config world = .ok shared) (noCache : world.kv = ∅)
    (recorded : ∀ branchId ∈ world.sandbox, ∃ branch ∈ world.file, branch.branchId = branchId)
    (created : TreeKVCache.new capacity budget = .ok cache)
    (reached : Reachable (Managed.Step config) (Managed.Orderly config) ⟨State.fresh shared, cache⟩ before)
    (run : ForkRun config (Managed.Careful config) plan before) : run.SparesSiblings :=
  run.spares_siblings (Managed.sound_of_reachable (Managed.Sound.boot booted noCache recorded created) reached)

/-! ## A parent with two tokens -/

def managedStart : Managed := ⟨State.fresh blank, .fresh 100 none⟩

def taken (actions : List Action) : List ManagedAction := actions.map fun action => .take action 0 false

def managedRun (start : Managed) (actions : List Action) : Managed :=
  runFrom (Managed.step serialConfig) start (taken actions)

def parentRun : List Action :=
  [.invoke (.createParent "p" [1, 2] none) returns, .item 0 0 returns, .item 0 0 returns, .item 0 0 returns,
    .item 0 0 returns, .item 0 0 returns, .advance 0]

theorem parentRun_reachable : Reachable (Managed.Step serialConfig) (Managed.Orderly serialConfig) managedStart
    (managedRun managedStart parentRun) :=
  reachable_runFrom (by decide) (by decide)

/-- Of two children the first one fails to spawn. -/
def halfRun : List Action :=
  [.item 1 0 returns, .item 1 0 returns, .item 1 0 (raises .exception), .item 1 0 returns, .item 1 0 returns,
    .item 1 0 returns, .item 1 0 returns, .item 1 1 returns, .item 1 1 returns, .item 1 1 returns,
    .item 1 1 returns, .item 1 1 returns, .advance 1]

def halfFork : ForkRun serialConfig (Managed.Careful serialConfig)
    (fun branchId => if branchId = "a" then some .spawn else none) (managedRun managedStart parentRun) where
  parentId := "p"
  n := 2
  childIds := some ["a", "b"]
  lease := none
  env := returns
  children := [⟨"a", some "p", .forking, 0, none⟩, ⟨"b", some "p", .forking, 0, none⟩]
  admitted := (admitFork serialConfig none 0 "p" 2 (some ["a", "b"]) none
    (managedRun managedStart parentRun).state.shared).2
  final := managedRun (managedRun managedStart (parentRun ++
    [.invoke (.fork "p" 2 (some ["a", "b"]) none) returns])) halfRun
  outcome := .error .exception
  admits := rfl
  reached := reachable_runFrom (by decide) (by decide)
  returned := rfl

theorem halfFork_leaves_no_trace : "a" ∉ halfFork.final.state.shared.branches ∧
    (halfFork.final.state.shared.branches.get? "b").map Branch.state = some .live ∧
    halfFork.final.cache.treeTokens.get? "b" = some [1, 2] ∧ halfFork.final.cache.residentTokens = 2 := by
  have spares := failed_children_leave_no_trace boot_blank rfl nofun (show TreeKVCache.new 100 none = .ok _ from rfl)
    parentRun_reachable halfFork
  refine ⟨?_, ?_, ?_, ?_⟩
  · rw [← Dict.get?_eq_none, spares.registry]
    decide
  · rw [spares.registry]
    decide
  · rw [spares.tokens]
    decide
  · rw [spares.resident]
    decide

/-- A child with the empty id fails to spawn. -/
def unnamedRun : List Action :=
  [.item 1 0 returns, .item 1 0 returns, .item 1 0 (raises .exception), .item 1 0 returns, .item 1 0 returns,
    .item 1 0 returns, .item 1 0 returns, .advance 1]

instance (managed : Managed) (action : ManagedAction) : Decidable (always managed action) := .isTrue trivial

def unnamedFork : ForkRun serialConfig always (fun _ => some .spawn) (managedRun managedStart parentRun) where
  parentId := "p"
  n := 1
  childIds := some [""]
  lease := none
  env := returns
  children := [⟨"", some "p", .forking, 0, none⟩]
  admitted := (admitFork serialConfig none 0 "p" 1 (some [""]) none (managedRun managedStart parentRun).state.shared).2
  final := managedRun (managedRun managedStart (parentRun ++ [.invoke (.fork "p" 1 (some [""]) none) returns])) unnamedRun
  outcome := .error .exception
  admits := rfl
  reached := reachable_runFrom (by decide) (by decide)
  returned := rfl

theorem unnamed_child_leaves_a_tree : ¬ ∀ (config : Config) (world : World) (shared : Shared) (capacity : Int)
    (budget : Option Int) (cache : TreeKVCache Nat) (before : Managed) (plan : BranchId → Option Point),
    Shared.boot config world = .ok shared → world.kv = ∅ →
    (∀ branchId ∈ world.sandbox, ∃ branch ∈ world.file, branch.branchId = branchId) →
    TreeKVCache.new capacity budget = .ok cache →
    Reachable (Managed.Step config) (Managed.Orderly config) ⟨State.fresh shared, cache⟩ before →
    ∀ run : ForkRun config always plan before, run.SparesSiblings := by
  intro claimed
  have spares := claimed serialConfig ⟨[], ∅, ∅⟩ blank 100 none (.fresh 100 none) (managedRun managedStart parentRun)
    (fun _ => some .spawn) boot_blank rfl nofun rfl parentRun_reachable unnamedFork
  -- the cache has made the tree "p/1", and the rollback has killed the tree ""
  have trace := spares.tokens "p/1"
  revert trace
  decide

end Agentfork.Orchestrator

import Agentfork.Orchestrator.LiveSequences

/-! # Forks and kills that return

What a fork and a `kill_losers` have done once they have returned, while nothing
else moves. The children of a fork hold what their parent holds, and the losers
of a kill are gone from the registry; each call leaves the other branches as they
were. -/

namespace Agentfork.Orchestrator

open Shared Transition Kv

variable {config : Config} {env : Env} {shared after : Shared}

/-! ## Forks -/

/-- The new branches hold what their parent holds. -/
structure Managed.Copied (before : Managed) (parentId : BranchId) (children : List Branch) (after : Managed) : Prop where
  distinct : (children.map Branch.branchId).Nodup
  absent : ∀ branchId ∈ children.map Branch.branchId, before.record branchId = none
  parentLive : before.isLive parentId = true
  recorded : ∀ child ∈ children, after.record child.branchId = some child ∧ child.state = .live ∧ child.parentId = some parentId
  elsewhere : ∀ branchId, branchId ∉ children.map Branch.branchId → after.record branchId = before.record branchId
  cached : ∀ branchId,
    after.cached branchId = before.cached (if branchId ∈ children.map Branch.branchId then parentId else branchId)
  namespaces : ∀ branchId, (after.cache.trees.get? branchId).map TreeId.ns =
    (before.cache.trees.get? (if branchId ∈ children.map Branch.branchId then parentId else branchId)).map TreeId.ns

theorem Resting.fork_copies {origin : Finset BranchId} {before after : Managed} {parentId : BranchId} {n : Int}
    {childIds : Option (List BranchId)} {lease : Option Int} {value : Value} (resting : Resting config origin before)
    (named : ∀ ids, childIds = some ids → "" ∉ ids) (alone : before.Alone config (.fork parentId n childIds lease) (.ok value) after) :
    Resting config origin after ∧ ∃ children, value = .branches children ∧ before.Copied parentId children after := by
  obtain ⟨model, holds⟩ := resting.sound.holds
  obtain ⟨rests, run, rfl, rfl, rfl, rfl, returned⟩ := resting.fork_returns holds named alone
  have spares := run.spares_siblings resting.sound
  obtain ⟨fault, shared, refused, _⟩ | ⟨children, shared, admitted, parentLive, parents, journaled⟩ :=
    admitFork_cases config run.env.persist run.env.now run.parentId run.n run.childIds run.lease before.state.shared
  · rw [run.admits] at refused
    cases refused
  · rw [run.admits] at admitted
    cases admitted
    -- no child has been lost
    have survivors : run.survivors = run.children := List.filter_eq_self.2 fun _ _ => decide_eq_true rfl
    have survivorIds : run.survivorIds = run.children.map Branch.branchId := congrArg (List.map Branch.branchId) survivors
    have ids : (run.children.map (setState .live)).map Branch.branchId = run.children.map Branch.branchId := by
      rw [List.map_map]
      rfl
    refine ⟨rests, run.children.map (setState .live), spares.returns value returned, ?_⟩
    constructor
    case distinct => exact ids ▸ journaled.distinct
    case parentLive => exact parentLive
    case cached =>
      rw [ids, ← survivorIds]
      exact spares.tokens
    case namespaces =>
      rw [ids, ← survivorIds]
      exact spares.namespaces
    case absent =>
      intro branchId member
      rw [ids] at member
      obtain ⟨child, isChild, rfl⟩ := List.mem_map.1 member
      exact Dict.get?_eq_none.2 (journaled.absent child isChild)
    case recorded =>
      intro child member
      obtain ⟨journaledChild, isChild, rfl⟩ := List.mem_map.1 member
      refine ⟨(spares.registry journaledChild.branchId).trans ?_, rfl, parents journaledChild isChild⟩
      rw [survivors, find?_of_mem journaled.distinct isChild]
      rfl
    case elsewhere =>
      intro branchId notMember
      rw [ids] at notMember
      refine (spares.registry branchId).trans ?_
      rw [survivors, find?_of_notMem notMember]
      rfl

/-! ## Kills -/

theorem killStep_record_elsewhere {task : KillTask} {phase : KillPhase}
    (taken : killStep config env shared task = some (after, phase)) {branchId : BranchId} (differs : branchId ≠ task.branchId) :
    after.branches.get? branchId = shared.branches.get? branchId :=
  (killStep_record taken branchId).elsewhere (@killStep_onlyAt config env ∅ shared after task phase taken) differs

/-- The call is the only one that has moved since `before`, and what is not one of
its losers is as it was. -/
structure Pruning (losers : List BranchId) (before managed : Managed) (call : Call) : Prop where
  calls : managed.state.calls = before.state.calls ++ [call]
  culls : call.Culls (fun branchId => branchId ∉ managed.state.shared.branches) losers
  spares : ∀ branchId, branchId ∉ losers →
    managed.record branchId = before.record branchId ∧ before.cache.Keeps managed.cache branchId

namespace Pruning

variable {losers : List BranchId} {before managed : Managed} {call : Call}

theorem item (pruning : Pruning losers before managed call) {clock i : Nat} {entered : Bool} {task next : Task}
    {cache : TreeKVCache Nat} (atItem : call.items[i]? = some task)
    (stepped : task.step config env managed.state.shared = some (shared, next))
    (called : Managed.Calls managed.cache env entered cache (task.cacheCall clock)) :
    Pruning losers before
      ⟨⟨shared, managed.state.calls.set before.state.calls.length { call with items := call.items.set i next }⟩, cache⟩
      { call with items := call.items.set i next } := by
  have culled := pruning.culls.items task (List.mem_of_getElem? atItem)
  cases task with
  | start task => cases culled.isKill
  | kill task =>
    obtain ⟨⟨_, phase⟩, taken, equal⟩ := Option.map_eq_some_iff.1 stepped
    cases equal
    -- what has no record gets none
    have culls := pruning.culls.mono fun branchId absent => killStep_unrecorded taken absent
    refine ⟨set_last pruning.calls _, culls.item atItem stepped fun _ absent => absent, fun branchId notLoser => ?_⟩
    have differs : branchId ≠ task.branchId := fun same => notLoser (same ▸ culled.isLoser)
    obtain ⟨record, trees, tokens⟩ := pruning.spares branchId notLoser
    obtain ⟨sameTree, sameTokens⟩ := called.elsewhere (fun _ same => by cases same) differs
    exact ⟨(killStep_record_elsewhere taken differs).trans record, sameTree.trans trees, sameTokens.trans tokens⟩

theorem advance (pruning : Pruning losers before managed call) {next : Call}
    (advanced : call.advance config managed.state.shared = some (shared, next)) :
    Pruning losers before ⟨⟨shared, managed.state.calls.set before.state.calls.length next⟩, managed.cache⟩ next := by
  have culls := pruning.culls.advance (fun _ absent => absent) advanced
  obtain ⟨metrics, closing, closed, rfl⟩ := advance_flags advanced
  exact ⟨set_last pruning.calls _, culls, pruning.spares⟩

/-- Every step of the call is careful: a kill cannot fail before it has begun. -/
theorem of_reachable {first final : Managed} {opening : Call} (initial : Pruning losers before first opening)
    (reached : Reachable (Managed.Step config) (fun _ action => action.isOf before.state.calls.length = true) first final) :
    (∃ call, Pruning losers before final call) ∧
      Reachable (Managed.Step config) (Managed.CarefulAlone config before.state.calls.length) first final := by
  refine reached.invariant (motive := fun managed => (∃ call, Pruning losers before managed call) ∧
    Reachable (Managed.Step config) (Managed.CarefulAlone config before.state.calls.length) first managed)
    ⟨⟨opening, initial⟩, .refl⟩ fun managed action after pruning own taken => ?_
  obtain ⟨⟨call, pruning⟩, careful⟩ := pruning
  have atCall : managed.state.calls[before.state.calls.length]? = some call := by
    rw [pruning.calls, List.getElem?_concat_length]
  cases taken.own own atCall with
  | @item i clock env entered task next shared cache atItem _ _ stepped called =>
    have isKill := (pruning.culls.items task (List.mem_of_getElem? atItem)).isKill
    have going : task.failing = false := by
      cases task with
      | start task => cases isKill
      | kill task => rfl
    have permitted : ∀ op, task.cacheCall clock = some op → op.named = true ∧
        Tracked.NamespaceFree ⟨managed.cache, PrefixModel.init⟩ op := by
      intro op isCall
      cases task with
      | start task => cases isKill
      | kill task =>
        simp only [Task.cacheCall] at isCall
        split at isCall <;> cases isCall
        exact ⟨rfl, trivial⟩
    exact ⟨⟨_, pruning.item atItem stepped called⟩,
      careful.tail ⟨Managed.careful_item atCall atItem going permitted taken (Task.step_marks stepped).1, own⟩ taken⟩
  | advance advanced =>
    obtain ⟨metrics, closing, closed, rfl⟩ := advance_flags advanced
    exact ⟨⟨_, pruning.advance advanced⟩, careful.tail ⟨Managed.careful_advance taken rfl, own⟩ taken⟩

end Pruning

/-- The losers are gone, and all others are as they were. -/
structure Managed.Pruned (losers : List BranchId) (before : Managed) (value : Value) (after : Managed) : Prop where
  gone : ∀ branchId ∈ losers, after.record branchId = none
  spares : ∀ branchId, branchId ∉ losers →
    after.record branchId = before.record branchId ∧ before.cache.Keeps after.cache branchId
  receipts : ∃ receipts, value = .receipts receipts ∧ ∀ receipt ∈ receipts, receipt.branchId ∈ losers

/-- A call of `kill_losers` that returns. -/
theorem Managed.Alone.killLosers_returns {before after : Managed} {winnerId : BranchId} {value : Value}
    (alone : before.Alone config (.killLosers winnerId) (.ok value) after) :
    before.Pruned (before.state.shared.losers winnerId) value after ∧
      ∀ origin, Resting config origin before → Resting config origin after := by
  obtain ⟨env, first, taken, reached, ended⟩ := alone
  obtain ⟨shared, opening, invoked, isFirst⟩ := taken.invoked
  obtain ⟨rfl, _⟩ := invoke_killLosers invoked
  have initial : Pruning (before.state.shared.losers winnerId) before first opening := by
    subst isFirst
    exact ⟨rfl, invoke_culls invoked, fun branchId _ => ⟨rfl, rfl, rfl⟩⟩
  obtain ⟨⟨call, pruning⟩, careful⟩ := Pruning.of_reachable initial reached
  refine ⟨?_, fun origin resting => resting.careful taken careful ended⟩
  have stage := pruning.culls.stage
  rw [pruning.calls, List.getElem?_concat_length, Option.map_some] at ended
  rw [Option.some.inj ended] at stage
  obtain ⟨receipts, isValue, merged⟩ := stage
  refine ⟨fun branchId isLoser => ?_, pruning.spares, receipts.values, isValue, fun receipt member => ?_⟩
  · exact Dict.get?_eq_none.2 ((merged.settled branchId isLoser).resolve_left List.not_mem_nil)
  · exact (merged.ids.2 receipt.branchId).1 (List.mem_map.2 ⟨receipt, member, rfl⟩)

end Agentfork.Orchestrator

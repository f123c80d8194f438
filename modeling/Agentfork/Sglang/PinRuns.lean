import Agentfork.Library.Transition
import Agentfork.Sglang.PinSteps
import Agentfork.Sglang.ReferenceCache

/-! # The balance of pins over runs

What the balance of pins says about the nodes and the telemetry in every state
that the methods and memory pressure reach. -/

namespace Agentfork.Sglang.TreeRadixCache

open LockTree Transition

variable {τ : Type} [DecidableEq τ] {radix : RadixCache τ} {cache : TreeRadixCache τ}

/-- The branch is not demoted and its locked way passes through the node. -/
def pinsThrough (cache : TreeRadixCache τ) (id : Nat) (br : AgentBranch τ) : Bool :=
  !br.speculative && br.lockedNode.any fun node => id ∈ cache.tree.upward node

/-- Locks, cached tokens, telemetry and the end of a tree. -/
structure PinsMatch (radix : RadixCache τ) (cache : TreeRadixCache τ) : Prop where
  locks : ∀ id, cache.tree.outline id ≠ none →
    cache.tree.lockRef id = cache.branches.values.countP (cache.pinsThrough id)
  cached : ∀ branchId br, cache.branches.get? branchId = some br → br.speculative = false →
    (radix.matchPrefix cache.tree ⟨br.tokenIds, br.ns⟩).2.deviceIndices = br.tokenIds.length
  pinned : ∀ ns, (cache.treeTelemetry ns).pinnedTokens =
    ((∑ id ∈ cache.pinnedNodes ns, (cache.tree.key id).length : Nat) : Int)
  unprotected : cache.branches.values = [] → ∀ id, cache.tree.lockRef id = 0

omit [DecidableEq τ] in
/-- Counting what is held is counting the holders. -/
theorem countP_held (branches : List (AgentBranch τ)) (passes : String × List τ → Prop) [DecidablePred passes] :
    ((branches : Multiset (AgentBranch τ)).bind stake).countP passes =
      branches.countP fun br => !br.speculative && decide (passes (br.ns, br.tokenIds)) := by
  induction branches with
  | nil => rfl
  | cons br branches inductionHypothesis =>
    rw [← Multiset.cons_coe, Multiset.cons_bind, Multiset.countP_add, inductionHypothesis, List.countP_cons,
      add_comm]
    refine congrArg _ ?_
    cases flag : br.speculative with
    | true => simp [stake_of_demoted flag]
    | false => simp [stake_of_pinned flag, ← Multiset.cons_zero, Multiset.countP_cons]

theorem Balanced.pinsMatch (laws : radix.Laws) (balanced : Balanced 0 cache) : PinsMatch radix cache := by
  refine ⟨fun id present => ?_, fun branchId br found pinned => ?_, fun ns => ?_, fun empty id => ?_⟩
  · obtain ⟨⟨space, path⟩, present⟩ := Option.ne_none_iff_exists'.1 present
    rw [balanced.synced.counts_alone.counted id space path present, held, countP_held, Nat.cast_inj]
    refine List.countP_congr fun br member => ?_
    obtain ⟨branchId, found⟩ := Dict.mem_values.1 member
    simp only [pinsThrough, Bool.and_eq_true, Bool.not_eq_true', decide_eq_true_eq, and_congr_right_iff]
    intro pinned
    have anchored := balanced.synced.anchored branchId br found pinned
    rw [Anchored] at anchored
    cases locked : br.lockedNode with
    | none =>
      rw [locked] at anchored
      simp only at anchored
      refine iff_of_false ?_ (by simp)
      rintro ⟨_, isPrefix⟩
      rw [anchored] at isPrefix
      exact path_ne_nil present (List.prefix_nil.1 isPrefix)
    | some node =>
      rw [locked] at anchored
      rw [Option.any_some, decide_eq_true_eq, mem_upward anchored, present]
      constructor
      · rintro ⟨rfl, isPrefix⟩
        exact ⟨path, rfl, isPrefix⟩
      · rintro ⟨shorter, same, isPrefix⟩
        cases same
        exact ⟨rfl, isPrefix⟩
  · exact match_whole laws ⟨br.tokenIds, br.ns⟩ (anchored_cached (balanced.synced.anchored branchId br found pinned))
  · rw [sum_pinnedNodes balanced.synced]
    exact balanced.pinned ns
  · cases isOutline : cache.tree.outline id with
    | none => exact lockRef_of_absent isOutline
    | some outline =>
      rw [balanced.synced.counts_alone.counted id outline.1 outline.2 isOutline, held, empty]
      rfl

/-- In every state of every run the locks are the pins of the branches, the
pinned tokens are cached and counted, and a cache without branches protects nothing. -/
theorem pins_match (laws : radix.Laws) (treeQuotaTokens : Option Int)
    (reached : Reachable (Step radix) always (new 1 treeQuotaTokens) cache) : PinsMatch radix cache := by
  refine Balanced.pinsMatch laws ?_
  refine reached.invariant (motive := Balanced 0) (new_balanced 1 treeQuotaTokens) ?_
  intro before op after balanced _ taken
  subst taken
  exact perform_balanced laws balanced op

/-- Demote, extend, fork, invalidate and kill around a demoted branch. -/
def demotionRun : List (Op Nat) :=
  [.createAgentTree "a" none, .extendTree "a" [1, 2, 3], .forkBranch "a" (some "b"), .extendTree "b" [4],
    .demoteBranch "b", .evict 1, .forkBranch "b" (some "c"), .extendTree "b" [5], .invalidateTree "a",
    .killTree "c"]

theorem demotionRun_pins_match :
    PinsMatch referenceCache (demotionRun.foldl (perform referenceCache) (new 1 none)) :=
  pins_match referenceCache_laws none (reachable_foldl meets_always)

end Agentfork.Sglang.TreeRadixCache

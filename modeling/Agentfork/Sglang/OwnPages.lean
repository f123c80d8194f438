import Agentfork.Library.Transition
import Agentfork.Sglang.PinSteps
import Agentfork.Sglang.ReferenceCache

/-! # Whose pages a kill evicts

A kill unlocks the way of its branch, makes the nodes it has freed the oldest ones
and evicts as many tokens. Without memory pressure every node lies on the way of a
branch, demoted or not. Where no demoted branch hangs below a freed node, the kill
takes the freed nodes and no others. -/

namespace Agentfork.Sglang

open LockTree Transition

variable {τ : Type} {branches : Dict String (AgentBranch τ)} {branchId ns : String} {br : AgentBranch τ}

/-- The tokens of all branches, demoted or not. -/
def rows (branches : Dict String (AgentBranch τ)) : Multiset (String × List τ) :=
  (branches.values : Multiset (AgentBranch τ)).map fun br => (br.ns, br.tokenIds)

theorem mem_rows {entry : String × List τ} : entry ∈ rows branches ↔
    ∃ branchId br, branches.get? branchId = some br ∧ entry = (br.ns, br.tokenIds) := by
  simp only [rows, Multiset.mem_map, Multiset.mem_coe, Dict.mem_values]
  constructor
  · rintro ⟨br, ⟨branchId, found⟩, rfl⟩
    exact ⟨branchId, br, found, rfl⟩
  · rintro ⟨branchId, br, found, rfl⟩
    exact ⟨br, ⟨branchId, found⟩, rfl⟩

variable [DecidableEq τ] {radix : RadixCache τ} {tree after : Tree τ}

/-- A demoted branch shares a prefix with the branch that no other pinned branch holds. -/
def Overlaps (cache : TreeRadixCache τ) (branchId : String) : Prop :=
  ∃ br other otherBr shared, cache.branches.get? branchId = some br ∧ other ≠ branchId ∧
    cache.branches.get? other = some otherBr ∧ otherBr.ns = br.ns ∧ shared ∈ prefixes br.tokenIds ∧
    shared ∈ prefixes otherBr.tokenIds ∧ shared ∉ carried (held (cache.branches.erase branchId)) br.ns

/-- Every branch is cached, every node belongs to one, and no node waits to be evicted. -/
structure Kept (tree : Tree τ) (branches : Dict String (AgentBranch τ)) : Prop where
  synced : Synced 0 tree branches
  covered : Covered tree (rows branches)
  cached : ∀ branchId br, branches.get? branchId = some br →
    br.tokenIds = [] ∨ tree.Cached br.ns br.tokenIds
  dated : Dated tree

/-- A step that leaves the cached tokens and the tokens of the branches alone. -/
theorem Kept.still {branches' : Dict String (AgentBranch τ)} (kept : Kept tree branches)
    (synced : Synced 0 after branches') (same : ∀ ns tokens, after.Cached ns tokens ↔ tree.Cached ns tokens)
    (dated : Dated after)
    (old : ∀ other otherBr, branches'.get? other = some otherBr → otherBr.tokenIds = [] ∨
      ∃ before beforeBr, branches.get? before = some beforeBr ∧ beforeBr.ns = otherBr.ns ∧
        beforeBr.tokenIds = otherBr.tokenIds)
    (kept' : ∀ other otherBr, branches.get? other = some otherBr → ∃ later laterBr,
      branches'.get? later = some laterBr ∧ laterBr.ns = otherBr.ns ∧ laterBr.tokenIds = otherBr.tokenIds) :
    Kept after branches' := by
  refine ⟨synced, fun id space path present => ?_, fun other otherBr found => ?_, dated⟩
  · obtain ⟨below, longer, isOutline, isPrefix⟩ := (same space path).1 ⟨id, path, present, List.prefix_rfl⟩
    obtain ⟨tokens, member, onWay⟩ := kept.covered below space longer isOutline
    obtain ⟨other, otherBr, found, rowIs⟩ := mem_rows.1 member
    cases rowIs
    obtain ⟨later, laterBr, laterFound, sameNs, sameTokens⟩ := kept' other otherBr found
    exact ⟨_, mem_rows.2 ⟨later, laterBr, laterFound, by rw [sameNs, sameTokens]⟩, isPrefix.trans onWay⟩
  · obtain empty | ⟨before, beforeBr, beforeFound, sameNs, sameTokens⟩ := old other otherBr found
    · exact .inl empty
    · rw [← sameNs, ← sameTokens, same]
      exact kept.cached before beforeBr beforeFound

/-- A branch is stored back with the tokens it had. -/
theorem Kept.replace (kept : Kept tree branches) (found : branches.get? branchId = some br) {moved : AgentBranch τ}
    (synced : Synced 0 after (branches.insert branchId moved))
    (same : ∀ ns tokens, after.Cached ns tokens ↔ tree.Cached ns tokens) (dated : Dated after)
    (sameNs : moved.ns = br.ns) (sameTokens : moved.tokenIds = br.tokenIds) :
    Kept after (branches.insert branchId moved) := by
  refine kept.still synced same dated (fun other otherBr isBranch => .inr ?_) fun other otherBr isBranch => ?_
  · rw [Dict.get?_insert] at isBranch
    split at isBranch
    next =>
      cases isBranch
      exact ⟨branchId, br, found, sameNs.symm, sameTokens.symm⟩
    next => exact ⟨other, otherBr, isBranch, rfl, rfl⟩
  · by_cases here : other = branchId
    · subst here
      rw [found] at isBranch
      cases isBranch
      exact ⟨other, moved, (Dict.get?_insert _ _ _ _).trans (if_pos rfl), sameNs, sameTokens⟩
    · exact ⟨other, otherBr, (Dict.get?_insert _ _ _ _).trans ((if_neg here).trans isBranch), rfl, rfl⟩

/-! ## A pin that is dropped -/

/-- The tree after a pin is dropped and what it has freed is evicted. -/
def dropped (radix : RadixCache τ) (tree : Tree τ) (br : AgentBranch τ) : Tree τ :=
  TreeRadixCache.release radix (TreeRadixCache.unlock radix tree br.lockedNode).1 br.lockedNode
    (TreeRadixCache.unlock radix tree br.lockedNode).2

/-- The prefixes that others have in common with the branch are held by others. -/
def Apart (branches : Dict String (AgentBranch τ)) (branchId : String) (br : AgentBranch τ) : Prop :=
  ∀ other otherBr shared, other ≠ branchId → branches.get? other = some otherBr → otherBr.ns = br.ns →
    shared ∈ prefixes br.tokenIds → shared ∈ prefixes otherBr.tokenIds →
      shared ∈ carried (held (branches.erase branchId)) br.ns

omit [DecidableEq τ] in
theorem unlock_dated (stamps : radix.Stamps) (dated : Dated tree) (node : Option NodeRef) :
    Dated (TreeRadixCache.unlock radix tree node).1 := by
  cases node with
  | none => exact dated
  | some node => exact stamps.dec_dated tree node dated

/-- Of the nodes of a branch that is apart, dropping its pin takes those that it
alone held. -/
theorem dropped_outline (laws : radix.Laws) (inOrder : radix.EvictsInOrder) (stamps : radix.Stamps)
    (kept : Kept tree branches) (found : branches.get? branchId = some br) (pinned : br.speculative = false)
    (apart : Apart branches branchId br) :
    (∀ id, (dropped radix tree br).outline id =
      if id ∈ tree.freed (br.lockedNode.getD .root) then none else tree.outline id) ∧
      Dated (dropped radix tree br) := by
  have anchored := kept.synced.anchored branchId br found pinned
  have spells := anchored_spells anchored
  have counts := kept.synced.counts_alone
  rw [held_of_get? found, stake_of_pinned pinned, Multiset.singleton_add] at counts
  obtain ⟨unlocks, delta⟩ := unlock_spec laws anchored
  have dated := unlock_dated stamps kept.dated br.lockedNode
  rw [dropped, TreeRadixCache.release]
  split
  next released =>
    refine counts.evict_freed spells unlocks dated ?_ ?_
    · intro id path other longer member present otherPresent isPrefix
      obtain ⟨tokens, isRow, onWay⟩ := kept.covered other br.ns longer otherPresent
      obtain ⟨owner, ownerBr, ownerFound, rowIs⟩ := mem_rows.1 isRow
      obtain ⟨sameNs, rfl⟩ := Prod.mk.inj rowIs
      -- whoever hangs below a freed node is the branch itself
      by_cases here : owner = branchId
      · subst here
        rw [found] at ownerFound
        cases ownerFound
        exact onWay
      · obtain ⟨onBranch, notCarried⟩ := (counts.mem_freed_iff spells present).1 member
        have nonempty := path_ne_nil present
        exact absurd (apart owner ownerBr path here ownerFound sameNs.symm (mem_prefixes.2 ⟨nonempty, onBranch⟩)
          (mem_prefixes.2 ⟨nonempty, isPrefix.trans onWay⟩)) notCarried
    · have amount : (TreeRadixCache.unlock radix tree br.lockedNode).2 =
          ∑ id ∈ tree.freed (br.lockedNode.getD .root), (tree.key id).length := delta
      rw [← amount]
      cases locked : br.lockedNode with
      | none =>
        rw [locked] at released
        exact absurd released (lt_irrefl _)
      | some node => exact inOrder _ _
  next nothing =>
    have none : ∀ id, id ∉ tree.freed (br.lockedNode.getD .root) := by
      intro id member
      obtain ⟨⟨path, present, _⟩, _⟩ := (mem_freed spells).1 member
      have zero := Nat.eq_zero_of_not_pos nothing
      rw [delta] at zero
      have length := Finset.sum_eq_zero_iff.1 zero id member
      have positive := key_length_pos present
      omega
    exact ⟨fun id => by rw [unlocks.outline, if_neg (none id)], dated⟩

/-- Without the branch every node still belongs to a branch and every branch is
still cached. -/
theorem dropped_kept (laws : radix.Laws) (inOrder : radix.EvictsInOrder) (stamps : radix.Stamps)
    (kept : Kept tree branches) (found : branches.get? branchId = some br) (pinned : br.speculative = false)
    (apart : Apart branches branchId br) :
    Covered (dropped radix tree br) (rows (branches.erase branchId)) ∧
      ∀ other otherBr, other ≠ branchId → branches.get? other = some otherBr →
        otherBr.tokenIds = [] ∨ (dropped radix tree br).Cached otherBr.ns otherBr.tokenIds := by
  have spells := anchored_spells (kept.synced.anchored branchId br found pinned)
  have counts := kept.synced.counts_alone
  rw [held_of_get? found, stake_of_pinned pinned, Multiset.singleton_add] at counts
  obtain ⟨outlines, -⟩ := dropped_outline laws inOrder stamps kept found pinned apart
  refine ⟨fun id space path present => ?_, fun other otherBr differs isBranch => ?_⟩
  · rw [outlines] at present
    split at present
    next => cases present
    next spared =>
      obtain ⟨tokens, isRow, onWay⟩ := kept.covered id space path present
      obtain ⟨owner, ownerBr, ownerFound, rowIs⟩ := mem_rows.1 isRow
      cases rowIs
      by_cases here : owner = branchId
      · subst here
        rw [found] at ownerFound
        cases ownerFound
        rw [counts.mem_freed_iff spells present, not_and, not_not] at spared
        obtain ⟨holder, holds, below⟩ := mem_carried.1 (spared onWay)
        obtain ⟨third, thirdBr, thirdFound, _, stakeIs⟩ := mem_held.1 holds
        exact ⟨holder, mem_rows.2 ⟨third, thirdBr, thirdFound, stakeIs⟩, (mem_prefixes.1 below).2⟩
      · exact ⟨_, mem_rows.2 ⟨owner, ownerBr, (Dict.get?_erase _ _ _).trans ((if_neg here).trans ownerFound), rfl⟩,
          onWay⟩
  · obtain empty | ⟨id, path, present, isPrefix⟩ := kept.cached other otherBr isBranch
    · exact .inl empty
    · by_cases empty : otherBr.tokenIds = []
      · exact .inl empty
      · refine .inr ?_
        by_cases freed : id ∈ tree.freed (br.lockedNode.getD .root)
        · -- the tokens end within a freed node, so another pinned branch holds them
          obtain ⟨⟨longer, alsoPresent, _⟩, _⟩ := (mem_freed spells).1 freed
          rw [present] at alsoPresent
          obtain ⟨sameNs, samePath⟩ := Prod.mk.inj (Option.some.inj alsoPresent)
          rw [sameNs] at present
          obtain ⟨onBranch, _⟩ := (counts.mem_freed_iff spells present).1 freed
          have shared := apart other otherBr otherBr.tokenIds differs isBranch sameNs
            (mem_prefixes.2 ⟨empty, isPrefix.trans onBranch⟩) (mem_prefixes.2 ⟨empty, List.prefix_rfl⟩)
          obtain ⟨holder, holds, below⟩ := mem_carried.1 shared
          obtain rfl | ⟨node, nodePresent⟩ := counts.anchored _ _ (Multiset.mem_cons_of_mem holds)
          · exact absurd (List.prefix_nil.1 (mem_prefixes.1 below).2) empty
          · rw [sameNs]
            refine ⟨node, holder, ?_, (mem_prefixes.1 below).2⟩
            rw [outlines, if_neg, nodePresent]
            rw [counts.mem_freed_iff spells nodePresent, not_and, not_not]
            exact fun _ => mem_carried.2 ⟨holder, holds, mem_prefixes.2 ⟨path_ne_nil nodePresent, List.prefix_rfl⟩⟩
        · exact ⟨id, path, by rw [outlines, if_neg freed, present], isPrefix⟩

end Agentfork.Sglang

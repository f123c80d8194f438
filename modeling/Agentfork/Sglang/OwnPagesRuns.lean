import Agentfork.Sglang.OwnPages

/-! # Own pages over runs

Every method keeps the branches cached as long as each kill and each invalidation
finds its branch apart from the demoted ones. -/

namespace Agentfork.Sglang.TreeRadixCache

open LockTree Transition

variable {τ : Type} [DecidableEq τ] {radix : RadixCache τ} {cache : TreeRadixCache τ} {branchId : String}
  {br : AgentBranch τ}

/-- The invariant of the runs. -/
structure Intact (cache : TreeRadixCache τ) : Prop where
  balanced : Balanced 0 cache
  kept : Kept cache.tree cache.branches

omit [DecidableEq τ] in
theorem erase_get? {branches : Dict String (AgentBranch τ)} {other : String} {otherBr : AgentBranch τ}
    (found : (branches.erase branchId).get? other = some otherBr) :
    other ≠ branchId ∧ branches.get? other = some otherBr := by
  rw [Dict.get?_erase] at found
  split at found
  next => cases found
  next differs => exact ⟨differs, found⟩

/-! ## Methods that evict nothing -/

theorem demoteBranch_intact (laws : radix.Laws) (stamps : radix.Stamps) (intact : Intact cache) (branchId : String) :
    Intact (cache.demoteBranch radix branchId).2 := by
  have balanced := demoteBranch_balanced laws intact.balanced branchId
  refine ⟨balanced, ?_⟩
  cases found : cache.branches.get? branchId with
  | none =>
    simp only [demoteBranch, found]
    exact intact.kept
  | some br =>
    have synced := balanced.synced
    simp only [demoteBranch, found] at synced ⊢
    split at synced
    next node flag locked =>
      have anchored := intact.kept.synced.anchored branchId br found flag
      have relocks := (unlock_spec laws anchored).1
      rw [locked] at relocks
      exact intact.kept.replace found synced (fun _ _ => relocks.cached_iff)
        (stamps.dec_dated _ _ intact.kept.dated) rfl rfl
    next => exact intact.kept

theorem promoteBranch_intact (laws : radix.Laws) (stamps : radix.Stamps) (intact : Intact cache) (branchId : String) :
    Intact (cache.promoteBranch radix branchId).2 := by
  have balanced := promoteBranch_balanced laws intact.balanced branchId
  refine ⟨balanced, ?_⟩
  cases found : cache.branches.get? branchId with
  | none =>
    simp only [promoteBranch, found]
    exact intact.kept
  | some br =>
    have synced := balanced.synced
    simp only [promoteBranch, found] at synced ⊢
    split at synced
    next demoted =>
      rw [if_pos demoted]
      let key : RadixKey τ := ⟨br.tokenIds, br.ns⟩
      have whole := match_whole laws key (intact.kept.cached branchId br found)
      have locks := laws.inc_relocks _ _ _ _ (laws.match_node cache.tree key)
      refine intact.kept.replace found synced (fun _ _ => ?_) ?_ rfl ?_
      · exact locks.cached_iff.trans (Reshapes.cached_iff (laws.match_reshapes cache.tree key))
      · exact stamps.inc_dated _ _ (stamps.match_dated _ _ intact.kept.dated)
      · change br.tokenIds.take (radix.matchPrefix cache.tree key).2.deviceIndices = br.tokenIds
        rw [whole]
        exact List.take_length
    next pinned =>
      rw [if_neg pinned]
      exact intact.kept

theorem matchTreePrefix_intact (laws : radix.Laws) (stamps : radix.Stamps) (intact : Intact cache)
    (branchId : String) (tokenIds : List τ) : Intact (cache.matchTreePrefix radix branchId tokenIds).2 := by
  have balanced := matchTreePrefix_balanced laws intact.balanced branchId tokenIds
  refine ⟨balanced, ?_⟩
  cases found : cache.branches.get? branchId with
  | none =>
    simp only [matchTreePrefix, found]
    exact intact.kept
  | some br =>
    have synced := balanced.synced
    simp only [matchTreePrefix, found] at synced ⊢
    exact intact.kept.still synced (fun _ _ => Reshapes.cached_iff (laws.match_reshapes _ _))
      (stamps.match_dated _ _ intact.kept.dated) (fun other otherBr isBranch => .inr ⟨other, otherBr, isBranch, rfl, rfl⟩)
      fun other otherBr isBranch => ⟨other, otherBr, isBranch, rfl, rfl⟩

/-- A new branch with the tokens of another one or with none. -/
theorem Kept.add {tree after : Tree τ} {branches : Dict String (AgentBranch τ)} (kept : Kept tree branches)
    (absent : branches.get? branchId = none) (synced : Synced 0 after (branches.insert branchId br))
    (same : ∀ ns tokens, after.Cached ns tokens ↔ tree.Cached ns tokens) (dated : Dated after)
    (tokens : br.tokenIds = [] ∨ ∃ before beforeBr, branches.get? before = some beforeBr ∧ beforeBr.ns = br.ns ∧
      beforeBr.tokenIds = br.tokenIds) : Kept after (branches.insert branchId br) := by
  refine kept.still synced same dated (fun other otherBr isBranch => ?_) fun other otherBr isBranch => ?_
  · rw [Dict.get?_insert] at isBranch
    split at isBranch
    next =>
      cases isBranch
      exact tokens
    next => exact .inr ⟨other, otherBr, isBranch, rfl, rfl⟩
  · have differs : other ≠ branchId := by
      rintro rfl
      rw [absent] at isBranch
      cases isBranch
    exact ⟨other, otherBr, (Dict.get?_insert _ _ _ _).trans ((if_neg differs).trans isBranch), rfl, rfl⟩

theorem createAgentTree_intact (intact : Intact cache) (branchId : String) (ns : Option String) :
    Intact (cache.createAgentTree branchId ns).2 := by
  have balanced := createAgentTree_balanced intact.balanced branchId ns
  refine ⟨balanced, ?_⟩
  have synced := balanced.synced
  rw [createAgentTree] at synced ⊢
  split at synced
  next present =>
    rw [if_pos present]
    exact intact.kept
  next absent =>
    rw [if_neg absent]
    exact Kept.add intact.kept (Dict.get?_eq_none.2 absent) synced (fun _ _ => Iff.rfl) intact.kept.dated (.inl rfl)

theorem reserve_intact (intact : Intact cache) (branchId : String) (numTokens : Int) :
    Intact (cache.reserve branchId numTokens).2 := by
  have balanced := reserve_balanced intact.balanced branchId numTokens
  refine ⟨balanced, ?_⟩
  have synced := balanced.synced
  rw [reserve] at synced ⊢
  split at synced
  next negative =>
    rw [if_pos negative]
    exact intact.kept
  next nonneg =>
    rw [if_neg nonneg]
    cases found : cache.branches.get? branchId with
    | none => exact intact.kept
    | some br =>
      simp only [found] at synced ⊢
      split at synced
      next exceeds =>
        rw [if_pos exceeds]
        exact intact.kept
      next fits =>
        rw [if_neg fits]
        exact intact.kept.replace found synced (fun _ _ => Iff.rfl) intact.kept.dated rfl rfl

omit [DecidableEq τ] in
theorem forkPin_dated (stamps : radix.Stamps) (dated : Dated cache.tree) (parent : AgentBranch τ) :
    Dated (cache.forkPin radix parent).1 := by
  rw [forkPin]
  split
  next => exact stamps.inc_dated _ _ (stamps.match_dated _ _ dated)
  next =>
    cases parent.lockedNode with
    | none => exact dated
    | some node => exact stamps.inc_dated _ _ dated

/-- A cached parent hands on all its tokens. -/
theorem forkPin_tokens (laws : radix.Laws) {parent : AgentBranch τ}
    (cached : parent.tokenIds = [] ∨ cache.tree.Cached parent.ns parent.tokenIds) :
    (cache.forkPin radix parent).2.1 = parent.tokenIds := by
  rw [forkPin]
  split
  next =>
    have whole := match_whole laws ⟨parent.tokenIds, parent.ns⟩ cached
    simp only [whole, List.take_length]
  next => cases parent.lockedNode <;> rfl

theorem forkBranch_intact (laws : radix.Laws) (stamps : radix.Stamps) (intact : Intact cache) (parentId : String)
    (childId : Option String) : Intact (cache.forkBranch radix parentId childId).2 := by
  have balanced := forkBranch_balanced laws intact.balanced parentId childId
  refine ⟨balanced, ?_⟩
  cases found : cache.branches.get? parentId with
  | none =>
    simp only [forkBranch, found]
    exact intact.kept
  | some parent =>
    have synced := balanced.synced
    simp only [forkBranch, found] at synced ⊢
    split at synced
    next taken =>
      rw [if_pos taken]
      exact intact.kept
    next absent =>
      rw [if_neg absent]
      refine Kept.add intact.kept (Dict.get?_eq_none.2 absent) synced
        (forkPin_cached laws intact.kept.synced found) (forkPin_dated stamps intact.kept.dated parent) (.inr ?_)
      exact ⟨parentId, parent, found, rfl, (forkPin_tokens laws (intact.kept.cached parentId parent found)).symm⟩

omit [DecidableEq τ] in
theorem movePin_dated (stamps : radix.Stamps) {tree : Tree τ} (dated : Dated tree) (br : AgentBranch τ)
    (node : NodeRef) : Dated (movePin radix tree br node) := by
  rw [movePin]
  split
  next => exact stamps.dec_dated _ _ (stamps.inc_dated _ _ dated)
  next => exact stamps.inc_dated _ _ dated

omit [DecidableEq τ] in
/-- An insertion covers what it adds with the longer row of the branch. -/
theorem fills_covered {tree filled : Tree τ} {branches branches' : Dict String (AgentBranch τ)}
    (covered : Covered tree (rows branches)) (found : branches.get? branchId = some br) {moved : AgentBranch τ}
    (sameNs : moved.ns = br.ns) (longerTokens : br.tokenIds <+: moved.tokenIds)
    (stored : branches'.get? branchId = some moved)
    (elsewhere : ∀ other, other ≠ branchId → branches'.get? other = branches.get? other)
    (fills : Fills moved.ns moved.tokenIds tree filled) : Covered filled (rows branches') := by
  have longer : Covered tree (rows branches') := by
    refine covered.mono fun space tokens member => ?_
    obtain ⟨other, otherBr, isBranch, rowIs⟩ := mem_rows.1 member
    cases rowIs
    by_cases here : other = branchId
    · subst here
      rw [found] at isBranch
      cases isBranch
      exact ⟨moved.tokenIds, mem_rows.2 ⟨other, moved, stored, by rw [sameNs]⟩, longerTokens⟩
    · exact ⟨_, mem_rows.2 ⟨other, otherBr, (elsewhere other here).trans isBranch, rfl⟩, List.prefix_rfl⟩
  exact longer.edits (fun space path allowed => ⟨moved.tokenIds,
    mem_rows.2 ⟨branchId, moved, stored, by rw [allowed.1]⟩, allowed.2⟩) fills

theorem extendTree_intact (laws : radix.Laws) (stamps : radix.Stamps) (intact : Intact cache) (branchId : String)
    (tokenIds : List τ) : Intact (cache.extendTree radix branchId tokenIds).2 := by
  have balanced := extendTree_balanced laws intact.balanced branchId tokenIds
  refine ⟨balanced, ?_⟩
  cases found : cache.branches.get? branchId with
  | none =>
    simp only [extendTree, found]
    exact intact.kept
  | some br =>
    have synced := balanced.synced
    simp only [extendTree, found] at synced ⊢
    let key : RadixKey τ := ⟨br.tokenIds ++ tokenIds, br.ns⟩
    let matched : TreeRadixCache τ := { cache with tree := (radix.matchPrefix cache.tree key).1 }
    have matchedDated := stamps.match_dated cache.tree key intact.kept.dated
    split at synced
    next raised outcome =>
      exact intact.kept.still synced (fun _ _ => Reshapes.cached_iff (laws.match_reshapes cache.tree key)) matchedDated
        (fun other otherBr isBranch => .inr ⟨other, otherBr, isBranch, rfl, rfl⟩)
        fun other otherBr isBranch => ⟨other, otherBr, isBranch, rfl, rfl⟩
    next paid after outcome =>
      have isBranch : matched.branches.get? branchId = some br := found
      obtain ⟨⟨reserved, rfl⟩, sameTree, stored, elsewhere, -, -⟩ := payment_spec isBranch outcome
      let inserted := radix.insert after.tree key
      let result := radix.matchPrefix inserted key
      let moved : AgentBranch τ := { br with
        reservedTokens := reserved
        tokenIds := br.tokenIds ++ tokenIds
        lockedNode := some result.2.lastDeviceNode
        speculative := false }
      have storedMoved : (after.branches.insert branchId moved).get? branchId = some moved :=
        (Dict.get?_insert _ _ _ _).trans (if_pos rfl)
      have spared : ∀ other, other ≠ branchId →
          (after.branches.insert branchId moved).get? other = cache.branches.get? other := fun other differs =>
        ((Dict.get?_insert _ _ _ _).trans (if_neg differs)).trans (elsewhere other differs)
      have fills : Fills moved.ns moved.tokenIds (radix.matchPrefix cache.tree key).1 inserted := by
        have sameStart : after.tree = (radix.matchPrefix cache.tree key).1 := sameTree
        rw [← sameStart]
        exact laws.insert_fills after.tree key
      have edited : Synced 0 result.1 cache.branches :=
        ((intact.kept.synced.edits (laws.match_reshapes _ key)).edits fills).edits (laws.match_reshapes inserted key)
      -- moving the pin moves no node
      have spells : result.1.Spells result.2.lastDeviceNode moved.ns moved.tokenIds := match_inserted laws after.tree key
      have stays : ∀ id, (movePin radix result.1 { br with reservedTokens := reserved }
          result.2.lastDeviceNode).outline id = result.1.outline id :=
        movePin_outline laws spells (edited.anchored branchId br found)
      refine ⟨synced, ?_, fun other otherBr isBranch => ?_, ?_⟩
      · have matchedCovered := intact.kept.covered.reshapes (laws.match_reshapes cache.tree key)
        have sameNs : moved.ns = br.ns := rfl
        have longerTokens : br.tokenIds <+: moved.tokenIds := List.prefix_append _ _
        have filledCovered := fills_covered matchedCovered found sameNs longerTokens storedMoved spared fills
        have finalCovered := filledCovered.reshapes (laws.match_reshapes inserted key)
        intro id space path present
        exact finalCovered id space path ((stays id).symm.trans present)
      · change (after.branches.insert branchId moved).get? other = some otherBr at isBranch
        by_cases here : other = branchId
        · subst here
          rw [storedMoved] at isBranch
          cases isBranch
          exact anchored_cached (synced.anchored other moved storedMoved rfl)
        · rw [spared other here] at isBranch
          refine (intact.kept.cached other otherBr isBranch).imp_right fun cached => ?_
          have matchedCached := cached_of_edits (laws.match_reshapes cache.tree key) cached
          have finalCached := cached_of_edits (laws.match_reshapes inserted key) (cached_of_edits fills matchedCached)
          obtain ⟨id, path, present, isPrefix⟩ := finalCached
          exact ⟨id, path, (stays id).trans present, isPrefix⟩
      · have afterDated : Dated after.tree := by
          rw [sameTree]
          exact matchedDated
        exact movePin_dated stamps (stamps.match_dated _ _ (stamps.insert_dated _ _ afterDated)) _ _

/-! ## Kill and invalidate -/

/-- A cached branch gets its pin back with all its tokens. -/
theorem repin_intact (laws : radix.Laws) (stamps : radix.Stamps) (intact : Intact cache)
    (found : cache.branches.get? branchId = some br) :
    Intact (cache.repin radix branchId br) ∧ ∃ pinned : AgentBranch τ,
      (cache.repin radix branchId br).branches.get? branchId = some pinned ∧ pinned.speculative = false ∧
        pinned.ns = br.ns ∧ pinned.tokenIds = br.tokenIds ∧
        held ((cache.repin radix branchId br).branches.erase branchId) = held (cache.branches.erase branchId) := by
  rw [repin]
  split
  next demoted =>
    refine ⟨promoteBranch_intact laws stamps intact branchId, ?_⟩
    simp only [promoteBranch, found, demoted, if_true]
    refine ⟨_, (Dict.get?_insert _ _ _ _).trans (if_pos rfl), rfl, rfl, ?_, held_erase_insert _ _ _⟩
    have whole := match_whole laws ⟨br.tokenIds, br.ns⟩ (intact.kept.cached branchId br found)
    simp only [whole, List.take_length]
  next pinned => exact ⟨intact, br, found, by simpa using pinned, rfl, rfl, rfl⟩

/-- The condition, read off the cache with the branch pinned again. -/
theorem apart_of_repin {repinned : TreeRadixCache τ} {pinned : AgentBranch τ} (spared : ¬ Overlaps cache branchId)
    (found : cache.branches.get? branchId = some br) (sameNs : pinned.ns = br.ns)
    (sameTokens : pinned.tokenIds = br.tokenIds)
    (elsewhere : ∀ other, other ≠ branchId → repinned.branches.get? other = cache.branches.get? other)
    (sameHeld : held (repinned.branches.erase branchId) = held (cache.branches.erase branchId)) :
    Apart repinned.branches branchId pinned := by
  intro other otherBr shared differs isBranch sameSpace onBranch onOther
  rw [elsewhere other differs] at isBranch
  rw [sameNs] at sameSpace ⊢
  rw [sameTokens] at onBranch
  rw [sameHeld]
  by_contra notCarried
  exact spared ⟨br, other, otherBr, shared, found, differs, isBranch, sameSpace, onBranch, onOther, notCarried⟩

theorem killTree_intact (laws : radix.Laws) (inOrder : radix.EvictsInOrder) (stamps : radix.Stamps)
    (intact : Intact cache) (branchId : String) (spared : ¬ Overlaps cache branchId) :
    Intact (cache.killTree radix branchId).2 := by
  have balanced := killTree_balanced laws intact.balanced branchId
  refine ⟨balanced, ?_⟩
  cases found : cache.branches.get? branchId with
  | none =>
    simp only [killTree, found]
    exact intact.kept
  | some br =>
    obtain ⟨repinned, pinned, foundPinned, flag, sameNs, sameTokens, sameHeld⟩ :=
      repin_intact laws stamps intact found
    have apart := apart_of_repin spared found sameNs sameTokens
      (fun other differs => repin_elsewhere radix cache differs br) sameHeld
    obtain ⟨-, dated⟩ := dropped_outline laws inOrder stamps repinned.kept foundPinned flag apart
    obtain ⟨covered, cached⟩ := dropped_kept laws inOrder stamps repinned.kept foundPinned flag apart
    have synced := balanced.synced
    simp only [killTree, found, foundPinned] at synced ⊢
    refine ⟨synced, covered, fun other otherBr isBranch => ?_, dated⟩
    obtain ⟨differs, isBranch⟩ := erase_get? isBranch
    exact cached other otherBr differs isBranch

theorem invalidateTree_intact (laws : radix.Laws) (inOrder : radix.EvictsInOrder) (stamps : radix.Stamps)
    (intact : Intact cache) (branchId : String) (spared : ¬ Overlaps cache branchId) :
    Intact (cache.invalidateTree radix branchId).2 := by
  have balanced := invalidateTree_balanced laws intact.balanced branchId
  refine ⟨balanced, ?_⟩
  cases found : cache.branches.get? branchId with
  | none =>
    simp only [invalidateTree, found]
    exact intact.kept
  | some br =>
    obtain ⟨repinned, pinned, foundPinned, flag, sameNs, sameTokens, sameHeld⟩ :=
      repin_intact laws stamps intact found
    have apart := apart_of_repin spared found sameNs sameTokens
      (fun other differs => repin_elsewhere radix cache differs br) sameHeld
    obtain ⟨-, dated⟩ := dropped_outline laws inOrder stamps repinned.kept foundPinned flag apart
    obtain ⟨covered, cached⟩ := dropped_kept laws inOrder stamps repinned.kept foundPinned flag apart
    have synced := balanced.synced
    simp only [invalidateTree, found, foundPinned] at synced ⊢
    refine ⟨synced, covered.mono fun space tokens member => ?_, fun other otherBr isBranch => ?_, dated⟩
    · obtain ⟨other, otherBr, isBranch, rowIs⟩ := mem_rows.1 member
      obtain ⟨differs, isBranch⟩ := erase_get? isBranch
      exact ⟨tokens, mem_rows.2 ⟨other, otherBr,
        (Dict.get?_insert _ _ _ _).trans ((if_neg differs).trans isBranch), rowIs⟩, List.prefix_rfl⟩
    · have row := (Dict.get?_insert _ _ _ _).symm.trans isBranch
      split at row
      next =>
        cases row
        exact .inl rfl
      next differs => exact cached other otherBr differs row

/-! ## Runs -/

/-- No other branch loses a position of its tokens. -/
def SparesOthers (branchId : String) (before after : TreeRadixCache τ) : Prop :=
  ∀ other otherBr shared, other ≠ branchId → before.branches.get? other = some otherBr →
    shared ∈ prefixes otherBr.tokenIds → before.tree.Cached otherBr.ns shared → after.tree.Cached otherBr.ns shared

/-- Without memory pressure, and no kill or invalidate of a branch that overlaps. -/
def Undisturbed (cache : TreeRadixCache τ) : Op τ → Prop
  | .killTree branchId => ¬ Overlaps cache branchId
  | .invalidateTree branchId => ¬ Overlaps cache branchId
  | .evict _ => False
  | _ => True

instance (cache : TreeRadixCache τ) (branchId : String) : Decidable (Overlaps cache branchId) :=
  decidable_of_iff (∃ row ∈ cache.branches.entries, row.1 = branchId ∧ ∃ other ∈ cache.branches.entries,
    other.1 ≠ branchId ∧ other.2.ns = row.2.ns ∧ ∃ shared ∈ prefixes row.2.tokenIds,
      shared ∈ prefixes other.2.tokenIds ∧ shared ∉ carried (held (cache.branches.erase branchId)) row.2.ns) <| by
    constructor
    · rintro ⟨⟨_, br⟩, isRow, rfl, ⟨other, otherBr⟩, isOther, differs, sameNs, shared, onBranch, onOther, lost⟩
      exact ⟨br, other, otherBr, shared, Dict.mem_entries.1 isRow, differs, Dict.mem_entries.1 isOther, sameNs,
        onBranch, onOther, lost⟩
    · rintro ⟨br, other, otherBr, shared, found, differs, isBranch, sameNs, onBranch, onOther, lost⟩
      exact ⟨(branchId, br), Dict.mem_entries.2 found, rfl, (other, otherBr), Dict.mem_entries.2 isBranch, differs,
        sameNs, shared, onBranch, onOther, lost⟩

instance (cache : TreeRadixCache τ) : ∀ op : Op τ, Decidable (Undisturbed cache op)
  | .killTree branchId | .invalidateTree branchId => inferInstanceAs (Decidable (¬ Overlaps cache branchId))
  | .evict _ => inferInstanceAs (Decidable False)
  | .createAgentTree _ _ | .forkBranch _ _ | .extendTree _ _ | .reserve _ _ | .demoteBranch _ | .promoteBranch _
  | .matchTreePrefix _ _ => inferInstanceAs (Decidable True)

/-- A kill and an invalidate take the pages of their branch only, and a demoted
branch gets all its tokens back. -/
structure OwnPagesOnly (radix : RadixCache τ) (cache : TreeRadixCache τ) : Prop where
  kill : ∀ branchId, Undisturbed cache (.killTree branchId) →
    SparesOthers branchId cache (cache.killTree radix branchId).2
  invalidate : ∀ branchId, Undisturbed cache (.invalidateTree branchId) →
    SparesOthers branchId cache (cache.invalidateTree radix branchId).2
  promote : ∀ branchId br, cache.branches.get? branchId = some br →
    (cache.promoteBranch radix branchId).1 = .ok br.tokenIds.length

theorem perform_intact (laws : radix.Laws) (inOrder : radix.EvictsInOrder) (stamps : radix.Stamps)
    (intact : Intact cache) (op : Op τ) (undisturbed : Undisturbed cache op) : Intact (cache.perform radix op) := by
  cases op with
  | createAgentTree branchId ns => exact createAgentTree_intact intact branchId ns
  | forkBranch parentId childId => exact forkBranch_intact laws stamps intact parentId childId
  | extendTree branchId tokenIds => exact extendTree_intact laws stamps intact branchId tokenIds
  | reserve branchId numTokens => exact reserve_intact intact branchId numTokens
  | demoteBranch branchId => exact demoteBranch_intact laws stamps intact branchId
  | promoteBranch branchId => exact promoteBranch_intact laws stamps intact branchId
  | invalidateTree branchId => exact invalidateTree_intact laws inOrder stamps intact branchId undisturbed
  | killTree branchId => exact killTree_intact laws inOrder stamps intact branchId undisturbed
  | matchTreePrefix branchId tokenIds => exact matchTreePrefix_intact laws stamps intact branchId tokenIds
  | evict numTokens => exact undisturbed.elim

/-- A branch that stays with its tokens in a cache that keeps them has lost nothing. -/
theorem Intact.spares {after : TreeRadixCache τ} (intact : Intact after)
    (stays : ∀ other, other ≠ branchId → after.branches.get? other = cache.branches.get? other) :
    SparesOthers branchId cache after := by
  intro other otherBr shared differs isBranch onBranch _
  obtain ⟨nonempty, isPrefix⟩ := mem_prefixes.1 onBranch
  obtain empty | ⟨id, path, present, below⟩ :=
    intact.kept.cached other otherBr ((stays other differs).trans isBranch)
  · rw [empty] at isPrefix
    exact absurd (List.prefix_nil.1 isPrefix) nonempty
  · exact ⟨id, path, present, isPrefix.trans below⟩

theorem Intact.promotes (laws : radix.Laws) (intact : Intact cache) (found : cache.branches.get? branchId = some br) :
    (cache.promoteBranch radix branchId).1 = .ok br.tokenIds.length := by
  simp only [promoteBranch, found]
  split
  next =>
    have whole := match_whole laws ⟨br.tokenIds, br.ns⟩ (intact.kept.cached branchId br found)
    simp only [whole, List.take_length]
  next => rfl

theorem Intact.ownPagesOnly (laws : radix.Laws) (inOrder : radix.EvictsInOrder) (stamps : radix.Stamps)
    (intact : Intact cache) : OwnPagesOnly radix cache where
  kill branchId undisturbed :=
    (killTree_intact laws inOrder stamps intact branchId undisturbed).spares fun _ => killTree_elsewhere
  invalidate branchId undisturbed :=
    (invalidateTree_intact laws inOrder stamps intact branchId undisturbed).spares fun _ => invalidateTree_elsewhere
  promote _ _ found := intact.promotes laws found

theorem new_intact (treeQuotaTokens : Option Int) : Intact (new 1 treeQuotaTokens : TreeRadixCache τ) := by
  refine ⟨new_balanced 1 treeQuotaTokens, ⟨(new_balanced 1 treeQuotaTokens).synced, nofun, nofun, nofun⟩⟩

/-- In every run without memory pressure whose kills and invalidates find their
branches apart from the demoted ones, a kill and an invalidate take the pages of
their branch only. -/
theorem own_pages_only (laws : radix.Laws) (inOrder : radix.EvictsInOrder) (stamps : radix.Stamps)
    (treeQuotaTokens : Option Int)
    (reached : Reachable (Step radix) Undisturbed (new 1 treeQuotaTokens) cache) : OwnPagesOnly radix cache := by
  have intact : Intact cache := by
    refine reached.invariant (motive := Intact) (new_intact treeQuotaTokens) ?_
    intro before op after intact undisturbed taken
    subst taken
    exact perform_intact laws inOrder stamps intact op undisturbed
  exact intact.ownPagesOnly laws inOrder stamps

/-- A branch that was matched whole and is matched less has lost a position. -/
theorem not_spares_of_match (laws : radix.Laws) {after : TreeRadixCache τ} {other : String} (differs : other ≠ branchId)
    (isBranch : cache.branches.get? other = some br)
    (whole : (radix.matchPrefix cache.tree ⟨br.tokenIds, br.ns⟩).2.deviceIndices = br.tokenIds.length)
    (less : (radix.matchPrefix after.tree ⟨br.tokenIds, br.ns⟩).2.deviceIndices < br.tokenIds.length) :
    ¬ SparesOthers branchId cache after := by
  intro spares
  have positive : 0 < br.tokenIds.length := Nat.zero_lt_of_lt less
  have cached := (laws.match_longest cache.tree ⟨br.tokenIds, br.ns⟩ _ positive le_rfl).2 whole.ge
  have onBranch : br.tokenIds.take br.tokenIds.length ∈ prefixes br.tokenIds := by
    rw [List.take_length]
    exact mem_prefixes.2 ⟨List.ne_nil_of_length_pos positive, List.prefix_rfl⟩
  have still := spares other br _ differs isBranch onBranch cached
  exact absurd ((laws.match_longest after.tree ⟨br.tokenIds, br.ns⟩ _ positive le_rfl).1 still) (Nat.not_le.2 less)

/-- A demoted branch, and a sibling that is killed while the stem is pinned. -/
def siblingRun : List (Op Nat) :=
  [.createAgentTree "a" none, .extendTree "a" [1, 2, 3], .forkBranch "a" (some "b"), .extendTree "b" [4],
    .demoteBranch "b", .forkBranch "a" (some "c"), .extendTree "c" [5], .killTree "c", .invalidateTree "c"]

theorem siblingRun_own_pages_only :
    OwnPagesOnly referenceCache (siblingRun.foldl (perform referenceCache) (new 1 none)) :=
  own_pages_only referenceCache_laws referenceCache_evicts referenceCache_stamps none
    (reachable_foldl (by decide))

/-- A branch that is demoted below the only one that pins its stem. -/
def shadowed : TreeRadixCache Nat :=
  [.createAgentTree "a" none, .extendTree "a" [1, 2, 3], .forkBranch "a" (some "b"), .extendTree "b" [4, 5],
    .demoteBranch "b"].foldl (perform referenceCache) (new 1 none)

theorem kill_takes_pages_of_others :
    Reachable (Step referenceCache) Undisturbed (new 1 none) shadowed ∧
      (shadowed.branches.get? "b").map AgentBranch.tokenIds = some [1, 2, 3, 4, 5] ∧
      ¬ SparesOthers "a" shadowed (shadowed.killTree referenceCache "a").2 ∧
      ¬ SparesOthers "a" shadowed (shadowed.invalidateTree referenceCache "a").2 ∧
      ((shadowed.killTree referenceCache "a").2.promoteBranch referenceCache "b").1 = .ok 0 := by
  let br : AgentBranch Nat := ⟨"b", "a", some "a", 1, [1, 2, 3, 4, 5], some (.node 2), 0, true⟩
  have isBranch : shadowed.branches.get? "b" = some br := by decide
  have whole : (referenceCache.matchPrefix shadowed.tree ⟨br.tokenIds, br.ns⟩).2.deviceIndices = 5 := by decide
  refine ⟨reachable_foldl (by decide), by decide, ?_, ?_, by decide⟩
  · exact not_spares_of_match referenceCache_laws (by decide) isBranch whole (by decide)
  · exact not_spares_of_match referenceCache_laws (by decide) isBranch whole (by decide)

end Agentfork.Sglang.TreeRadixCache

import Agentfork.Sglang.PinRuns

/-! # Conservation of tokens

Without demotion, invalidation and memory pressure every node of the cache lies
on the way of a live branch. A charge then counts the prefixes a branch adds and
a kill gives back the prefixes that no other branch has, so charges less returns
are the distinct prefixes of the live branches. -/

namespace Agentfork.Sglang

open LockTree Transition TreeRadixCache

variable {τ : Type} [DecidableEq τ] {radix : RadixCache τ}

/-- A cache with the sum of what `kill_tree` has returned for each namespace. -/
structure Audit (τ : Type) where
  cache : TreeRadixCache τ
  released : String → Int

/-- No demotion, no invalidation, no memory pressure. -/
def Quiet (_ : Audit τ) : Op τ → Prop
  | .demoteBranch _ | .invalidateTree _ | .evict _ => False
  | _ => True

/-- What the call adds to the returns of a namespace. -/
def returned (radix : RadixCache τ) (cache : TreeRadixCache τ) (op : Op τ) (ns : String) : Int :=
  match op with
  | .killTree branchId =>
    if (cache.branches.get? branchId).any (·.ns = ns) then (cache.killTree radix branchId).1 else 0
  | _ => 0

def Audit.step (radix : RadixCache τ) (before : Audit τ) (op : Op τ) : Audit τ where
  cache := before.cache.perform radix op
  released := fun ns => before.released ns + returned radix before.cache op ns

/-- The nonempty prefixes of the live branches of a namespace. -/
def livePrefixes (cache : TreeRadixCache τ) (ns : String) : Finset (List τ) :=
  ((cache.branches.values.filter (·.ns = ns)).map AgentBranch.tokenIds).toFinset.biUnion prefixes

structure Conserved (audit : Audit τ) : Prop where
  balanced : Balanced 0 audit.cache
  steady : ∀ branchId br, audit.cache.branches.get? branchId = some br → br.speculative = false
  covered : Covered audit.cache.tree (held audit.cache.branches)
  books : ∀ ns, (audit.cache.treeTelemetry ns).chargedTokens - audit.released ns =
    (carried (held audit.cache.branches) ns).card

namespace Conserved

variable {audit : Audit τ} {branchId ns : String} {br : AgentBranch τ}

/-- The holders are all branches. -/
theorem carried_eq (conserved : Conserved audit) (ns : String) :
    carried (held audit.cache.branches) ns = livePrefixes audit.cache ns := by
  ext shared
  simp only [mem_carried, mem_held, livePrefixes, Finset.mem_biUnion, List.mem_toFinset, List.mem_map,
    List.mem_filter, Dict.mem_values, decide_eq_true_eq]
  constructor
  · rintro ⟨_, ⟨branchId, br, found, _, same⟩, belongs⟩
    cases same
    exact ⟨_, ⟨br, ⟨⟨branchId, found⟩, rfl⟩, rfl⟩, belongs⟩
  · rintro ⟨_, ⟨br, ⟨⟨branchId, found⟩, rfl⟩, rfl⟩, belongs⟩
    exact ⟨br.tokenIds, ⟨branchId, br, found, conserved.steady branchId br found, rfl⟩, belongs⟩

/-- Only the branch that is put in may be demoted. -/
theorem steady_insert (conserved : Conserved audit) (pinned : br.speculative = false) (other : String)
    (otherBr : AgentBranch τ) (found : (audit.cache.branches.insert branchId br).get? other = some otherBr) :
    otherBr.speculative = false := by
  rw [Dict.get?_insert] at found
  split at found
  next =>
    cases found
    exact pinned
  next => exact conserved.steady other otherBr found

/-- A call that charges nothing and adds no prefix. -/
theorem frame (conserved : Conserved audit) {after : Audit τ} (balanced : Balanced 0 after.cache)
    (steady : ∀ branchId br, after.cache.branches.get? branchId = some br → br.speculative = false)
    (covered : Covered after.cache.tree (held after.cache.branches))
    (charged : ∀ ns, after.cache.chargedTokens ns = audit.cache.chargedTokens ns)
    (released : ∀ ns, after.released ns = audit.released ns)
    (same : ∀ ns, carried (held after.cache.branches) ns = carried (held audit.cache.branches) ns) :
    Conserved after := by
  refine ⟨balanced, steady, covered, fun ns => ?_⟩
  rw [same, ← conserved.books, ← chargedTokens, ← chargedTokens, charged, released]

theorem create (conserved : Conserved audit) (branchId : String) (ns : Option String) :
    Conserved (audit.step radix (.createAgentTree branchId ns)) := by
  have balanced := createAgentTree_balanced conserved.balanced branchId ns
  by_cases present : branchId ∈ audit.cache.branches
  · simpa only [Audit.step, perform, createAgentTree, present, if_true, returned, add_zero] using conserved
  · have vacant := held_erase_of_absent (Dict.get?_eq_none.2 present)
    let br : AgentBranch τ := ⟨branchId, orElse ns branchId, none, 0, [], none, 0, false⟩
    have stakes : held (audit.cache.branches.insert branchId br) = (br.ns, []) ::ₘ held audit.cache.branches := by
      rw [held_insert, stake_of_pinned rfl, vacant, Multiset.singleton_add]
    have after : (audit.cache.createAgentTree branchId ns).2 = (audit.cache.setBranch branchId br).updateTelemetry
        br.ns fun tel => { tel with liveBranches := tel.liveBranches + 1 } := by
      rw [createAgentTree, if_neg present]
    rw [after] at balanced
    rw [Audit.step, perform, after]
    refine conserved.frame balanced (conserved.steady_insert rfl) ?_ ?_ (fun _ => add_zero _) fun other => ?_
    · refine conserved.covered.mono fun space tokens member => ⟨tokens, ?_, List.prefix_rfl⟩
      change _ ∈ held (audit.cache.branches.insert branchId br)
      rw [stakes]
      exact Multiset.mem_cons_of_mem member
    · intro other
      rw [chargedTokens_updateTelemetry]
      · rfl
      · exact fun _ => rfl
    · change carried (held (audit.cache.branches.insert branchId br)) other = _
      rw [stakes]
      by_cases same : br.ns = other
      · rw [← same, carried_cons, prefixes_nil, Finset.empty_union]
      · rw [carried_cons_of_ne same]

/-- A fork of a pinned parent locks its way once more and moves no node. -/
theorem forkPin_pinned (laws : radix.Laws) {cache : TreeRadixCache τ} (synced : Synced 0 cache.tree cache.branches)
    (found : cache.branches.get? branchId = some br) (pinned : br.speculative = false) :
    (cache.forkPin radix br).2.1 = br.tokenIds ∧
      ∃ change, Relocks cache.tree (cache.forkPin radix br).1 change := by
  have anchored := synced.anchored branchId br found pinned
  rw [Anchored] at anchored
  rw [forkPin, if_neg (by simp [pinned])]
  cases locked : br.lockedNode with
  | none => exact ⟨rfl, fun _ => 0, fun _ => rfl, fun _ => (add_zero _).symm⟩
  | some node =>
    rw [locked] at anchored
    exact ⟨rfl, _, laws.inc_relocks cache.tree node br.ns br.tokenIds anchored⟩

theorem fork (laws : radix.Laws) (conserved : Conserved audit) (parentId : String) (childId : Option String) :
    Conserved (audit.step radix (.forkBranch parentId childId)) := by
  have balanced := forkBranch_balanced laws conserved.balanced parentId childId
  rw [Audit.step, perform]
  cases found : audit.cache.branches.get? parentId with
  | none => simpa only [forkBranch, found, returned, add_zero] using conserved
  | some parent =>
    simp only [forkBranch, found] at balanced ⊢
    split at balanced
    next present =>
      rw [if_pos present]
      exact conserved.frame balanced conserved.steady conserved.covered (fun _ => rfl) (fun _ => add_zero _)
        fun _ => rfl
    next absent =>
      rw [if_neg absent]
      have vacant := held_erase_of_absent (Dict.get?_eq_none.2 absent)
      obtain ⟨sameTokens, change, relocks⟩ :=
        forkPin_pinned laws conserved.balanced.synced found (conserved.steady parentId parent found)
      let child := orElse childId s!"{parentId}/{audit.cache.forkSeq}"
      let br : AgentBranch τ := ⟨child, parent.ns, some parentId, audit.cache.forkSeq,
        (audit.cache.forkPin radix parent).2.1, (audit.cache.forkPin radix parent).2.2, 0, false⟩
      have stakes : held (audit.cache.branches.insert child br) =
          (parent.ns, parent.tokenIds) ::ₘ held audit.cache.branches := by
        rw [held_insert, stake_of_pinned rfl, vacant, Multiset.singleton_add]
        exact congrArg (fun tokens => (parent.ns, tokens) ::ₘ _) sameTokens
      refine conserved.frame balanced (conserved.steady_insert rfl) ?_ ?_ (fun _ => add_zero _) fun other => ?_
      · refine (conserved.covered.relocks relocks).mono fun space tokens member => ⟨tokens, ?_, List.prefix_rfl⟩
        change _ ∈ held (audit.cache.branches.insert child br)
        rw [stakes]
        exact Multiset.mem_cons_of_mem member
      · intro other
        rw [chargedTokens_updateTelemetry, chargedTokens_refreshPinnedTokens, chargedTokens_updateTelemetry]
        · rfl
        · exact fun _ => rfl
        · exact fun _ => rfl
      · change carried (held (audit.cache.branches.insert child br)) other = _
        rw [stakes]
        by_cases same : parent.ns = other
        · -- the child has the prefixes that its parent has already
          rw [← same, carried_cons, Finset.union_eq_right]
          intro shared belongs
          exact mem_carried.2 ⟨parent.tokenIds, mem_held.2 ⟨parentId, parent, found,
            conserved.steady parentId parent found, rfl⟩, belongs⟩
        · rw [carried_cons_of_ne same]

/-- What a kill unlocks is evicted, and nothing else is there to evict. -/
theorem covered_release (laws : radix.Laws) (inOrder : radix.EvictsInOrder) {tree : Tree τ}
    {rest : Multiset (String × List τ)} (anchored : Anchored tree br)
    (counts : tree.Counts ((br.ns, br.tokenIds) ::ₘ rest)) (covered : Covered tree ((br.ns, br.tokenIds) ::ₘ rest)) :
    Covered (release radix (unlock radix tree br.lockedNode).1 br.lockedNode
      (unlock radix tree br.lockedNode).2) rest := by
  obtain ⟨unlocks, delta⟩ := unlock_spec laws anchored
  have spells := anchored_spells anchored
  have remaining := counts.unlock spells unlocks
  have amount := counts.evictable_unlock covered spells unlocks
  rw [← delta] at amount
  rw [release]
  split
  next =>
    have touches : Relocks (unlock radix tree br.lockedNode).1
        (prioritizeUnpinnedPath (unlock radix tree br.lockedNode).1 br.lockedNode) fun _ => 0 := by
      cases br.lockedNode with
      | none => exact ⟨fun _ => rfl, fun _ => (add_zero _).symm⟩
      | some node => exact redate_touches _ _ ⊥
    have evicts := inOrder (prioritizeUnpinnedPath (unlock radix tree br.lockedNode).1 br.lockedNode)
      (unlock radix tree br.lockedNode).2
    have prioritized := remaining.edit (.touch touches : Edit (fun _ _ => False) _ _)
    have none := prioritized.evicts_all evicts (by rw [touches.evictable, amount])
    exact (prioritized.shrink evicts.shrinks).covered none
  next nothing =>
    have zero := Nat.eq_zero_of_not_pos nothing
    exact remaining.covered (remaining.evicts_all .enough (by rw [amount, zero]))

theorem kill (laws : radix.Laws) (inOrder : radix.EvictsInOrder) (conserved : Conserved audit) (branchId : String) :
    Conserved (audit.step radix (.killTree branchId)) := by
  have balanced := killTree_balanced laws conserved.balanced branchId
  rw [Audit.step, perform]
  cases found : audit.cache.branches.get? branchId with
  | none => simpa only [killTree, found, returned, Option.any_none, Bool.false_eq_true, if_false, add_zero] using conserved
  | some br =>
    have pinned := conserved.steady branchId br found
    have same : audit.cache.repin radix branchId br = audit.cache := by
      rw [repin, if_neg (by simp [pinned])]
    have anchored := conserved.balanced.synced.anchored branchId br found pinned
    have stakes := held_of_get? found
    rw [stake_of_pinned pinned, Multiset.singleton_add] at stakes
    have counts := conserved.balanced.synced.counts_alone
    have covered := conserved.covered
    rw [stakes] at counts covered
    have delta := (unlock_spec laws anchored).2
    rw [counts.sum_freed (anchored_spells anchored)] at delta
    simp only [killTree, found, same] at balanced
    simp only [killTree, found, same, returned, Option.any_some, decide_eq_true_eq]
    refine ⟨balanced, fun other otherBr isBranch => ?_, covered_release laws inOrder anchored counts covered,
      fun other => ?_⟩
    · change (audit.cache.branches.erase branchId).get? other = some otherBr at isBranch
      rw [Dict.get?_erase] at isBranch
      split at isBranch
      next => cases isBranch
      next => exact conserved.steady other otherBr isBranch
    · have books := conserved.books other
      rw [← chargedTokens] at books ⊢
      rw [chargedTokens_refreshPinnedTokens, chargedTokens_updateTelemetry]
      · change audit.cache.chargedTokens other - (audit.released other + if br.ns = other then
            ((unlock radix audit.cache.tree br.lockedNode).2 : Int) else 0) =
          ((carried (held (audit.cache.branches.erase branchId)) other).card : Nat)
        rw [delta]
        rw [stakes] at books
        by_cases here : br.ns = other
        · subst here
          rw [carried_cons] at books
          rw [if_pos rfl]
          have parts := Finset.card_sdiff_add_card (prefixes br.tokenIds)
            (carried (held (audit.cache.branches.erase branchId)) br.ns)
          omega
        · rw [carried_cons_of_ne here] at books
          rw [if_neg here, add_zero, books]
      · exact fun _ => rfl

/-- The charge is the number of prefixes that no live branch has. -/
theorem charge_eq (laws : radix.Laws) (conserved : Conserved audit)
    (found : audit.cache.branches.get? branchId = some br) (tokenIds : List τ) :
    max (((br.tokenIds ++ tokenIds).length : Int) -
        (max (radix.matchPrefix audit.cache.tree ⟨br.tokenIds ++ tokenIds, br.ns⟩).2.deviceIndices
          br.tokenIds.length : Nat)) 0 =
      (prefixes (br.tokenIds ++ tokenIds) \ carried (held audit.cache.branches) br.ns).card := by
  let key : RadixKey τ := ⟨br.tokenIds ++ tokenIds, br.ns⟩
  have pinned := conserved.steady branchId br found
  have bound := laws.match_bound audit.cache.tree key
  have separates : ∀ length, 0 < length → length ≤ key.tokenIds.length →
      (key.tokenIds.take length ∈ carried (held audit.cache.branches) br.ns ↔
        length ≤ (radix.matchPrefix audit.cache.tree key).2.deviceIndices) := by
    intro length positive inside
    have nonempty : key.tokenIds.take length ≠ [] := by
      intro empty
      have lengths := congrArg List.length empty
      rw [List.length_take, List.length_nil] at lengths
      omega
    rw [← conserved.covered.cached_iff conserved.balanced.synced.counts_alone nonempty]
    exact laws.match_longest audit.cache.tree key length positive inside
  -- the committed tokens are held, so the match covers them
  have committed : br.tokenIds.length ≤ (radix.matchPrefix audit.cache.tree key).2.deviceIndices := by
    by_cases empty : br.tokenIds = []
    · rw [empty]
      exact Nat.zero_le _
    · refine (separates _ (List.length_pos_of_ne_nil empty) ?_).1 ?_
      · simp [key]
      · rw [List.take_left]
        exact mem_carried.2 ⟨br.tokenIds, mem_held.2 ⟨branchId, br, found, pinned, rfl⟩,
          mem_prefixes.2 ⟨empty, List.prefix_rfl⟩⟩
  rw [card_uncached bound separates]
  change (radix.matchPrefix audit.cache.tree key).2.deviceIndices ≤ (br.tokenIds ++ tokenIds).length at bound
  change max (((br.tokenIds ++ tokenIds).length : Int) -
    (max (radix.matchPrefix audit.cache.tree key).2.deviceIndices br.tokenIds.length : Nat)) 0 =
      (((br.tokenIds ++ tokenIds).length - (radix.matchPrefix audit.cache.tree key).2.deviceIndices : Nat) : Int)
  omega

theorem extend (laws : radix.Laws) (conserved : Conserved audit) (branchId : String) (tokenIds : List τ) :
    Conserved (audit.step radix (.extendTree branchId tokenIds)) := by
  have balanced := extendTree_balanced laws conserved.balanced branchId tokenIds
  rw [Audit.step, perform]
  cases found : audit.cache.branches.get? branchId with
  | none => simpa only [extendTree, found, returned, add_zero] using conserved
  | some br =>
    have amount := charge_eq laws conserved found tokenIds
    have pinned := conserved.steady branchId br found
    let key : RadixKey τ := ⟨br.tokenIds ++ tokenIds, br.ns⟩
    have stakes := held_of_get? found
    rw [stake_of_pinned pinned, Multiset.singleton_add] at stakes
    have matched : Covered (radix.matchPrefix audit.cache.tree key).1 (held audit.cache.branches) :=
      conserved.covered.reshapes (laws.match_reshapes audit.cache.tree key)
    simp only [extendTree, found] at balanced ⊢
    split at balanced
    next raised outcome =>
      exact conserved.frame balanced conserved.steady matched (fun _ => rfl) (fun _ => add_zero _) fun _ => rfl
    next paid after outcome =>
      let matchedCache : TreeRadixCache τ :=
        { audit.cache with tree := (radix.matchPrefix audit.cache.tree key).1 }
      have alsoFound : matchedCache.branches.get? branchId = some br := found
      obtain ⟨⟨reserved, rfl⟩, sameTree, stored, elsewhere, sameRest, charged⟩ :=
        payment_spec alsoFound outcome
      let inserted := radix.matchPrefix (radix.insert after.tree key) key
      let moved : AgentBranch τ := { br with
        reservedTokens := reserved
        tokenIds := br.tokenIds ++ tokenIds
        lockedNode := some inserted.2.lastDeviceNode
        speculative := false }
      have newStakes : held (after.branches.insert branchId moved) =
          (br.ns, br.tokenIds ++ tokenIds) ::ₘ held (audit.cache.branches.erase branchId) := by
        rw [held_insert, stake_of_pinned rfl, sameRest, Multiset.singleton_add]
      have covered : Covered (movePin radix inserted.1 { br with reservedTokens := reserved }
          inserted.2.lastDeviceNode) (held (after.branches.insert branchId moved)) := by
        have synced : Synced 0 after.tree audit.cache.branches :=
          sameTree ▸ conserved.balanced.synced.edits (laws.match_reshapes audit.cache.tree key)
        have before : Covered after.tree (held (after.branches.insert branchId moved)) := by
          rw [newStakes]
          have matched : Covered after.tree (held audit.cache.branches) := by
            rw [sameTree]
            exact matched
          refine matched.mono fun space tokens member => ?_
          rw [stakes] at member
          obtain isOld | member := Multiset.mem_cons.1 member
          · cases isOld
            exact ⟨_, Multiset.mem_cons_self _ _, List.prefix_append _ _⟩
          · exact ⟨tokens, Multiset.mem_cons_of_mem member, List.prefix_rfl⟩
        have filled := before.edits (fun space path allowed => ⟨br.tokenIds ++ tokenIds, by
          rw [newStakes, allowed.1]
          exact Multiset.mem_cons_self _ _, allowed.2⟩) (laws.insert_fills after.tree key)
        have matched := filled.reshapes (laws.match_reshapes (radix.insert after.tree key) key)
        have anchored := ((synced.edits (laws.insert_fills _ key)).edits (laws.match_reshapes _ key)).anchored
          branchId br found
        have spells : inserted.1.Spells inserted.2.lastDeviceNode moved.ns moved.tokenIds :=
          match_inserted laws after.tree key
        have still : ∀ id, (movePin radix inserted.1 { br with reservedTokens := reserved }
            inserted.2.lastDeviceNode).outline id = inserted.1.outline id :=
          movePin_outline laws spells anchored
        intro id space path present
        rw [still] at present
        exact matched id space path present
      refine ⟨balanced, fun other otherBr isBranch => ?_, covered, fun other => ?_⟩
      · change (after.branches.insert branchId moved).get? other = some otherBr at isBranch
        rw [Dict.get?_insert] at isBranch
        split at isBranch
        next =>
          cases isBranch
          rfl
        next differs =>
          rw [elsewhere other differs] at isBranch
          exact conserved.steady other otherBr isBranch
      · have books := conserved.books other
        rw [← chargedTokens] at books ⊢
        rw [chargedTokens_refreshPinnedTokens]
        let hit := (radix.matchPrefix audit.cache.tree key).2.deviceIndices
        change (after.updateTelemetry br.ns fun tel => { tel with
            savedTokens := tel.savedTokens + max ((hit : Int) - br.tokenIds.length) 0 }).chargedTokens other -
          (audit.released other + 0) = ((carried (held (after.branches.insert branchId moved)) other).card : Nat)
        rw [chargedTokens_updateTelemetry, charged, amount, newStakes, add_zero]
        · change audit.cache.chargedTokens other + _ - _ = _
          by_cases here : other = br.ns
          · subst here
            have grown : prefixes (br.tokenIds ++ tokenIds) ∪ carried (held audit.cache.branches) br.ns =
                prefixes (br.tokenIds ++ tokenIds) ∪ carried (held (audit.cache.branches.erase branchId)) br.ns := by
              rw [stakes, carried_cons, ← Finset.union_assoc,
                Finset.union_eq_left.2 (prefixes_subset (List.prefix_append br.tokenIds tokenIds))]
            have parts := Finset.card_sdiff_add_card (prefixes (br.tokenIds ++ tokenIds))
              (carried (held audit.cache.branches) br.ns)
            rw [if_pos rfl, carried_cons, ← grown]
            omega
          · rw [if_neg here, add_zero, carried_cons_of_ne (Ne.symm here), books, stakes,
              carried_cons_of_ne (Ne.symm here)]
        · exact fun _ => rfl

theorem reserve (conserved : Conserved audit) (branchId : String) (numTokens : Int) :
    Conserved (audit.step radix (.reserve branchId numTokens)) := by
  have balanced := reserve_balanced conserved.balanced branchId numTokens
  rw [Audit.step, perform]
  by_cases negative : numTokens < 0
  · simpa only [TreeRadixCache.reserve, negative, if_true, returned, add_zero] using conserved
  cases found : audit.cache.branches.get? branchId with
  | none => simpa only [TreeRadixCache.reserve, negative, if_false, found, returned, add_zero] using conserved
  | some br =>
    simp only [TreeRadixCache.reserve, negative, if_false, found] at balanced ⊢
    split at balanced
    next refused =>
      rw [if_pos refused]
      exact conserved.frame balanced conserved.steady conserved.covered (fun _ => rfl) (fun _ => add_zero _)
        fun _ => rfl
    next granted =>
      rw [if_neg granted]
      have unchanged := held_setReserved found (br.reservedTokens + numTokens)
      refine conserved.frame balanced (conserved.steady_insert (conserved.steady branchId br found)) ?_ ?_
        (fun _ => add_zero _) fun other => congrArg (carried · other) unchanged
      · exact unchanged.symm ▸ conserved.covered
      · intro other
        rw [chargedTokens_updateTelemetry]
        · rfl
        · exact fun _ => rfl

/-- A branch that is pinned already is left as it is. -/
theorem promote (conserved : Conserved audit) (branchId : String) :
    Conserved (audit.step radix (.promoteBranch branchId)) := by
  rw [Audit.step, perform]
  cases found : audit.cache.branches.get? branchId with
  | none => simpa only [promoteBranch, found, returned, add_zero] using conserved
  | some br =>
    have pinned := conserved.steady branchId br found
    simpa only [promoteBranch, found, pinned, Bool.false_eq_true, if_false, returned, add_zero] using conserved

theorem matchPrefix (laws : radix.Laws) (conserved : Conserved audit) (branchId : String) (tokenIds : List τ) :
    Conserved (audit.step radix (.matchTreePrefix branchId tokenIds)) := by
  have balanced := matchTreePrefix_balanced laws conserved.balanced branchId tokenIds
  rw [Audit.step, perform]
  cases found : audit.cache.branches.get? branchId with
  | none => simpa only [matchTreePrefix, found, returned, add_zero] using conserved
  | some br =>
    simp only [matchTreePrefix, found] at balanced ⊢
    exact conserved.frame balanced conserved.steady (conserved.covered.reshapes (laws.match_reshapes _ _))
      (fun _ => rfl) (fun _ => add_zero _) fun _ => rfl

theorem step (laws : radix.Laws) (inOrder : radix.EvictsInOrder) (conserved : Conserved audit) {op : Op τ}
    (quiet : Quiet audit op) : Conserved (audit.step radix op) := by
  cases op with
  | createAgentTree branchId ns => exact conserved.create branchId ns
  | forkBranch parentId childId => exact conserved.fork laws parentId childId
  | extendTree branchId tokenIds => exact conserved.extend laws branchId tokenIds
  | reserve branchId numTokens => exact conserved.reserve branchId numTokens
  | promoteBranch branchId => exact conserved.promote branchId
  | killTree branchId => exact conserved.kill laws inOrder branchId
  | matchTreePrefix branchId tokenIds => exact conserved.matchPrefix laws branchId tokenIds
  | demoteBranch branchId | invalidateTree branchId | evict numTokens => exact quiet.elim

end Conserved

/-- A fresh cache of which nothing has been returned. -/
def Audit.new (treeQuotaTokens : Option Int) : Audit τ := ⟨.new 1 treeQuotaTokens, fun _ => 0⟩

theorem conserved_new (treeQuotaTokens : Option Int) : Conserved (Audit.new treeQuotaTokens : Audit τ) :=
  ⟨new_balanced 1 treeQuotaTokens, nofun, nofun, fun _ => rfl⟩

/-- Charges less returns are the pinned tokens, and both are the distinct
nonempty prefixes of the live branches. -/
theorem tokens_conserved (laws : radix.Laws) (inOrder : radix.EvictsInOrder) (treeQuotaTokens : Option Int)
    {audit : Audit τ} (reached : Reachable (fun before op after => before.step radix op = after) Quiet
      (.new treeQuotaTokens) audit) (ns : String) :
    (audit.cache.treeTelemetry ns).chargedTokens - audit.released ns =
        (audit.cache.treeTelemetry ns).pinnedTokens ∧
      (audit.cache.treeTelemetry ns).pinnedTokens = (livePrefixes audit.cache ns).card := by
  have conserved : Conserved audit := by
    refine reached.invariant (motive := Conserved) (conserved_new treeQuotaTokens) ?_
    intro before op after conserved quiet taken
    subst taken
    exact conserved.step laws inOrder quiet
  have pinned := conserved.balanced.pinned ns
  rw [pinnedTokens] at pinned
  rw [conserved.books, pinned, conserved.carried_eq]
  exact ⟨rfl, rfl⟩

/-- Two forks that diverge below a shared prefix, and the root killed first. -/
def forkRun : List (Op Nat) :=
  [.createAgentTree "a" none, .extendTree "a" [1, 2, 3], .forkBranch "a" (some "b"), .forkBranch "a" (some "c"),
    .extendTree "b" [4, 5], .extendTree "c" [4, 6], .killTree "a", .killTree "b"]

instance : ∀ (audit : Audit Nat) (op : Op Nat), Decidable (Quiet audit op)
  | _, .demoteBranch _ | _, .invalidateTree _ | _, .evict _ => inferInstanceAs (Decidable False)
  | _, .createAgentTree _ _ | _, .forkBranch _ _ | _, .extendTree _ _ | _, .reserve _ _ | _, .promoteBranch _
  | _, .killTree _ | _, .matchTreePrefix _ _ => inferInstanceAs (Decidable True)

/-- The state after the run. -/
def forked : Audit Nat := forkRun.foldl (Audit.step referenceCache) (.new none)

theorem forked_tokens_conserved :
    (forked.cache.treeTelemetry "a").chargedTokens - forked.released "a" =
        (forked.cache.treeTelemetry "a").pinnedTokens ∧
      (forked.cache.treeTelemetry "a").pinnedTokens = (livePrefixes forked.cache "a").card :=
  tokens_conserved referenceCache_laws referenceCache_evicts none (reachable_foldl (by decide)) "a"

end Agentfork.Sglang

import Agentfork.Sglang.PinBalance

/-! # Every method keeps the balance of pins

One theorem for each method of the cache. The parts that several methods share
come first: locking what a match has found, promoting before a pin is dropped,
and moving a pin. -/

namespace Agentfork.Sglang.TreeRadixCache

open LockTree

variable {τ : Type} [DecidableEq τ] {radix : RadixCache τ} {cache : TreeRadixCache τ} {tree : Tree τ}
  {branches : Dict String (AgentBranch τ)} {branchId : String} {br : AgentBranch τ}
  {others : Multiset (String × List τ)}

omit [DecidableEq τ] in
/-- The branch that is replaced keeps its namespace. -/
theorem sameNs_of_found {old new : AgentBranch τ} (found : branches.get? branchId = some old)
    (same : old.ns = new.ns) (other : AgentBranch τ) (alsoFound : branches.get? branchId = some other) :
    other.ns = new.ns := by
  rw [found] at alsoFound
  cases alsoFound
  exact same

/-! ## Demotion and promotion -/

theorem demoteBranch_balanced (laws : radix.Laws) (balanced : Balanced others cache) (branchId : String) :
    Balanced others (cache.demoteBranch radix branchId).2 := by
  cases found : cache.branches.get? branchId with
  | none => simpa only [demoteBranch, found] using balanced
  | some br =>
    simp only [demoteBranch, found]
    split
    next node flag locked =>
      have counts := balanced.synced.counts
      rw [held_of_get? found, stake_of_pinned flag, Multiset.singleton_add, Multiset.cons_add] at counts
      have anchored := balanced.synced.anchored branchId br found flag
      have unlocked := counts_unlock laws anchored counts
      rw [locked] at unlocked
      obtain ⟨counts, change, relocks⟩ := unlocked
      have synced : Synced others (radix.decLockRef cache.tree node).1
          (cache.branches.insert branchId { br with speculative := true }) := by
        refine balanced.synced.insert (fun _ anchored => Synced.anchored_relocks anchored relocks) nofun ?_
        rw [stake_of_demoted rfl, zero_add]
        exact counts
      have refreshed := balanced.refresh synced fun other differs =>
        carried_insert_of_ne differs (sameNs_of_found found rfl)
      exact refreshed.updateTelemetry br.ns (fun tel => { tel with demotions := tel.demotions + 1 }) fun _ => rfl
    next => exact balanced

/-- Lock a node for a branch that held nothing before. -/
theorem synced_lock (laws : radix.Laws) (synced : Synced others tree branches)
    (vacant : held (branches.erase branchId) = held branches) {node : NodeRef}
    (spells : tree.Spells node br.ns br.tokenIds) (locked : br.lockedNode = some node)
    (pinned : br.speculative = false) :
    Synced others (radix.incLockRef tree node) (branches.insert branchId br) := by
  have locks := laws.inc_relocks tree node br.ns br.tokenIds spells
  refine synced.insert (fun _ anchored => Synced.anchored_relocks anchored locks) (fun _ => ?_) ?_
  · rw [Anchored, locked]
    exact locks.spells spells
  · rw [stake_of_pinned pinned, Multiset.singleton_add, Multiset.cons_add, vacant]
    exact synced.counts.lock spells locks

/-- Match tokens and lock the node that spells what is cached of them. -/
theorem synced_match (laws : radix.Laws) (synced : Synced others tree branches)
    (vacant : held (branches.erase branchId) = held branches) {tokenIds : List τ}
    (tokens : br.tokenIds = tokenIds.take (radix.matchPrefix tree ⟨tokenIds, br.ns⟩).2.deviceIndices)
    (locked : br.lockedNode = some (radix.matchPrefix tree ⟨tokenIds, br.ns⟩).2.lastDeviceNode)
    (pinned : br.speculative = false) :
    Synced others (radix.incLockRef (radix.matchPrefix tree ⟨tokenIds, br.ns⟩).1
      (radix.matchPrefix tree ⟨tokenIds, br.ns⟩).2.lastDeviceNode) (branches.insert branchId br) := by
  have matched := synced.edits (laws.match_reshapes tree ⟨tokenIds, br.ns⟩)
  have spells := laws.match_node tree ⟨tokenIds, br.ns⟩
  rw [← tokens] at spells
  exact synced_lock laws matched vacant spells locked pinned

omit [DecidableEq τ] in
theorem vacant_of_demoted (found : branches.get? branchId = some br) (demoted : br.speculative = true) :
    held (branches.erase branchId) = held branches := by
  rw [held_of_get? found, stake_of_demoted demoted, zero_add]

theorem promoteBranch_balanced (laws : radix.Laws) (balanced : Balanced others cache) (branchId : String) :
    Balanced others (cache.promoteBranch radix branchId).2 := by
  cases found : cache.branches.get? branchId with
  | none => simpa only [promoteBranch, found] using balanced
  | some br =>
    simp only [promoteBranch, found]
    split
    next demoted =>
      let promoted : AgentBranch τ := { br with
        lockedNode := some (radix.matchPrefix cache.tree ⟨br.tokenIds, br.ns⟩).2.lastDeviceNode
        tokenIds := br.tokenIds.take (radix.matchPrefix cache.tree ⟨br.tokenIds, br.ns⟩).2.deviceIndices
        speculative := false }
      have synced : Synced others _ (cache.branches.insert branchId promoted) :=
        synced_match laws balanced.synced (vacant_of_demoted found demoted) rfl rfl rfl
      exact balanced.refresh synced fun other differs =>
        carried_insert_of_ne differs (sameNs_of_found found rfl)
    next => exact balanced

/-- Before a pin is dropped the branch is promoted, so it has one. -/
theorem repin_spec (laws : radix.Laws) (balanced : Balanced others cache)
    (found : cache.branches.get? branchId = some br) :
    Balanced others (cache.repin radix branchId br) ∧ ∃ pinned : AgentBranch τ,
      (cache.repin radix branchId br).branches.get? branchId = some pinned ∧ pinned.speculative = false ∧
        pinned.ns = br.ns ∧ pinned.reservedTokens = br.reservedTokens := by
  rw [repin]
  split
  next demoted =>
    refine ⟨promoteBranch_balanced laws balanced branchId, ?_⟩
    simp only [promoteBranch, found, demoted, if_true]
    exact ⟨_, (Dict.get?_insert _ _ _ _).trans (if_pos rfl), rfl, rfl, rfl⟩
  next pinned => exact ⟨balanced, br, found, by simpa using pinned, rfl, rfl⟩

theorem invalidateTree_balanced (laws : radix.Laws) (balanced : Balanced others cache) (branchId : String) :
    Balanced others (cache.invalidateTree radix branchId).2 := by
  cases found : cache.branches.get? branchId with
  | none => simpa only [invalidateTree, found] using balanced
  | some br =>
    obtain ⟨repinned, pinned, foundPinned, flag, -, -⟩ := repin_spec laws balanced found
    simp only [invalidateTree, found, foundPinned]
    have counts := repinned.synced.counts
    rw [held_of_get? foundPinned, stake_of_pinned flag, Multiset.singleton_add, Multiset.cons_add] at counts
    obtain ⟨counts, change, relocks⟩ :=
      counts_unlock laws (repinned.synced.anchored branchId pinned foundPinned flag) counts
    -- the branch goes on with no tokens and no node
    have synced : Synced others (unlock radix (cache.repin radix branchId br).tree pinned.lockedNode).1
        ((cache.repin radix branchId br).branches.insert branchId
          { pinned with lockedNode := none, speculative := false, tokenIds := [] }) := by
      refine repinned.synced.insert (fun _ anchored => Synced.anchored_relocks anchored relocks)
        (fun _ => rfl) ?_
      rw [stake_of_pinned rfl, Multiset.singleton_add, Multiset.cons_add]
      exact Counts.cons_nil.2 counts
    have counted := repinned.updateTelemetry pinned.ns
      (fun tel => { tel with invalidations := tel.invalidations + 1 }) fun _ => rfl
    have refreshed := counted.refresh synced fun other differs =>
      carried_insert_of_ne differs (sameNs_of_found foundPinned rfl)
    exact refreshed.setTree (refreshed.synced.release laws _ _)

/-- Cached tokens are matched whole. -/
theorem match_whole (laws : radix.Laws) {tree : Tree τ} (key : RadixKey τ)
    (cached : key.tokenIds = [] ∨ tree.Cached key.extraKey key.tokenIds) :
    (radix.matchPrefix tree key).2.deviceIndices = key.tokenIds.length := by
  refine le_antisymm (laws.match_bound _ _) ?_
  obtain empty | cached := cached
  · rw [empty]
    exact Nat.zero_le _
  · by_cases empty : key.tokenIds = []
    · rw [empty]
      exact Nat.zero_le _
    · rw [← List.take_length (l := key.tokenIds)] at cached
      exact (laws.match_longest tree key _ (List.length_pos_of_ne_nil empty) le_rfl).1 cached

omit [DecidableEq τ] in
theorem anchored_cached {tree : Tree τ} (anchored : Anchored tree br) :
    br.tokenIds = [] ∨ tree.Cached br.ns br.tokenIds := by
  rw [Anchored] at anchored
  cases locked : br.lockedNode with
  | none =>
    rw [locked] at anchored
    exact .inl anchored
  | some node =>
    rw [locked] at anchored
    cases node with
    | root => exact .inl anchored
    | node id => exact .inr ⟨id, br.tokenIds, anchored, List.prefix_rfl⟩

/-! ## Lifecycle -/

theorem createAgentTree_balanced (balanced : Balanced others cache) (branchId : String) (ns : Option String) :
    Balanced others (cache.createAgentTree branchId ns).2 := by
  rw [createAgentTree]
  split
  next => exact balanced
  next absent =>
    have vacant := held_erase_of_absent (Dict.get?_eq_none.2 absent)
    let br : AgentBranch τ := ⟨branchId, orElse ns branchId, none, 0, [], none, 0, false⟩
    have stakes : held (cache.branches.insert branchId br) = (br.ns, []) ::ₘ held cache.branches := by
      rw [held_insert, stake_of_pinned rfl, vacant, Multiset.singleton_add]
    have synced : Synced others cache.tree (cache.branches.insert branchId br) := by
      refine balanced.synced.insert (fun _ anchored => anchored) (fun _ => rfl) ?_
      rw [stake_of_pinned rfl, vacant, Multiset.singleton_add, Multiset.cons_add]
      exact Counts.cons_nil.2 balanced.synced.counts
    -- a new branch carries no tokens, so nothing has to be refreshed
    have created : Balanced others (cache.setBranch branchId br) := by
      refine ⟨synced, fun other => (balanced.pinned other).trans ?_⟩
      change _ = (((carried (held (cache.branches.insert branchId br)) other).card : Nat) : Int)
      rw [stakes]
      by_cases same : br.ns = other
      · rw [← same, carried_cons, prefixes_nil, Finset.empty_union]
      · rw [carried_cons_of_ne same]
    exact created.updateTelemetry br.ns (fun tel => { tel with liveBranches := tel.liveBranches + 1 }) fun _ => rfl

/-- A fork pins what its parent pins, or what is left of a demoted parent. -/
theorem forkPin_synced (laws : radix.Laws) (synced : Synced others cache.tree cache.branches) {parentId child : String}
    {parent : AgentBranch τ} (found : cache.branches.get? parentId = some parent)
    (absent : cache.branches.get? child = none) (seq : Nat) :
    Synced others (cache.forkPin radix parent).1 (cache.branches.insert child
      ⟨child, parent.ns, some parentId, seq, (cache.forkPin radix parent).2.1,
        (cache.forkPin radix parent).2.2, 0, false⟩) := by
  have vacant := held_erase_of_absent absent
  rw [forkPin]
  split
  next =>
    let forked : AgentBranch τ := ⟨child, parent.ns, some parentId, seq,
      parent.tokenIds.take (radix.matchPrefix cache.tree ⟨parent.tokenIds, parent.ns⟩).2.deviceIndices,
      some (radix.matchPrefix cache.tree ⟨parent.tokenIds, parent.ns⟩).2.lastDeviceNode, 0, false⟩
    have matched : Synced others _ (cache.branches.insert child forked) :=
      synced_match laws synced vacant rfl rfl rfl
    exact matched
  next pinned =>
    have anchored := synced.anchored parentId parent found (by simpa using pinned)
    rw [Anchored] at anchored
    cases locked : parent.lockedNode with
    | some node =>
      rw [locked] at anchored
      exact synced_lock laws synced vacant anchored rfl rfl
    | none =>
      rw [locked] at anchored
      simp only at anchored
      refine synced.insert (fun _ anchored => anchored) (fun _ => anchored) ?_
      rw [stake_of_pinned rfl, vacant, Multiset.singleton_add, Multiset.cons_add, anchored]
      exact Counts.cons_nil.2 synced.counts

/-- A fork locks a way that is there already. -/
theorem forkPin_cached (laws : radix.Laws) (synced : Synced others cache.tree cache.branches) {parentId : String}
    {parent : AgentBranch τ} (found : cache.branches.get? parentId = some parent) (ns : String) (tokens : List τ) :
    (cache.forkPin radix parent).1.Cached ns tokens ↔ cache.tree.Cached ns tokens := by
  rw [forkPin]
  split
  next =>
    have reshapes := laws.match_reshapes cache.tree ⟨parent.tokenIds, parent.ns⟩
    have spells := laws.match_node cache.tree ⟨parent.tokenIds, parent.ns⟩
    exact (laws.inc_relocks _ _ _ _ spells).cached_iff.trans reshapes.cached_iff
  next live =>
    have anchored := synced.anchored parentId parent found (by simpa using live)
    rw [Anchored] at anchored
    cases locked : parent.lockedNode with
    | none => exact Iff.rfl
    | some node =>
      rw [locked] at anchored
      exact (laws.inc_relocks _ _ _ _ anchored).cached_iff

theorem forkBranch_balanced (laws : radix.Laws) (balanced : Balanced others cache) (parentId : String)
    (childId : Option String) : Balanced others (cache.forkBranch radix parentId childId).2 := by
  cases found : cache.branches.get? parentId with
  | none => simpa only [forkBranch, found] using balanced
  | some parent =>
    simp only [forkBranch, found]
    split
    next => exact ⟨balanced.synced, balanced.pinned⟩
    next absent =>
      have absent := Dict.get?_eq_none.2 absent
      have forked := forkPin_synced laws balanced.synced found absent cache.forkSeq
      have counted := balanced.updateTelemetry parent.ns
        (fun tel => { tel with liveBranches := tel.liveBranches + 1 }) fun _ => rfl
      have refreshed := counted.refresh forked fun other differs =>
        carried_insert_of_ne differs fun old isOld => by
          have impossible := isOld.symm.trans absent
          cases impossible
      have saved := refreshed.updateTelemetry parent.ns (fun tel => { tel with
        savedTokens := tel.savedTokens + (cache.forkPin radix parent).2.1.length }) fun _ => rfl
      exact ⟨saved.synced, saved.pinned⟩

theorem killTree_balanced (laws : radix.Laws) (balanced : Balanced others cache) (branchId : String) :
    Balanced others (cache.killTree radix branchId).2 := by
  cases found : cache.branches.get? branchId with
  | none => simpa only [killTree, found] using balanced
  | some br =>
    obtain ⟨repinned, pinned, foundPinned, flag, -, -⟩ := repin_spec laws balanced found
    simp only [killTree, found, foundPinned]
    have counts := repinned.synced.counts
    rw [held_of_get? foundPinned, stake_of_pinned flag, Multiset.singleton_add, Multiset.cons_add] at counts
    obtain ⟨counts, change, relocks⟩ :=
      counts_unlock laws (repinned.synced.anchored branchId pinned foundPinned flag) counts
    have synced : Synced others (unlock radix (cache.repin radix branchId br).tree pinned.lockedNode).1
        ((cache.repin radix branchId br).branches.erase branchId) :=
      repinned.synced.erase (fun _ anchored => Synced.anchored_relocks anchored relocks) counts
    have counted := repinned.updateTelemetry pinned.ns (fun tel => { tel with
      liveBranches := tel.liveBranches - 1
      reservedTokens := tel.reservedTokens - pinned.reservedTokens }) fun _ => rfl
    exact counted.refresh (synced.release laws _ _) fun other differs =>
      carried_erase_of_ne foundPinned differs

/-! ## What goes on beside the branch -/

theorem repin_elsewhere (radix : RadixCache τ) (cache : TreeRadixCache τ) {other : String}
    (differs : other ≠ branchId) (br : AgentBranch τ) :
    (cache.repin radix branchId br).branches.get? other = cache.branches.get? other := by
  rw [repin]
  split
  next =>
    cases found : cache.branches.get? branchId with
    | none => simp only [promoteBranch, found]
    | some br =>
      simp only [promoteBranch, found]
      split
      next => exact (Dict.get?_insert _ _ _ _).trans (if_neg differs)
      next => rfl
  next => rfl

theorem killTree_elsewhere {other : String} (differs : other ≠ branchId) :
    (cache.killTree radix branchId).2.branches.get? other = cache.branches.get? other := by
  cases found : cache.branches.get? branchId with
  | none => simp only [killTree, found]
  | some br =>
    have elsewhere := repin_elsewhere radix cache differs br
    simp only [killTree, found]
    split
    next => exact elsewhere
    next pinned foundPinned => exact (Dict.get?_erase _ _ _).trans ((if_neg differs).trans elsewhere)

theorem invalidateTree_elsewhere {other : String} (differs : other ≠ branchId) :
    (cache.invalidateTree radix branchId).2.branches.get? other = cache.branches.get? other := by
  cases found : cache.branches.get? branchId with
  | none => simp only [invalidateTree, found]
  | some br =>
    have elsewhere := repin_elsewhere radix cache differs br
    simp only [invalidateTree, found]
    split
    next => exact elsewhere
    next pinned foundPinned => exact (Dict.get?_insert _ _ _ _).trans ((if_neg differs).trans elsewhere)

/-! ## Data path -/

/-- Moving a pin moves no node. -/
theorem movePin_outline (laws : radix.Laws) {moved : AgentBranch τ} {node : NodeRef}
    (spells : tree.Spells node moved.ns moved.tokenIds) (anchored : br.speculative = false → Anchored tree br)
    (id : Nat) : (movePin radix tree br node).outline id = tree.outline id := by
  have locks := laws.inc_relocks tree node moved.ns moved.tokenIds spells
  rw [movePin]
  split
  next old isOld flag =>
    have anchored := Synced.anchored_relocks (anchored flag) locks
    rw [Anchored, isOld] at anchored
    exact ((laws.dec_relocks _ old br.ns br.tokenIds anchored).outline id).trans (locks.outline id)
  next => exact locks.outline id

/-- The new node is pinned and the old one let go. -/
theorem movePin_synced (laws : radix.Laws) (synced : Synced others tree branches)
    (found : branches.get? branchId = some br) {moved : AgentBranch τ} {node : NodeRef}
    (spells : tree.Spells node moved.ns moved.tokenIds) (locked : moved.lockedNode = some node)
    (pinned : moved.speculative = false) :
    Synced others (movePin radix tree br node) (branches.insert branchId moved) := by
  have locks := laws.inc_relocks tree node moved.ns moved.tokenIds spells
  have counts := synced.counts.lock spells locks
  rw [held_of_get? found] at counts
  rw [movePin]
  split
  next old isOld flag =>
    have anchored := Synced.anchored_relocks (synced.anchored branchId br found flag) locks
    rw [stake_of_pinned flag, Multiset.singleton_add, Multiset.cons_add, Multiset.cons_swap] at counts
    have unlocked := counts_unlock laws anchored counts
    rw [isOld] at unlocked
    obtain ⟨counts, change, relocks⟩ := unlocked
    refine synced.insert (fun _ anchored =>
      Synced.anchored_relocks (Synced.anchored_relocks anchored locks) relocks) (fun _ => ?_) ?_
    · rw [Anchored, locked]
      exact relocks.spells (locks.spells spells)
    · rw [stake_of_pinned pinned, Multiset.singleton_add, Multiset.cons_add]
      exact counts
  next nothing =>
    refine synced.insert (fun _ anchored => Synced.anchored_relocks anchored locks) (fun _ => ?_) ?_
    · rw [Anchored, locked]
      exact locks.spells spells
    · rw [stake_of_pinned pinned, Multiset.singleton_add, Multiset.cons_add]
      cases flag : br.speculative with
      | true => rwa [stake_of_demoted flag, zero_add] at counts
      | false =>
        -- a pinned branch without a node has no tokens
        have anchored := synced.anchored branchId br found flag
        rw [Anchored] at anchored
        cases isOld : br.lockedNode with
        | some old => exact absurd flag (nothing old isOld)
        | none =>
          rw [isOld] at anchored
          simp only at anchored
          rw [stake_of_pinned flag, Multiset.singleton_add, Multiset.cons_add, anchored, Multiset.cons_swap] at counts
          exact Counts.cons_nil.1 counts

omit [DecidableEq τ] in
/-- A charge changes the reservation of the branch and the counters. -/
theorem charge_spec {tokens : Int} {charged : AgentBranch τ} {after : TreeRadixCache τ}
    (outcome : cache.charge branchId br tokens = .ok (charged, after)) :
    charged = { br with reservedTokens := br.reservedTokens - fromReserve br tokens } ∧
      after = (cache.setBranch branchId charged).updateTelemetry br.ns fun tel => { tel with
        reservedTokens := tel.reservedTokens - fromReserve br tokens
        chargedTokens := tel.chargedTokens + tokens } := by
  rw [charge] at outcome
  split at outcome
  next => cases outcome
  next =>
    cases outcome
    refine ⟨rfl, ?_⟩
    have whole : ∀ before : Int, before + fromReserve br tokens +
        (if 0 < tokens - fromReserve br tokens then tokens - fromReserve br tokens else 0) = before + tokens := by
      intro before
      have bound : fromReserve br tokens ≤ tokens := min_le_right _ _
      split <;> omega
    simp only [whole]

omit [DecidableEq τ] in
theorem held_setReserved (found : branches.get? branchId = some br) (reserved : Int) :
    held (branches.insert branchId { br with reservedTokens := reserved }) = held branches := by
  rw [held_insert, held_of_get? found]
  rfl

/-- A reservation is no matter of pins. -/
theorem Balanced.setReserved (balanced : Balanced others cache) (found : cache.branches.get? branchId = some br)
    (reserved : Int) : Balanced others (cache.setBranch branchId { br with reservedTokens := reserved }) := by
  have unchanged := held_setReserved found reserved
  have synced : Synced others cache.tree (cache.branches.insert branchId { br with reservedTokens := reserved }) := by
    refine balanced.synced.insert (fun _ anchored => anchored)
      (balanced.synced.anchored branchId br found) ?_
    rw [← held_insert, unchanged]
    exact balanced.synced.counts
  exact ⟨synced, fun other => (balanced.pinned other).trans (by rw [← unchanged]; rfl)⟩

theorem charge_balanced (balanced : Balanced others cache) (found : cache.branches.get? branchId = some br)
    {tokens : Int} {charged : AgentBranch τ} {after : TreeRadixCache τ}
    (outcome : cache.charge branchId br tokens = .ok (charged, after)) : Balanced others after := by
  obtain ⟨rfl, rfl⟩ := charge_spec outcome
  exact (balanced.setReserved found _).updateTelemetry br.ns (fun tel => { tel with
    reservedTokens := tel.reservedTokens - fromReserve br tokens
    chargedTokens := tel.chargedTokens + tokens }) fun _ => rfl

omit [DecidableEq τ] in
/-- What `extend_tree` pays before it inserts: a charge if there is one. -/
theorem payment_spec (found : cache.branches.get? branchId = some br) {amount : Int} {paid : AgentBranch τ}
    {after : TreeRadixCache τ}
    (outcome : (if 0 < amount then cache.charge branchId br amount else .ok (br, cache)) = .ok (paid, after)) :
    (∃ reserved, paid = { br with reservedTokens := reserved }) ∧ after.tree = cache.tree ∧
      after.branches.get? branchId = some paid ∧
      (∀ other, other ≠ branchId → after.branches.get? other = cache.branches.get? other) ∧
      held (after.branches.erase branchId) = held (cache.branches.erase branchId) ∧
      ∀ ns, after.chargedTokens ns = cache.chargedTokens ns + if ns = br.ns then max amount 0 else 0 := by
  split at outcome
  next positive =>
    obtain ⟨rfl, rfl⟩ := charge_spec outcome
    refine ⟨⟨_, rfl⟩, rfl, (Dict.get?_insert _ _ _ _).trans (if_pos rfl), fun other differs =>
      (Dict.get?_insert _ _ _ _).trans (if_neg differs), held_erase_insert _ _ _, fun ns => ?_⟩
    rw [chargedTokens, treeTelemetry_updateTelemetry, max_eq_left positive.le]
    split
    next same =>
      rw [same]
      rfl
    next => exact (add_zero _).symm
  next nothing =>
    cases outcome
    refine ⟨⟨_, rfl⟩, rfl, found, fun _ _ => rfl, rfl, fun ns => ?_⟩
    rw [max_eq_right (Int.not_lt.1 nothing), ite_self, add_zero]

/-- Once the tokens are inserted, a match finds them all. -/
theorem match_inserted (laws : radix.Laws) (tree : Tree τ) (key : RadixKey τ) :
    let found := radix.matchPrefix (radix.insert tree key) key
    found.1.Spells found.2.lastDeviceNode key.extraKey key.tokenIds := by
  intro found
  have spells := laws.match_node (radix.insert tree key) key
  have whole : found.2.deviceIndices = key.tokenIds.length := by
    refine le_antisymm (laws.match_bound _ _) ?_
    by_cases empty : key.tokenIds = []
    · rw [empty]
      exact Nat.zero_le _
    · have cached := laws.insert_caches tree key empty
      rw [← List.take_length (l := key.tokenIds)] at cached
      exact (laws.match_longest _ key _ (List.length_pos_of_ne_nil empty) le_rfl).1 cached
  rwa [whole, List.take_length] at spells

theorem extendTree_balanced (laws : radix.Laws) (balanced : Balanced others cache) (branchId : String)
    (tokenIds : List τ) : Balanced others (cache.extendTree radix branchId tokenIds).2 := by
  cases found : cache.branches.get? branchId with
  | none => simpa only [extendTree, found] using balanced
  | some br =>
    simp only [extendTree, found]
    have matched : Balanced others { cache with tree := (radix.matchPrefix cache.tree ⟨br.tokenIds ++ tokenIds, br.ns⟩).1 } :=
      balanced.setTree (balanced.synced.edits (laws.match_reshapes _ _))
    split
    next => exact matched
    next charged after outcome =>
      have paid : Balanced others after ∧ after.branches.get? branchId = some charged ∧ charged.ns = br.ns := by
        split at outcome
        next =>
          refine ⟨charge_balanced matched found outcome, ?_⟩
          obtain ⟨rfl, rfl⟩ := charge_spec outcome
          exact ⟨(Dict.get?_insert _ _ _ _).trans (if_pos rfl), rfl⟩
        next =>
          cases outcome
          exact ⟨matched, found, rfl⟩
      obtain ⟨paid, stored, sameNs⟩ := paid
      let key : RadixKey τ := ⟨br.tokenIds ++ tokenIds, br.ns⟩
      let hit := (radix.matchPrefix cache.tree key).2.deviceIndices
      have saved := paid.updateTelemetry charged.ns (fun tel => { tel with
        savedTokens := tel.savedTokens + max ((hit : Int) - br.tokenIds.length) 0 }) fun _ => rfl
      have inserted := (saved.synced.edits (laws.insert_fills _ key)).edits (laws.match_reshapes _ key)
      let moved : AgentBranch τ := { charged with
        tokenIds := br.tokenIds ++ tokenIds
        lockedNode := some (radix.matchPrefix (radix.insert after.tree key) key).2.lastDeviceNode
        speculative := false }
      have spells : (radix.matchPrefix (radix.insert after.tree key) key).1.Spells
          (radix.matchPrefix (radix.insert after.tree key) key).2.lastDeviceNode moved.ns moved.tokenIds := by
        rw [show moved.ns = br.ns from sameNs]
        exact match_inserted laws after.tree key
      have synced : Synced others _ (after.branches.insert branchId moved) :=
        movePin_synced laws inserted stored spells rfl rfl
      exact saved.refresh synced fun other differs =>
        carried_insert_of_ne differs (sameNs_of_found stored rfl)

theorem matchTreePrefix_balanced (laws : radix.Laws) (balanced : Balanced others cache) (branchId : String)
    (tokenIds : List τ) : Balanced others (cache.matchTreePrefix radix branchId tokenIds).2 := by
  cases found : cache.branches.get? branchId with
  | none => simpa only [matchTreePrefix, found] using balanced
  | some br =>
    simp only [matchTreePrefix, found]
    exact balanced.setTree (balanced.synced.edits (laws.match_reshapes _ _))

theorem reserve_balanced (balanced : Balanced others cache) (branchId : String) (numTokens : Int) :
    Balanced others (cache.reserve branchId numTokens).2 := by
  rw [reserve]
  split
  next => exact balanced
  next =>
    cases found : cache.branches.get? branchId with
    | none => exact balanced
    | some br =>
      simp only
      split
      next => exact balanced
      next => exact (balanced.setReserved found _).updateTelemetry br.ns (fun tel =>
          { tel with reservedTokens := tel.reservedTokens + numTokens }) fun _ => rfl

/-! ## Runs -/

theorem new_balanced (pageSize : Nat) (treeQuotaTokens : Option Int) :
    Balanced 0 (new pageSize treeQuotaTokens : TreeRadixCache τ) :=
  ⟨⟨nofun, nofun, nofun⟩, fun _ => rfl⟩

theorem perform_balanced (laws : radix.Laws) (balanced : Balanced others cache) (op : Op τ) :
    Balanced others (cache.perform radix op) := by
  cases op with
  | createAgentTree branchId ns => exact createAgentTree_balanced balanced branchId ns
  | forkBranch parentId childId => exact forkBranch_balanced laws balanced parentId childId
  | extendTree branchId tokenIds => exact extendTree_balanced laws balanced branchId tokenIds
  | reserve branchId numTokens => exact reserve_balanced balanced branchId numTokens
  | demoteBranch branchId => exact demoteBranch_balanced laws balanced branchId
  | promoteBranch branchId => exact promoteBranch_balanced laws balanced branchId
  | invalidateTree branchId => exact invalidateTree_balanced laws balanced branchId
  | killTree branchId => exact killTree_balanced laws balanced branchId
  | matchTreePrefix branchId tokenIds => exact matchTreePrefix_balanced laws balanced branchId tokenIds
  | evict numTokens => exact balanced.setTree (balanced.synced.shrinks (laws.evict_shrinks _ _))

end Agentfork.Sglang.TreeRadixCache

import Agentfork.Sglang.PinSteps
import Agentfork.Sglang.RequestPath

/-! # Charges and reservations

What a tree is charged with and what its branches have reserved stay within the
quota. A method moves an amount into the charges of one namespace and an amount
into its reservations; `Moves` says so, and methods compose as the amounts add up. -/

namespace Agentfork.Sglang.TreeRadixCache

open LockTree

variable {τ : Type} {cache before middle after : TreeRadixCache τ} {branches : Dict String (AgentBranch τ)}
  {branchId ns : String} {br : AgentBranch τ} {quota paid due : Int}

/-- The reservations that the branches of a namespace have left. -/
def outstanding (branches : Dict String (AgentBranch τ)) (ns : String) : Int :=
  ((branches.values.filter (·.ns = ns)).map AgentBranch.reservedTokens).sum

/-- The part of one branch in the reservations of a namespace. -/
def dueOf (br : AgentBranch τ) (ns : String) : Int := if ns = br.ns then br.reservedTokens else 0

def reservedTokens (cache : TreeRadixCache τ) (ns : String) : Int := (cache.treeTelemetry ns).reservedTokens

theorem outstanding_eq (branches : Dict String (AgentBranch τ)) (ns : String) :
    outstanding branches ns = ((branches.values : Multiset (AgentBranch τ)).map (dueOf · ns)).sum := by
  rw [outstanding, Multiset.map_coe, Multiset.sum_coe]
  induction branches.values with
  | nil => rfl
  | cons br rest inductionHypothesis =>
    rw [List.map_cons, List.sum_cons, ← inductionHypothesis, List.filter_cons, dueOf]
    by_cases same : br.ns = ns
    · simp [same]
    · simp [same, Ne.symm same]

theorem outstanding_insert (branches : Dict String (AgentBranch τ)) (branchId : String) (br : AgentBranch τ)
    (ns : String) : outstanding (branches.insert branchId br) ns =
      dueOf br ns + outstanding (branches.erase branchId) ns := by
  rw [outstanding_eq, Dict.values_insert, Multiset.map_cons, Multiset.sum_cons, ← outstanding_eq]

theorem outstanding_of_get? (found : branches.get? branchId = some br) (ns : String) :
    outstanding branches ns = dueOf br ns + outstanding (branches.erase branchId) ns := by
  rw [outstanding_eq, Dict.values_of_get? found, Multiset.map_cons, Multiset.sum_cons, ← outstanding_eq]

theorem outstanding_erase_of_absent (absent : branches.get? branchId = none) (ns : String) :
    outstanding (branches.erase branchId) ns = outstanding branches ns := by
  rw [outstanding, outstanding, Dict.values_erase_of_absent absent]

/-- No branch owes the tree tokens. -/
def Solvent (branches : Dict String (AgentBranch τ)) : Prop :=
  ∀ branchId br, branches.get? branchId = some br → 0 ≤ br.reservedTokens

theorem Solvent.insert (solvent : Solvent branches) (nonneg : 0 ≤ br.reservedTokens) :
    Solvent (branches.insert branchId br) := by
  intro other otherBr found
  rw [Dict.get?_insert] at found
  split at found
  next =>
    cases found
    exact nonneg
  next => exact solvent other otherBr found

theorem Solvent.erase (solvent : Solvent branches) : Solvent (branches.erase branchId) := by
  intro other otherBr found
  rw [Dict.get?_erase] at found
  split at found
  next => cases found
  next => exact solvent other otherBr found

/-! ## What a method moves -/

/-- The namespace is charged with `paid` more and has `due` more reserved. -/
structure Moves (before after : TreeRadixCache τ) (ns : String) (paid due : Int) : Prop where
  quota : after.treeQuotaTokens = before.treeQuotaTokens
  charged : ∀ other, after.chargedTokens other = before.chargedTokens other + if other = ns then paid else 0
  reserved : ∀ other, after.reservedTokens other = before.reservedTokens other + if other = ns then due else 0
  outstanding : ∀ other, outstanding after.branches other =
    outstanding before.branches other + if other = ns then due else 0
  solvent : Solvent before.branches → Solvent after.branches

namespace Moves

/-- Nothing is moved where the books are the same. -/
theorem still (quota : after.treeQuotaTokens = before.treeQuotaTokens)
    (charged : ∀ other, after.chargedTokens other = before.chargedTokens other)
    (reserved : ∀ other, after.reservedTokens other = before.reservedTokens other)
    (same : ∀ other, TreeRadixCache.outstanding after.branches other =
      TreeRadixCache.outstanding before.branches other)
    (solvent : Solvent before.branches → Solvent after.branches) : Moves before after ns 0 0 :=
  ⟨quota, by simpa using charged, by simpa using reserved, by simpa using same, solvent⟩

theorem refl (cache : TreeRadixCache τ) (ns : String) : Moves cache cache ns 0 0 :=
  still rfl (fun _ => rfl) (fun _ => rfl) (fun _ => rfl) id

theorem trans {paid' due' : Int} (first : Moves before middle ns paid due)
    (second : Moves middle after ns paid' due') : Moves before after ns (paid + paid') (due + due') := by
  have add : ∀ (other : String) (amount amount' : Int), (if other = ns then amount + amount' else 0) =
      (if other = ns then amount else 0) + if other = ns then amount' else 0 := by
    intro other amount amount'
    split
    · rfl
    · rfl
  refine ⟨second.quota.trans first.quota, fun other => ?_, fun other => ?_, fun other => ?_,
    second.solvent ∘ first.solvent⟩
  · rw [second.charged, first.charged, add, add_assoc]
  · rw [second.reserved, first.reserved, add, add_assoc]
  · rw [second.outstanding, first.outstanding, add, add_assoc]

/-- A step that moves nothing moves nothing in any namespace. -/
theorem elsewhere (moves : Moves before after ns 0 0) (other : String) : Moves before after other 0 0 := by
  have charged := moves.charged
  have reserved := moves.reserved
  have same := moves.outstanding
  simp only [ite_self, add_zero] at charged reserved same
  exact still moves.quota charged reserved same moves.solvent

theorem and_still (first : Moves before middle ns paid due) (second : Moves middle after ns 0 0) :
    Moves before after ns paid due := by
  have both := first.trans second
  rwa [add_zero, add_zero] at both

theorem still_and (first : Moves before middle ns 0 0) (second : Moves middle after ns paid due) :
    Moves before after ns paid due := by
  have both := first.trans second
  rwa [zero_add, zero_add] at both

end Moves

/-- The tree is no matter of the books. -/
theorem setTree_moves (cache : TreeRadixCache τ) (tree : Tree τ) (ns : String) :
    Moves cache { cache with tree := tree } ns 0 0 :=
  .still rfl (fun _ => rfl) (fun _ => rfl) (fun _ => rfl) id

theorem updateTelemetry_moves (cache : TreeRadixCache τ) (ns : String) (update : TreeTelemetry → TreeTelemetry)
    (paid due : Int) (charged : ∀ tel, (update tel).chargedTokens = tel.chargedTokens + paid)
    (reserved : ∀ tel, (update tel).reservedTokens = tel.reservedTokens + due)
    (branches : Dict String (AgentBranch τ))
    (moved : ∀ other, outstanding branches other =
      outstanding cache.branches other + if other = ns then due else 0)
    (solvent : Solvent cache.branches → Solvent branches) :
    Moves cache (({ cache with branches := branches } : TreeRadixCache τ).updateTelemetry ns update) ns paid due := by
  refine ⟨rfl, fun other => ?_, fun other => ?_, moved, solvent⟩
  · rw [chargedTokens, treeTelemetry_updateTelemetry]
    split
    next same =>
      rw [charged, same]
      rfl
    next => exact (add_zero _).symm
  · rw [reservedTokens, treeTelemetry_updateTelemetry]
    split
    next same =>
      rw [reserved, same]
      rfl
    next => exact (add_zero _).symm

/-! ## Rows of the branches -/

/-- A branch that is stored back owes what its reservation has grown by. -/
theorem outstanding_replace (found : branches.get? branchId = some br) {moved : AgentBranch τ}
    (sameNs : moved.ns = br.ns) (other : String) : outstanding (branches.insert branchId moved) other =
      outstanding branches other + if other = br.ns then moved.reservedTokens - br.reservedTokens else 0 := by
  rw [outstanding_insert, outstanding_of_get? found, dueOf, dueOf, sameNs]
  split <;> omega

theorem outstanding_create (br : AgentBranch τ) (absent : branches.get? branchId = none) (other : String) :
    outstanding (branches.insert branchId br) other =
      outstanding branches other + if other = br.ns then br.reservedTokens else 0 := by
  rw [outstanding_insert, outstanding_erase_of_absent absent, dueOf, add_comm]

theorem outstanding_remove (found : branches.get? branchId = some br) (other : String) :
    outstanding (branches.erase branchId) other =
      outstanding branches other + if other = br.ns then -br.reservedTokens else 0 := by
  rw [outstanding_of_get? found, dueOf]
  split <;> omega

/-- A branch is stored back with the reservation it had; the tree is no matter of
the books. -/
theorem setBranch_moves (found : cache.branches.get? branchId = some br) (tree : Tree τ)
    {moved : AgentBranch τ} (sameNs : moved.ns = br.ns) (same : moved.reservedTokens = br.reservedTokens) :
    Moves cache (({ cache with tree := tree }).setBranch branchId moved) ns 0 0 := by
  refine .still rfl (fun _ => rfl) (fun _ => rfl) (fun other => ?_) fun solvent => ?_
  · have replaced := outstanding_replace found sameNs other
    rwa [same, sub_self, ite_self, add_zero] at replaced
  · exact solvent.insert (same ▸ solvent branchId br found)

/-- An update of the telemetry that charges and reserves nothing. -/
theorem updateTelemetry_still (cache : TreeRadixCache τ) (ns : String) (update : TreeTelemetry → TreeTelemetry)
    (charged : ∀ tel, (update tel).chargedTokens = tel.chargedTokens)
    (reserved : ∀ tel, (update tel).reservedTokens = tel.reservedTokens) (other : String) :
    Moves cache (cache.updateTelemetry ns update) other 0 0 :=
  .still rfl (field_updateTelemetry TreeTelemetry.chargedTokens charged)
    (field_updateTelemetry TreeTelemetry.reservedTokens reserved) (fun _ => rfl) id

variable [DecidableEq τ] {radix : RadixCache τ}

theorem refreshPinnedTokens_moves (cache : TreeRadixCache τ) (ns other : String) :
    Moves cache (cache.refreshPinnedTokens ns) other 0 0 :=
  updateTelemetry_still cache ns (fun tel => { tel with
    pinnedTokens := ((∑ id ∈ cache.pinnedNodes ns, (cache.tree.key id).length : Nat) : Int) })
    (fun _ => rfl) (fun _ => rfl) other

/-! ## What each method moves -/

theorem demoteBranch_moves (cache : TreeRadixCache τ) (branchId ns : String) :
    Moves cache (cache.demoteBranch radix branchId).2 ns 0 0 := by
  cases found : cache.branches.get? branchId with
  | none => simpa only [demoteBranch, found] using Moves.refl cache ns
  | some br =>
    simp only [demoteBranch, found]
    split
    next node flag locked =>
      have stored : Moves cache _ ns 0 0 := setBranch_moves found (radix.decLockRef cache.tree node).1
        (show ({ br with speculative := true } : AgentBranch τ).ns = br.ns from rfl) rfl
      have refreshed := stored.and_still (refreshPinnedTokens_moves _ br.ns ns)
      exact refreshed.and_still (updateTelemetry_still _ br.ns
        (fun tel => { tel with demotions := tel.demotions + 1 }) (fun _ => rfl) (fun _ => rfl) ns)
    next => exact Moves.refl cache ns

theorem promoteBranch_moves (cache : TreeRadixCache τ) (branchId ns : String) :
    Moves cache (cache.promoteBranch radix branchId).2 ns 0 0 := by
  cases found : cache.branches.get? branchId with
  | none => simpa only [promoteBranch, found] using Moves.refl cache ns
  | some br =>
    simp only [promoteBranch, found]
    split
    next =>
      let promoted : AgentBranch τ := { br with
        lockedNode := some (radix.matchPrefix cache.tree ⟨br.tokenIds, br.ns⟩).2.lastDeviceNode
        tokenIds := br.tokenIds.take (radix.matchPrefix cache.tree ⟨br.tokenIds, br.ns⟩).2.deviceIndices
        speculative := false }
      have stored : Moves cache _ ns 0 0 := setBranch_moves found
        (radix.incLockRef (radix.matchPrefix cache.tree ⟨br.tokenIds, br.ns⟩).1
          (radix.matchPrefix cache.tree ⟨br.tokenIds, br.ns⟩).2.lastDeviceNode)
        (show promoted.ns = br.ns from rfl) rfl
      exact stored.and_still (refreshPinnedTokens_moves _ br.ns ns)
    next => exact Moves.refl cache ns

/-- Promoting before a pin is dropped keeps the namespace and the reservation. -/
theorem repin_moves (radix : RadixCache τ) (ns : String) (found : cache.branches.get? branchId = some br) :
    Moves cache (cache.repin radix branchId br) ns 0 0 ∧ ∃ pinned : AgentBranch τ,
      (cache.repin radix branchId br).branches.get? branchId = some pinned ∧
        pinned.ns = br.ns ∧ pinned.reservedTokens = br.reservedTokens := by
  rw [repin]
  split
  next demoted =>
    refine ⟨promoteBranch_moves cache branchId ns, ?_⟩
    simp only [promoteBranch, found, demoted, if_true]
    exact ⟨_, (Dict.get?_insert _ _ _ _).trans (if_pos rfl), rfl, rfl⟩
  next => exact ⟨.refl cache ns, br, found, rfl, rfl⟩

theorem invalidateTree_moves (cache : TreeRadixCache τ) (branchId ns : String) :
    Moves cache (cache.invalidateTree radix branchId).2 ns 0 0 := by
  cases found : cache.branches.get? branchId with
  | none => simpa only [invalidateTree, found] using Moves.refl cache ns
  | some br =>
    obtain ⟨repinned, pinned, foundPinned, -, -⟩ := repin_moves radix ns found
    simp only [invalidateTree, found, foundPinned]
    let emptied : AgentBranch τ := { pinned with lockedNode := none, speculative := false, tokenIds := [] }
    have stored := repinned.and_still (setBranch_moves foundPinned
      (unlock radix (cache.repin radix branchId br).tree pinned.lockedNode).1
      (show emptied.ns = pinned.ns from rfl) rfl)
    have counted := stored.and_still (updateTelemetry_still _ pinned.ns
      (fun tel => { tel with invalidations := tel.invalidations + 1 }) (fun _ => rfl) (fun _ => rfl) ns)
    have refreshed := counted.and_still (refreshPinnedTokens_moves _ pinned.ns ns)
    exact refreshed.and_still (setTree_moves _ _ ns)

/-- A killed branch gives back what it has left of its reservation. -/
theorem killTree_moves (found : cache.branches.get? branchId = some br) :
    Moves cache (cache.killTree radix branchId).2 br.ns 0 (-br.reservedTokens) := by
  obtain ⟨repinned, pinned, foundPinned, sameNs, sameReserved⟩ := repin_moves radix br.ns found
  simp only [killTree, found, foundPinned]
  rw [← sameNs, ← sameReserved]
  have unlocked := (repinned.elsewhere pinned.ns).and_still (setTree_moves _ (release radix
    (unlock radix (cache.repin radix branchId br).tree pinned.lockedNode).1 pinned.lockedNode
    (unlock radix (cache.repin radix branchId br).tree pinned.lockedNode).2) pinned.ns)
  have removed := unlocked.still_and (updateTelemetry_moves _ pinned.ns (fun tel => { tel with
    liveBranches := tel.liveBranches - 1
    reservedTokens := tel.reservedTokens - pinned.reservedTokens }) 0 (-pinned.reservedTokens)
    (fun _ => (add_zero _).symm) (fun _ => sub_eq_add_neg _ _)
    ((cache.repin radix branchId br).branches.erase branchId) (outstanding_remove foundPinned) Solvent.erase)
  exact removed.and_still (refreshPinnedTokens_moves _ pinned.ns pinned.ns)

omit [DecidableEq τ] in
/-- A new branch has reserved nothing yet. -/
theorem addBranch_moves (br : AgentBranch τ) (absent : cache.branches.get? branchId = none) (seq : Nat) (tree : Tree τ)
    (zero : br.reservedTokens = 0) :
    Moves cache (({ cache with forkSeq := seq, tree := tree }).setBranch branchId br) ns 0 0 := by
  refine .still rfl (fun _ => rfl) (fun _ => rfl) (fun other => ?_) fun solvent => solvent.insert zero.ge
  have created := outstanding_create br absent other
  rwa [zero, ite_self, add_zero] at created

omit [DecidableEq τ] in
theorem createAgentTree_moves (cache : TreeRadixCache τ) (branchId : String) (given : Option String) (ns : String) :
    Moves cache (cache.createAgentTree branchId given).2 ns 0 0 := by
  rw [createAgentTree]
  split
  next => exact Moves.refl cache ns
  next absent =>
    let br : AgentBranch τ := ⟨branchId, orElse given branchId, none, 0, [], none, 0, false⟩
    have added : Moves cache _ ns 0 0 := addBranch_moves br (Dict.get?_eq_none.2 absent)
      cache.forkSeq cache.tree rfl
    exact added.and_still (updateTelemetry_still _ br.ns
      (fun tel => { tel with liveBranches := tel.liveBranches + 1 }) (fun _ => rfl) (fun _ => rfl) ns)

theorem forkBranch_moves (cache : TreeRadixCache τ) (parentId : String) (childId : Option String) (ns : String) :
    Moves cache (cache.forkBranch radix parentId childId).2 ns 0 0 := by
  cases found : cache.branches.get? parentId with
  | none => simpa only [forkBranch, found] using Moves.refl cache ns
  | some parent =>
    simp only [forkBranch, found]
    split
    next => exact .still rfl (fun _ => rfl) (fun _ => rfl) (fun _ => rfl) id
    next absent =>
      let br : AgentBranch τ := ⟨orElse childId s!"{parentId}/{cache.forkSeq}", parent.ns, some parentId,
        cache.forkSeq, (cache.forkPin radix parent).2.1, (cache.forkPin radix parent).2.2, 0, false⟩
      have added : Moves cache _ ns 0 0 := addBranch_moves br (Dict.get?_eq_none.2 absent)
        (cache.forkSeq + 1) (cache.forkPin radix parent).1 rfl
      have counted := added.and_still (updateTelemetry_still _ br.ns
        (fun tel => { tel with liveBranches := tel.liveBranches + 1 }) (fun _ => rfl) (fun _ => rfl) ns)
      have refreshed := counted.and_still (refreshPinnedTokens_moves _ br.ns ns)
      exact refreshed.and_still (updateTelemetry_still _ br.ns (fun tel =>
        { tel with savedTokens := tel.savedTokens + br.tokenIds.length }) (fun _ => rfl) (fun _ => rfl) ns)

omit [DecidableEq τ] in
theorem matchTreePrefix_moves (cache : TreeRadixCache τ) (branchId : String) (tokenIds : List τ) (ns : String) :
    Moves cache (cache.matchTreePrefix radix branchId tokenIds).2 ns 0 0 := by
  cases found : cache.branches.get? branchId with
  | none => simpa only [matchTreePrefix, found] using Moves.refl cache ns
  | some br =>
    simp only [matchTreePrefix, found]
    exact setTree_moves cache _ ns

omit [DecidableEq τ] in
/-- A charge comes out of the reservation first. -/
theorem charge_moves (found : cache.branches.get? branchId = some br) {tokens : Int} {charged : AgentBranch τ}
    (outcome : cache.charge branchId br tokens = .ok (charged, after)) :
    Moves cache after br.ns tokens (-fromReserve br tokens) := by
  obtain ⟨rfl, rfl⟩ := charge_spec outcome
  refine updateTelemetry_moves cache br.ns _ tokens (-fromReserve br tokens) (fun _ => rfl)
    (fun _ => sub_eq_add_neg _ _) _ (fun other => ?_) fun solvent => solvent.insert ?_
  · rw [outstanding_replace found (by rfl)]
    simp
  · exact sub_nonneg.2 (min_le_left _ _)

/-! ## The quota -/

/-- Charges and reservations of each namespace fit in the quota, and what is
reserved is what the branches have left. -/
structure Budgeted (quota : Int) (cache : TreeRadixCache τ) : Prop where
  limit : cache.treeQuotaTokens = some quota
  within : ∀ ns, cache.chargedTokens ns + cache.reservedTokens ns ≤ quota
  reserved : ∀ ns, cache.reservedTokens ns = outstanding cache.branches ns
  solvent : Solvent cache.branches

omit [DecidableEq τ] in
/-- Nothing is moved in, or what is moved in fits. -/
theorem Budgeted.moves (budgeted : Budgeted quota before) (moves : Moves before after ns paid due)
    (fits : paid + due ≤ 0 ∨ before.chargedTokens ns + before.reservedTokens ns + (paid + due) ≤ quota) :
    Budgeted quota after := by
  refine ⟨moves.quota.trans budgeted.limit, fun other => ?_, fun other => ?_, moves.solvent budgeted.solvent⟩
  · have within := budgeted.within other
    rw [moves.charged, moves.reserved]
    split
    next same =>
      subst same
      omega
    next => omega
  · rw [moves.reserved, moves.outstanding, budgeted.reserved]

omit [DecidableEq τ] in
theorem Budgeted.still (budgeted : Budgeted quota before) (moves : Moves before after ns 0 0) :
    Budgeted quota after := budgeted.moves moves (.inl le_rfl)

omit [DecidableEq τ] in
theorem new_budgeted (pageSize : Nat) (nonneg : 0 ≤ quota) :
    Budgeted quota (new pageSize (some quota) : TreeRadixCache τ) :=
  ⟨rfl, fun _ => nonneg, fun _ => rfl, fun _ _ same => by cases same⟩

omit [DecidableEq τ] in
theorem reset_budgeted (budgeted : Budgeted quota cache) (nonneg : 0 ≤ quota) : Budgeted quota cache.reset :=
  ⟨budgeted.limit, fun _ => nonneg, fun _ => rfl, fun _ _ same => by cases same⟩

omit [DecidableEq τ] in
theorem validateCharge_eq_ok (limit : cache.treeQuotaTokens = some quota) {tokens : Int} :
    cache.validateCharge br tokens = .ok () ↔
      cache.chargedTokens br.ns + cache.reservedTokens br.ns + (tokens - fromReserve br tokens) ≤ quota := by
  simp only [validateCharge, limit, chargedTokens, reservedTokens]
  split
  next refused => exact iff_of_false (by rintro ⟨⟩) (by omega)
  next fits => exact iff_of_true rfl (by omega)

omit [DecidableEq τ] in
/-- A charge that the branch has reserved takes nothing new out of the quota. -/
theorem validateCharge_reserved (budgeted : Budgeted quota cache) {tokens : Int}
    (enough : tokens ≤ br.reservedTokens) : cache.validateCharge br tokens = .ok () := by
  have within := budgeted.within br.ns
  rw [validateCharge_eq_ok budgeted.limit, fromReserve, min_eq_right enough, sub_self, add_zero]
  exact within

omit [DecidableEq τ] in
theorem charge_budgeted (budgeted : Budgeted quota cache) (found : cache.branches.get? branchId = some br)
    {tokens : Int} {charged : AgentBranch τ} (outcome : cache.charge branchId br tokens = .ok (charged, after)) :
    Budgeted quota after := by
  refine budgeted.moves (charge_moves found outcome) (.inr ?_)
  rw [← sub_eq_add_neg]
  rw [charge] at outcome
  split at outcome
  next => cases outcome
  next valid => exact (validateCharge_eq_ok budgeted.limit).1 valid

omit [DecidableEq τ] in
theorem charge_reserved (budgeted : Budgeted quota cache) {tokens : Int} (enough : tokens ≤ br.reservedTokens) :
    ∃ charged after, cache.charge branchId br tokens = .ok (charged, after) := by
  rw [charge, validateCharge_reserved budgeted enough]
  exact ⟨_, _, rfl⟩

omit [DecidableEq τ] in
theorem reserve_budgeted (budgeted : Budgeted quota cache) (branchId : String) (numTokens : Int) :
    Budgeted quota (cache.reserve branchId numTokens).2 := by
  rw [reserve]
  split
  next => exact budgeted
  next nonneg =>
    cases found : cache.branches.get? branchId with
    | none => exact budgeted
    | some br =>
      simp only [budgeted.limit, Option.any_some, decide_eq_true_eq]
      split
      next => exact budgeted
      next fits =>
        have moves := updateTelemetry_moves cache br.ns
          (fun tel => { tel with reservedTokens := tel.reservedTokens + numTokens }) 0 numTokens
          (fun _ => (add_zero _).symm) (fun _ => rfl)
          (cache.branches.insert branchId { br with reservedTokens := br.reservedTokens + numTokens })
          (fun other => by
            rw [outstanding_replace found (by rfl)]
            simp)
          (fun solvent => solvent.insert (by
            have before := solvent branchId br found
            simp only
            omega))
        refine budgeted.moves moves (.inr ?_)
        simp only [chargedTokens, reservedTokens]
        omega

theorem killTree_budgeted (budgeted : Budgeted quota cache) (branchId : String) :
    Budgeted quota (cache.killTree radix branchId).2 := by
  cases found : cache.branches.get? branchId with
  | none => simpa only [killTree, found] using budgeted
  | some br =>
    have nonneg := budgeted.solvent branchId br found
    exact budgeted.moves (killTree_moves found) (.inl (by omega))

end Agentfork.Sglang.TreeRadixCache

import Agentfork.Kv.ExactAdmission
import Agentfork.Sglang.Backend
import Agentfork.Sglang.Conservation
import Agentfork.Sglang.QuotaRuns

/-! # The budget of the reference and the quota of the patch

The reference cache measures what a namespace holds at the moment; the patch adds
up what its branches have been charged with, and a kill gives nothing back to that
sum. The two give the same verdict on an extension as long as it makes no
difference whether the tokens that kills have freed are counted. -/

namespace Agentfork.Sglang

open LockTree Transition TreeRadixCache

/-- A call that both caches take. The reference cache also reads the clock. -/
inductive SharedCall (τ : Type) where
  | createTree (treeId : String)
  | forkBranch (parentId : String) (childId : Option String)
  | extend (now : Nat) (treeId : String) (tokens : List τ)
  | kill (treeId : String)
  deriving DecidableEq, Repr

namespace SharedCall

variable {τ : Type}

def onReference : SharedCall τ → Kv.Op τ
  | .createTree treeId => .createTree treeId
  | .forkBranch parentId childId => .forkBranch parentId childId
  | .extend now treeId tokens => .extend now treeId tokens
  | .kill treeId => .kill treeId

def onPatch : SharedCall τ → Op τ
  | .createTree treeId => .createAgentTree treeId none
  | .forkBranch parentId childId => .forkBranch parentId childId
  | .extend _ treeId tokens => .extendTree treeId tokens
  | .kill treeId => .killTree treeId

end SharedCall

/-- The two caches, and what the kills of the patch have freed in each namespace. -/
structure Pair (τ : Type) [DecidableEq τ] where
  reference : Kv.TreeKVCache τ
  patch : Audit τ

/-- What an extension meets: its namespace, what that holds, and how many of the
tokens it does not hold. -/
structure Demand where
  ns : String
  resident : Nat
  new : Nat
  deriving DecidableEq, Repr

namespace Pair

variable {τ : Type} [DecidableEq τ]

def step (radix : RadixCache τ) (pair : Pair τ) (call : SharedCall τ) : Pair τ where
  reference := pair.reference.perform call.onReference
  patch := pair.patch.step radix call.onPatch

def Step (radix : RadixCache τ) (before : Pair τ) (call : SharedCall τ) (after : Pair τ) : Prop :=
  before.step radix call = after

/-- What the reference charges; none if it refuses. -/
def referenceCharge (pair : Pair τ) (now : Nat) (treeId : String) (tokens : List τ) : Option Int :=
  match (pair.reference.extend now treeId tokens).1 with
  | .ok charged => some charged
  | .error _ => none

/-- What the patch charges; none if it refuses. -/
def patchCharge (radix : RadixCache τ) (pair : Pair τ) (treeId : String) (tokens : List τ) : Option Int :=
  match pair.patch.cache.branches.get? treeId, pair.patch.cache.extendTree radix treeId tokens with
  | some br, (.ok _, after) => some (after.chargedTokens br.ns - pair.patch.cache.chargedTokens br.ns)
  | _, _ => none

def demand (pair : Pair τ) (treeId : String) (tokens : List τ) : Option Demand :=
  match pair.reference.trees.get? treeId, pair.reference.treeTokens.get? treeId with
  | some tid, some seq =>
    let held := pair.reference.paths tid.ns
    some ⟨tid.ns, held.card, (prefixes (seq ++ tokens) \ held).card⟩
  | _, _ => none

/-- No two roots share a namespace, and no extension is short of memory: it is
refused by the budget or its new tokens fit in the capacity. -/
def Unpressed (quota : Option Int) (pair : Pair τ) : SharedCall τ → Prop
  | .createTree treeId => ∀ tid ∈ pair.reference.trees.values, tid.ns ≠ treeId
  | .extend _ treeId tokens => ∀ demand ∈ pair.demand treeId tokens,
    (∃ limit ∈ quota, limit < demand.resident + demand.new) ∨
      pair.reference.residentTokens + demand.new ≤ pair.reference.capacity
  | _ => True

/-- An extension that needs new tokens is too much for what the namespace holds, or
it would fit even if what kills have freed were still there. -/
def Indifferent (quota : Option Int) (pair : Pair τ) : SharedCall τ → Prop
  | .extend _ treeId tokens => ∀ demand ∈ pair.demand treeId tokens, ∀ limit ∈ quota, 0 < demand.new →
    limit < demand.resident + demand.new ∨
      demand.resident + pair.patch.released demand.ns + demand.new ≤ limit
  | _ => True

end Pair

/-! ## Branches of the one and of the other -/

section Mirrors

variable {τ : Type} {live : Dict String (Kv.Live τ)} {branches : Dict String (AgentBranch τ)}
  {branchId : String} {branch : Kv.Live τ} {br : AgentBranch τ}

/-- The branches are the same and have reserved nothing. -/
def Mirrors (live : Dict String (Kv.Live τ)) (branches : Dict String (AgentBranch τ)) : Prop :=
  ∀ branchId, (branches.get? branchId).map (fun br => (br.ns, br.tokenIds, br.reservedTokens)) =
    (live.get? branchId).map fun branch => (branch.ns, branch.tokens, (0 : Int))

namespace Mirrors

theorem absent_iff (mirrors : Mirrors live branches) (branchId : String) :
    branches.get? branchId = none ↔ live.get? branchId = none := by
  have same := congrArg Option.isNone (mirrors branchId)
  rw [Option.isNone_map, Option.isNone_map] at same
  rw [← Option.isNone_iff_eq_none, ← Option.isNone_iff_eq_none, same]

theorem found (mirrors : Mirrors live branches) (isLive : live.get? branchId = some branch) :
    ∃ br, branches.get? branchId = some br ∧ br.ns = branch.ns ∧ br.tokenIds = branch.tokens ∧
      br.reservedTokens = 0 := by
  have same := mirrors branchId
  rw [isLive, Option.map_some] at same
  obtain ⟨br, found, row⟩ := Option.map_eq_some_iff.1 same
  simp only [Prod.mk.injEq] at row
  exact ⟨br, found, row⟩

theorem live_of_found (mirrors : Mirrors live branches) (found : branches.get? branchId = some br) :
    ∃ branch, live.get? branchId = some branch ∧ br.ns = branch.ns ∧ br.tokenIds = branch.tokens ∧
      br.reservedTokens = 0 := by
  cases isLive : live.get? branchId with
  | none =>
    rw [(mirrors.absent_iff branchId).2 isLive] at found
    cases found
  | some branch =>
    obtain ⟨other, otherFound, row⟩ := mirrors.found isLive
    obtain rfl : other = br := Option.some.inj (otherFound.symm.trans found)
    exact ⟨branch, rfl, row⟩

/-- The same branch is put in on both sides. -/
theorem insert (mirrors : Mirrors live branches) (after : Dict String (AgentBranch τ))
    (storedBack : after.get? branchId = some br)
    (elsewhere : ∀ other, other ≠ branchId → after.get? other = branches.get? other)
    (sameNs : br.ns = branch.ns) (sameTokens : br.tokenIds = branch.tokens) (zero : br.reservedTokens = 0) :
    Mirrors (live.insert branchId branch) after := by
  intro other
  rw [Dict.get?_insert]
  by_cases here : other = branchId
  · subst here
    rw [if_pos rfl, storedBack, Option.map_some, Option.map_some, sameNs, sameTokens, zero]
  · rw [if_neg here, elsewhere other here]
    exact mirrors other

theorem erase (mirrors : Mirrors live branches) (after : Dict String (AgentBranch τ))
    (gone : after.get? branchId = none)
    (elsewhere : ∀ other, other ≠ branchId → after.get? other = branches.get? other) :
    Mirrors (live.erase branchId) after := by
  intro other
  rw [Dict.get?_erase]
  by_cases here : other = branchId
  · subst here
    rw [if_pos rfl, gone]
    rfl
  · rw [if_neg here, elsewhere other here]
    exact mirrors other

end Mirrors

end Mirrors

/-! ## Verdicts of the patch -/

namespace TreeRadixCache

variable {τ : Type} [DecidableEq τ] {radix : RadixCache τ} {cache : TreeRadixCache τ} {branchId : String}
  {br : AgentBranch τ} {tokenIds : List τ}

omit [DecidableEq τ] in
theorem validateCharge_refuses_iff (cache : TreeRadixCache τ) (br : AgentBranch τ) (amount : Int) :
    (∃ raised, cache.validateCharge br amount = .error raised) ↔ ∃ limit ∈ cache.treeQuotaTokens,
      limit < cache.chargedTokens br.ns + cache.reservedTokens br.ns + (amount - fromReserve br amount) := by
  rw [validateCharge]
  cases limited : cache.treeQuotaTokens with
  | none => exact iff_of_false (by rintro ⟨_, ⟨⟩⟩) (by rintro ⟨_, ⟨⟩, _⟩)
  | some quota =>
    simp only [Option.mem_some_iff, exists_eq_left', chargedTokens, reservedTokens]
    split
    next exceeded => exact iff_of_true ⟨_, rfl⟩ exceeded
    next fits => exact iff_of_false (by rintro ⟨_, ⟨⟩⟩) fits

omit [DecidableEq τ] in
theorem payment_refuses_iff (cache : TreeRadixCache τ) (branchId : String) (br : AgentBranch τ) (amount : Int) :
    (∃ raised, (if 0 < amount then cache.charge branchId br amount else .ok (br, cache)) = .error raised) ↔
      0 < amount ∧ ∃ raised, cache.validateCharge br amount = .error raised := by
  split
  next positive =>
    rw [charge]
    cases cache.validateCharge br amount with
    | error raised => exact iff_of_true ⟨raised, rfl⟩ ⟨positive, raised, rfl⟩
    | ok _ => exact iff_of_false (by rintro ⟨_, ⟨⟩⟩) (by rintro ⟨_, _, ⟨⟩⟩)
  next nothing => exact iff_of_false (by rintro ⟨_, ⟨⟩⟩) fun both => nothing both.1

/-- An extension of a branch is refused by the quota only. -/
theorem extendTree_refuses_iff (radix : RadixCache τ) (found : cache.branches.get? branchId = some br)
    (tokenIds : List τ) :
    (∃ raised, (cache.extendTree radix branchId tokenIds).1 = .error raised) ↔
      0 < extendCharge radix cache br tokenIds ∧
        ∃ raised, cache.validateCharge br (extendCharge radix cache br tokenIds) = .error raised := by
  let matched : TreeRadixCache τ := { cache with
    tree := (radix.matchPrefix cache.tree ⟨br.tokenIds ++ tokenIds, br.ns⟩).1 }
  constructor
  · rintro ⟨raised, refused⟩
    simp only [extendTree, found] at refused
    split at refused
    next outcome => exact (payment_refuses_iff matched branchId br _).1 ⟨_, outcome⟩
    next => cases refused
  · intro refused
    obtain ⟨raised, outcome⟩ := (payment_refuses_iff matched branchId br _).2 refused
    simp only [extendTree, found]
    split
    next paymentRaised _ => exact ⟨paymentRaised, rfl⟩
    next granted =>
      have impossible := granted.symm.trans outcome
      cases impossible

/-- The hit that an extension returns is the one it was charged by. -/
theorem extendTree_growth (laws : radix.Laws) (found : cache.branches.get? branchId = some br) {hit : Nat}
    {after : TreeRadixCache τ} (outcome : cache.extendTree radix branchId tokenIds = (.ok hit, after)) :
    after.chargedTokens br.ns - cache.chargedTokens br.ns = extendCharge radix cache br tokenIds := by
  have sameHit : hit = (radix.matchPrefix cache.tree ⟨br.tokenIds ++ tokenIds, br.ns⟩).2.deviceIndices := by
    simp only [extendTree, found] at outcome
    split at outcome
    next => cases outcome
    next =>
      cases outcome
      rfl
  rw [(SGLangKVBackend.extendTree_charges laws found outcome).1, extendCharge, sameHit, List.length_append]
  omega

omit [DecidableEq τ] in
theorem reservedTokens_updateTelemetry {update : TreeTelemetry → TreeTelemetry}
    (kept : ∀ tel, (update tel).reservedTokens = tel.reservedTokens) (cache : TreeRadixCache τ) (ns other : String) :
    (cache.updateTelemetry ns update).reservedTokens other = cache.reservedTokens other :=
  field_updateTelemetry TreeTelemetry.reservedTokens kept other

omit [DecidableEq τ] in
/-- A branch without a reservation pays out of the quota alone. -/
theorem payment_unreserved (zero : br.reservedTokens = 0) {amount : Int} {paying : AgentBranch τ}
    {paid : TreeRadixCache τ}
    (payment : (if 0 < amount then cache.charge branchId br amount else .ok (br, cache)) = .ok (paying, paid)) :
    paying = br ∧ paid.treeQuotaTokens = cache.treeQuotaTokens ∧ paid.forkSeq = cache.forkSeq ∧
      ∀ ns, paid.reservedTokens ns = cache.reservedTokens ns := by
  split at payment
  next positive =>
    have nothing : fromReserve br amount = 0 := by
      rw [fromReserve, zero, min_eq_left positive.le]
    obtain ⟨rfl, rfl⟩ := charge_spec payment
    simp only [nothing, sub_zero]
    refine ⟨trivial, rfl, rfl, fun ns => ?_⟩
    rw [reservedTokens_updateTelemetry]
    · rfl
    · exact fun _ => rfl
  next =>
    cases payment
    exact ⟨rfl, rfl, rfl, fun _ => rfl⟩

theorem extendTree_unreserved (found : cache.branches.get? branchId = some br) (zero : br.reservedTokens = 0)
    {hit : Nat} {after : TreeRadixCache τ} (outcome : cache.extendTree radix branchId tokenIds = (.ok hit, after)) :
    after.treeQuotaTokens = cache.treeQuotaTokens ∧ after.forkSeq = cache.forkSeq ∧
      (∀ ns, after.reservedTokens ns = cache.reservedTokens ns) ∧
      ∃ stored, after.branches.get? branchId = some stored ∧ stored.ns = br.ns ∧
        stored.tokenIds = br.tokenIds ++ tokenIds ∧ stored.reservedTokens = 0 := by
  simp only [extendTree, found] at outcome
  split at outcome
  next => cases outcome
  next paying paid payment =>
    obtain ⟨rfl, sameLimit, sameSeq, sameReserved⟩ := payment_unreserved zero payment
    cases outcome
    refine ⟨sameLimit, sameSeq, fun ns => ?_, _, (Dict.get?_insert _ _ _ _).trans (if_pos rfl), rfl, rfl, zero⟩
    refine Eq.trans ?_ (sameReserved ns)
    rw [refreshPinnedTokens, reservedTokens_updateTelemetry]
    · let hit := (radix.matchPrefix cache.tree ⟨paying.tokenIds ++ tokenIds, paying.ns⟩).2.deviceIndices
      change (paid.updateTelemetry paying.ns fun tel => { tel with
        savedTokens := tel.savedTokens + max ((hit : Int) - paying.tokenIds.length) 0 }).reservedTokens ns = _
      rw [reservedTokens_updateTelemetry]
      exact fun _ => rfl
    · exact fun _ => rfl

end TreeRadixCache

/-! ## What the two charge -/

/-- The pair after a run in which the verdicts were the same. -/
structure Twins (capacity : Nat) (quota : Option Int) {τ : Type} [DecidableEq τ] (pair : Pair τ)
    (model : Kv.PrefixModel τ) : Prop where
  agrees : Kv.Agrees pair.reference model
  within : Kv.Within capacity (quota.map Int.toNat) pair.reference model
  conserved : Conserved pair.patch
  mirrors : Mirrors model.live pair.patch.cache.branches
  sameSeq : pair.reference.childSeq = pair.patch.cache.forkSeq
  limit : pair.patch.cache.treeQuotaTokens = quota
  nonneg : ∀ limit ∈ quota, 0 ≤ limit
  unreserved : ∀ ns, pair.patch.cache.reservedTokens ns = 0
  freed : ∀ ns, 0 ≤ pair.patch.released ns

namespace Twins

variable {τ : Type} [DecidableEq τ] {radix : RadixCache τ} {capacity : Nat} {quota : Option Int} {pair : Pair τ}
  {model : Kv.PrefixModel τ} {treeId : String} {branch : Kv.Live τ} {br : AgentBranch τ} {tokens : List τ}

/-- The namespaces hold the same. -/
theorem carried_eq (twins : Twins capacity quota pair model) (ns : String) :
    carried (held pair.patch.cache.branches) ns = model.cached ns := by
  rw [twins.conserved.carried_eq]
  ext path
  simp only [livePrefixes, Finset.mem_biUnion, List.mem_toFinset, List.mem_map, List.mem_filter, Dict.mem_values,
    decide_eq_true_eq, Kv.PrefixModel.mem_cached, mem_prefixes]
  constructor
  · rintro ⟨_, ⟨br, ⟨⟨branchId, found⟩, rfl⟩, rfl⟩, nonempty, onPath⟩
    obtain ⟨branch, isLive, sameNs, sameTokens, -⟩ := twins.mirrors.live_of_found found
    rw [sameTokens] at onPath
    exact ⟨nonempty, branchId, Kv.PrefixModel.mem_owners.2 ⟨branch, isLive, sameNs.symm, onPath⟩⟩
  · rintro ⟨nonempty, branchId, owner⟩
    obtain ⟨branch, isLive, rfl, onPath⟩ := Kv.PrefixModel.mem_owners.1 owner
    obtain ⟨br, found, sameNs, sameTokens, -⟩ := twins.mirrors.found isLive
    exact ⟨_, ⟨br, ⟨⟨branchId, found⟩, sameNs⟩, rfl⟩, nonempty, sameTokens ▸ onPath⟩

/-- The counter of the patch still has what kills have freed. -/
theorem charged_eq (twins : Twins capacity quota pair model) (ns : String) :
    pair.patch.cache.chargedTokens ns = (model.cached ns).card + pair.patch.released ns := by
  have books := twins.conserved.books ns
  rw [twins.carried_eq] at books
  rw [TreeRadixCache.chargedTokens]
  omega

theorem demand_eq (twins : Twins capacity quota pair model) (isLive : model.live.get? treeId = some branch)
    (tokens : List τ) : pair.demand treeId tokens =
      some ⟨branch.ns, (model.cached branch.ns).card, model.missing branch tokens⟩ := by
  obtain ⟨tid, treeFound, sameNs⟩ := twins.agrees.tree_of_branch isLive
  simp only [Pair.demand, treeFound, twins.agrees.tokens_of_branch isLive, sameNs, twins.agrees.paths_eq_cached]
  rfl

/-- The budget of the reference and the quota of the patch are one number. -/
theorem exceeds_iff (twins : Twins capacity quota pair model) (amount : Nat) :
    pair.reference.perTreeBudget.any (· < amount) = true ↔ ∃ limit ∈ quota, limit < (amount : Int) := by
  rw [twins.within.sameBudget, Option.any_eq_true]
  constructor
  · rintro ⟨budget, isBudget, exceeded⟩
    obtain ⟨limit, isLimit, rfl⟩ := Option.map_eq_some_iff.1 isBudget
    have positive := twins.nonneg limit isLimit
    rw [decide_eq_true_eq] at exceeded
    exact ⟨limit, isLimit, by omega⟩
  · rintro ⟨limit, isLimit, exceeded⟩
    have positive := twins.nonneg limit isLimit
    exact ⟨limit.toNat, Option.map_eq_some_iff.2 ⟨limit, isLimit, rfl⟩, decide_eq_true (by omega)⟩

theorem referenceCharge_eq (twins : Twins capacity quota pair model) (isLive : model.live.get? treeId = some branch)
    {now : Nat} (unpressed : pair.Unpressed quota (.extend now treeId tokens)) :
    ((∃ limit ∈ quota, limit < ((model.cached branch.ns).card : Int) + model.missing branch tokens) →
      pair.referenceCharge now treeId tokens = none) ∧
    ((¬ ∃ limit ∈ quota, limit < ((model.cached branch.ns).card : Int) + model.missing branch tokens) →
      pair.referenceCharge now treeId tokens = some (model.missing branch tokens : Int)) := by
  have outcome := twins.agrees.extend_outcome isLive now tokens
  have exceeds := twins.exceeds_iff ((model.cached branch.ns).card + model.missing branch tokens)
  rw [Nat.cast_add] at exceeds
  have fits := unpressed _ (twins.demand_eq isLive tokens)
  rw [Pair.referenceCharge]
  constructor
  · intro tooMuch
    rw [if_pos (exceeds.2 tooMuch)] at outcome
    rw [outcome.1]
  · intro notOver
    have room := fits.resolve_left notOver
    rw [if_neg (mt exceeds.1 notOver), if_neg] at outcome
    · rw [outcome.1]
    · rintro ⟨-, full⟩
      change pair.reference.stats.residentTokens + (model.missing branch tokens : Int) ≤ pair.reference.capacity at room
      omega

/-- The patch charges the tokens that the namespace does not hold. -/
theorem extendCharge_eq (laws : radix.Laws) (twins : Twins capacity quota pair model)
    (found : pair.patch.cache.branches.get? treeId = some br) (isLive : model.live.get? treeId = some branch)
    (tokens : List τ) : extendCharge radix pair.patch.cache br tokens = model.missing branch tokens := by
  obtain ⟨other, otherFound, sameNs, sameTokens, -⟩ := twins.mirrors.found isLive
  obtain rfl : other = br := Option.some.inj (otherFound.symm.trans found)
  have amount := Conserved.charge_eq laws twins.conserved found tokens
  have bound := laws.match_bound pair.patch.cache.tree ⟨other.tokenIds ++ tokens, other.ns⟩
  rw [twins.carried_eq, sameTokens, sameNs] at amount
  change _ = ((model.missing branch tokens : Nat) : Int) at amount
  rw [sameTokens, sameNs] at bound
  change _ ≤ (branch.tokens ++ tokens).length at bound
  rw [extendCharge, sameTokens, sameNs]
  rw [List.length_append] at *
  omega

theorem patchCharge_eq (laws : radix.Laws) (twins : Twins capacity quota pair model)
    (isLive : model.live.get? treeId = some branch) (tokens : List τ) :
    ((0 < model.missing branch tokens ∧ ∃ limit ∈ quota,
        limit < pair.patch.cache.chargedTokens branch.ns + model.missing branch tokens) →
      pair.patchCharge radix treeId tokens = none) ∧
    ((¬ (0 < model.missing branch tokens ∧ ∃ limit ∈ quota,
        limit < pair.patch.cache.chargedTokens branch.ns + model.missing branch tokens)) →
      pair.patchCharge radix treeId tokens = some (model.missing branch tokens : Int)) := by
  obtain ⟨br, found, sameNs, sameTokens, zero⟩ := twins.mirrors.found isLive
  have amount := twins.extendCharge_eq laws found isLive tokens
  have refuses := extendTree_refuses_iff radix found tokens
  have reserved : fromReserve br (model.missing branch tokens) = 0 := by
    rw [fromReserve, zero]
    omega
  rw [amount, validateCharge_refuses_iff, twins.limit, twins.unreserved, reserved, add_zero, sub_zero, sameNs,
    Int.natCast_pos] at refuses
  rw [Pair.patchCharge, found]
  constructor
  · intro refused
    obtain ⟨raised, outcome⟩ := refuses.2 refused
    split
    next after returned =>
      rw [returned] at outcome
      cases outcome
    next => rfl
  · intro granted
    have accepted := mt refuses.1 granted
    cases outcome : pair.patch.cache.extendTree radix treeId tokens with
    | mk result after =>
      rw [outcome] at accepted
      cases result with
      | error raised => exact absurd ⟨raised, rfl⟩ accepted
      | ok hit =>
        have growth := extendTree_growth laws found outcome
        simp only [growth, amount]

/-- The two give the same verdict if and only if the freed tokens make no difference. -/
theorem charges_alike_iff (laws : radix.Laws) (twins : Twins capacity quota pair model) {now : Nat}
    (unpressed : pair.Unpressed quota (.extend now treeId tokens)) :
    pair.referenceCharge now treeId tokens = pair.patchCharge radix treeId tokens ↔
      pair.Indifferent quota (.extend now treeId tokens) := by
  cases isLive : model.live.get? treeId with
  | none =>
    have absent := (twins.mirrors.absent_iff treeId).2 isLive
    have noTree := twins.agrees.tree_absent.2 isLive
    refine iff_of_true ?_ fun demand isDemand => ?_
    · rw [Pair.referenceCharge, twins.agrees.extend_absent isLive]
      simp only [Pair.patchCharge, absent]
    · simp only [Pair.demand, noTree] at isDemand
      cases isDemand
  | some branch =>
    obtain ⟨refuses, charges⟩ := twins.referenceCharge_eq isLive unpressed
    obtain ⟨patchRefuses, patchCharges⟩ := twins.patchCharge_eq laws isLive tokens
    have charged := twins.charged_eq branch.ns
    have freed := twins.freed branch.ns
    have within := twins.within.namespaces
    simp only [Pair.Indifferent, twins.demand_eq isLive, Option.mem_some_iff, forall_eq']
    by_cases exceeds : ∃ limit ∈ quota, limit < ((model.cached branch.ns).card : Int) + model.missing branch tokens
    · -- what is over the budget is over the quota, as the counter is never behind
      obtain ⟨limit, isLimit, exceeded⟩ := exceeds
      have held := within limit.toNat (Option.map_eq_some_iff.2 ⟨limit, isLimit, rfl⟩) branch.ns
      have positive := twins.nonneg limit isLimit
      rw [refuses ⟨limit, isLimit, exceeded⟩, patchRefuses ⟨by omega, limit, isLimit, by omega⟩]
      refine iff_of_true rfl fun other isOther _ => Or.inl ?_
      obtain rfl : other = limit := Option.some.inj (isOther.symm.trans isLimit)
      exact exceeded
    · rw [charges exceeds]
      constructor
      · intro same limit isLimit positive
        refine Or.inr (not_lt.1 fun exceeded => ?_)
        rw [patchRefuses ⟨positive, limit, isLimit, by omega⟩] at same
        cases same
      · intro indifferent
        refine (patchCharges ?_).symm
        rintro ⟨positive, limit, isLimit, exceeded⟩
        obtain tooMuch | fits := indifferent limit isLimit positive
        · exact exceeds ⟨limit, isLimit, tooMuch⟩
        · omega

/-! ## Both take a step -/

/-- What a call does to the model of the reference. -/
def next (pair : Pair τ) (model : Kv.PrefixModel τ) (call : SharedCall τ) : Kv.PrefixModel τ :=
  model.next call.onReference (pair.reference.apply call.onReference).1

theorem step_of (laws : radix.Laws) (inOrder : radix.EvictsInOrder) (twins : Twins capacity quota pair model)
    {call : SharedCall τ} (unpressed : pair.Unpressed quota call)
    (mirrors : Mirrors (next pair model call).live (pair.step radix call).patch.cache.branches)
    (sameSeq : (pair.step radix call).reference.childSeq = (pair.step radix call).patch.cache.forkSeq)
    (limit : (pair.step radix call).patch.cache.treeQuotaTokens = pair.patch.cache.treeQuotaTokens)
    (unreserved : ∀ ns, (pair.step radix call).patch.cache.reservedTokens ns = pair.patch.cache.reservedTokens ns) :
    Twins capacity quota (pair.step radix call) (next pair model call) where
  agrees := by
    apply twins.agrees.perform
    intro treeId isCreate absent
    refine @Kv.Tracked.unused_of_free τ _ ⟨pair.reference, model⟩ twins.agrees _ ?_ treeId isCreate absent
    cases call with
    | createTree treeId => exact unpressed
    | forkBranch parentId childId => trivial
    | extend now treeId tokens => trivial
    | kill treeId => trivial
  within := twins.within.perform twins.agrees call.onReference
  conserved := by
    apply twins.conserved.step laws inOrder
    cases call <;> trivial
  mirrors := mirrors
  sameSeq := sameSeq
  limit := limit.trans twins.limit
  nonneg := twins.nonneg
  unreserved ns := (unreserved ns).trans (twins.unreserved ns)
  freed ns := by
    refine add_nonneg (twins.freed ns) ?_
    rw [returned.eq_def]
    split
    next => split <;> omega
    next => exact le_rfl

omit [DecidableEq τ] in
theorem still_moves {before after : TreeRadixCache τ} {ns : String} (moves : Moves before after ns 0 0) :
    after.treeQuotaTokens = before.treeQuotaTokens ∧ ∀ other, after.reservedTokens other = before.reservedTokens other := by
  refine ⟨moves.quota, fun other => ?_⟩
  rw [moves.reserved, ite_self, add_zero]

theorem present_iff (twins : Twins capacity quota pair model) (treeId : String) :
    treeId ∈ pair.patch.cache.branches ↔ treeId ∈ pair.reference.trees := by
  have absent := twins.mirrors.absent_iff treeId
  rw [← twins.agrees.tree_absent, Dict.get?_eq_none, Dict.get?_eq_none, not_iff_not] at absent
  exact absent

theorem createTree (laws : radix.Laws) (inOrder : radix.EvictsInOrder) (twins : Twins capacity quota pair model)
    (unpressed : pair.Unpressed quota (.createTree treeId)) :
    Twins capacity quota (pair.step radix (.createTree treeId)) (next pair model (.createTree treeId)) := by
  obtain ⟨limit, unreserved⟩ := still_moves (createAgentTree_moves pair.patch.cache treeId none "")
  have both : Mirrors (next pair model (.createTree treeId)).live
        (pair.step radix (.createTree treeId)).patch.cache.branches ∧
      (pair.step radix (.createTree treeId)).reference.childSeq =
        (pair.step radix (.createTree treeId)).patch.cache.forkSeq := by
    simp only [next, Pair.step, SharedCall.onReference, SharedCall.onPatch, Kv.TreeKVCache.apply,
      Kv.TreeKVCache.perform, Kv.TreeKVCache.createTree, Audit.step, TreeRadixCache.perform, createAgentTree,
      twins.present_iff treeId]
    split
    next => exact ⟨twins.mirrors, twins.sameSeq⟩
    next =>
      refine ⟨twins.mirrors.insert _ ((Dict.get?_insert _ _ _ _).trans (if_pos rfl)) (fun other differs =>
        (Dict.get?_insert _ _ _ _).trans (if_neg differs)) ?_ rfl rfl, twins.sameSeq⟩
      rfl
  exact twins.step_of laws inOrder unpressed both.1 both.2 limit unreserved

omit [DecidableEq τ] in
theorem childName_eq (parentId : String) (childId : Option String) (seq : Nat) :
    Kv.TreeKVCache.childName parentId childId seq = orElse childId s!"{parentId}/{seq}" := by
  cases childId <;> rfl

theorem forkBranch (laws : radix.Laws) (inOrder : radix.EvictsInOrder) (twins : Twins capacity quota pair model)
    (parentId : String) (childId : Option String) :
    Twins capacity quota (pair.step radix (.forkBranch parentId childId)) (next pair model (.forkBranch parentId childId)) := by
  have moves : Moves pair.patch.cache (pair.patch.cache.forkBranch radix parentId childId).2 "" 0 0 :=
    forkBranch_moves _ _ _ _
  obtain ⟨limit, unreserved⟩ := still_moves moves
  have both : Mirrors (next pair model (.forkBranch parentId childId)).live
        (pair.step radix (.forkBranch parentId childId)).patch.cache.branches ∧
      (pair.step radix (.forkBranch parentId childId)).reference.childSeq =
        (pair.step radix (.forkBranch parentId childId)).patch.cache.forkSeq := by
    simp only [next, Pair.step, SharedCall.onReference, SharedCall.onPatch, Kv.TreeKVCache.apply,
      Kv.TreeKVCache.perform, Kv.TreeKVCache.forkBranch, Audit.step, TreeRadixCache.perform,
      TreeRadixCache.forkBranch]
    cases isLive : model.live.get? parentId with
    | none =>
      simp only [twins.agrees.tree_absent.2 isLive, (twins.mirrors.absent_iff parentId).2 isLive]
      exact ⟨twins.mirrors, twins.sameSeq⟩
    | some parent =>
      obtain ⟨tid, treeFound, sameNs⟩ := twins.agrees.tree_of_branch isLive
      obtain ⟨tree, rootFound⟩ := twins.agrees.root_of_branch isLive
      obtain ⟨br, found, brNs, brTokens, -⟩ := twins.mirrors.found isLive
      have pinned := twins.conserved.steady parentId br found
      obtain ⟨pinTokens, -⟩ := Conserved.forkPin_pinned laws twins.conserved.balanced.synced found pinned
      simp only [treeFound, found, childName_eq, twins.sameSeq, twins.present_iff, twins.agrees.tokens_of_branch isLive,
        sameNs, rootFound]
      split
      next => exact ⟨twins.mirrors, rfl⟩
      next =>
        simp only [Prod.map, id, Except.map, Kv.PrefixModel.next, isLive]
        refine ⟨twins.mirrors.insert _ ((Dict.get?_insert _ _ _ _).trans (if_pos rfl)) (fun other differs =>
          (Dict.get?_insert _ _ _ _).trans (if_neg differs)) brNs (pinTokens.trans brTokens) rfl, rfl⟩
  exact twins.step_of laws inOrder trivial both.1 both.2 limit unreserved

theorem killTree_forkSeq (cache : TreeRadixCache τ) (treeId : String) :
    (cache.killTree radix treeId).2.forkSeq = cache.forkSeq := by
  have repinned : ∀ br, (cache.repin radix treeId br).forkSeq = cache.forkSeq := by
    intro br
    rw [repin]
    split
    next =>
      rw [promoteBranch]
      split
      next => rfl
      next => split <;> rfl
    next => rfl
  cases found : cache.branches.get? treeId with
  | none => simp only [killTree, found]
  | some br =>
    simp only [killTree, found]
    split
    next => exact repinned br
    next => exact repinned br

theorem kill_childSeq (cache : Kv.TreeKVCache τ) (treeId : String) :
    (cache.kill treeId).2.childSeq = cache.childSeq := by
  rw [Kv.TreeKVCache.kill]
  split
  next => rfl
  next => split <;> rfl

theorem kill (laws : radix.Laws) (inOrder : radix.EvictsInOrder) (twins : Twins capacity quota pair model)
    (treeId : String) : Twins capacity quota (pair.step radix (.kill treeId)) (next pair model (.kill treeId)) := by
  obtain ⟨freed, returned⟩ : ∃ freed, (pair.reference.kill treeId).1 = .ok freed := by
    cases isLive : model.live.get? treeId with
    | none => exact ⟨0, by simp only [Kv.TreeKVCache.kill, twins.agrees.tree_absent.2 isLive]⟩
    | some branch => exact ⟨_, twins.agrees.kill_result isLive⟩
  have mirrors : Mirrors (next pair model (.kill treeId)).live
      (pair.step radix (.kill treeId)).patch.cache.branches := by
    simp only [next, SharedCall.onReference, Kv.TreeKVCache.apply, Prod.map, returned, Except.map,
      Kv.PrefixModel.next]
    exact twins.mirrors.erase _ (killTree_gone _ _) fun other differs => killTree_elsewhere differs
  have sameSeq : (pair.step radix (.kill treeId)).reference.childSeq =
      (pair.step radix (.kill treeId)).patch.cache.forkSeq :=
    (kill_childSeq _ _).trans (twins.sameSeq.trans (killTree_forkSeq _ _).symm)
  have still : (pair.step radix (.kill treeId)).patch.cache.treeQuotaTokens = pair.patch.cache.treeQuotaTokens ∧
      ∀ ns, (pair.step radix (.kill treeId)).patch.cache.reservedTokens ns = pair.patch.cache.reservedTokens ns := by
    simp only [Pair.step, SharedCall.onPatch, Audit.step, TreeRadixCache.perform]
    cases found : pair.patch.cache.branches.get? treeId with
    | none => simp only [killTree, found, implies_true, and_self]
    | some br =>
      obtain ⟨branch, -, -, -, zero⟩ := twins.mirrors.live_of_found found
      have moves : Moves pair.patch.cache (pair.patch.cache.killTree radix treeId).2 br.ns 0 (-br.reservedTokens) :=
        killTree_moves found
      rw [zero, neg_zero] at moves
      exact still_moves moves
  exact twins.step_of laws inOrder trivial mirrors sameSeq still.1 still.2

theorem extend_childSeq (twins : Twins capacity quota pair model) (now : Nat) (treeId : String) (tokens : List τ) :
    (pair.reference.extend now treeId tokens).2.childSeq = pair.reference.childSeq := by
  cases isLive : model.live.get? treeId with
  | none => rw [twins.agrees.extend_absent isLive]
  | some branch =>
    have outcome := twins.agrees.extend_outcome isLive now tokens
    split at outcome
    next => rw [outcome.2]
    next =>
      split at outcome
      next => rw [outcome.2]
      next =>
        rw [outcome.2]
        rfl

/-- Where the patch charges nothing for a refused extension it has walked the tree only. -/
theorem refused_still (refused : pair.patchCharge radix treeId tokens = none) :
    ∃ tree, (pair.patch.cache.extendTree radix treeId tokens).2 = { pair.patch.cache with tree := tree } := by
  cases found : pair.patch.cache.branches.get? treeId with
  | none =>
    simp only [extendTree, found]
    exact ⟨_, rfl⟩
  | some br =>
    cases outcome : pair.patch.cache.extendTree radix treeId tokens with
    | mk result after =>
      cases result with
      | error raised => exact SGLangKVBackend.extendTree_refused found outcome
      | ok hit =>
        simp only [Pair.patchCharge, found, outcome] at refused
        cases refused

theorem extend (laws : radix.Laws) (inOrder : radix.EvictsInOrder) (twins : Twins capacity quota pair model)
    {now : Nat} (unpressed : pair.Unpressed quota (.extend now treeId tokens))
    (indifferent : pair.Indifferent quota (.extend now treeId tokens)) :
    Twins capacity quota (pair.step radix (.extend now treeId tokens))
      (next pair model (.extend now treeId tokens)) := by
  have same : pair.referenceCharge now treeId tokens = pair.patchCharge radix treeId tokens :=
    (twins.charges_alike_iff laws unpressed).2 indifferent
  have sameSeq := (twins.extend_childSeq now treeId tokens).trans twins.sameSeq
  have patched : (pair.step radix (.extend now treeId tokens)).patch.cache =
      (pair.patch.cache.extendTree radix treeId tokens).2 := rfl
  have follows : next pair model (.extend now treeId tokens) = model.next (.extend now treeId tokens)
      (Except.map .tokens (pair.reference.extend now treeId tokens).1) := rfl
  rw [Pair.referenceCharge] at same
  cases result : (pair.reference.extend now treeId tokens).1 with
  | error raised =>
    rw [result] at same follows
    obtain ⟨tree, unchanged⟩ := refused_still same.symm
    rw [unchanged] at patched
    apply twins.step_of laws inOrder unpressed
    · rw [follows, patched]
      exact twins.mirrors
    · rw [patched]
      exact sameSeq
    · rw [patched]
    · intro ns
      rw [patched]
      rfl
  | ok charged =>
    rw [result] at same follows
    obtain ⟨branch, isLive⟩ : ∃ branch, model.live.get? treeId = some branch := by
      cases isLive : model.live.get? treeId with
      | none =>
        rw [twins.agrees.extend_absent isLive] at result
        cases result
      | some branch => exact ⟨branch, rfl⟩
    obtain ⟨br, found, sameNs, sameTokens, zero⟩ := twins.mirrors.found isLive
    cases outcome : pair.patch.cache.extendTree radix treeId tokens with
    | mk answer after =>
      simp only [Pair.patchCharge, found, outcome] at same
      cases answer with
      | error raised => cases same
      | ok hit =>
        obtain ⟨-, _, -, -, elsewhere⟩ := SGLangKVBackend.extendTree_charges laws found outcome
        obtain ⟨limit, forkSeq, reserved, stored, isStored, storedNs, storedTokens, storedZero⟩ :=
          extendTree_unreserved found zero outcome
        rw [outcome] at patched
        apply twins.step_of laws inOrder unpressed
        · rw [follows, patched]
          simp only [Except.map, Kv.PrefixModel.next, isLive]
          exact twins.mirrors.insert _ isStored elsewhere (storedNs.trans sameNs)
            (storedTokens.trans (congrArg (· ++ tokens) sameTokens)) storedZero
        · rw [patched]
          exact sameSeq.trans forkSeq.symm
        · rw [patched]
          exact limit
        · intro ns
          rw [patched]
          exact reserved ns

theorem step (laws : radix.Laws) (inOrder : radix.EvictsInOrder) (twins : Twins capacity quota pair model)
    {call : SharedCall τ} (unpressed : pair.Unpressed quota call) (indifferent : pair.Indifferent quota call) :
    Twins capacity quota (pair.step radix call) (next pair model call) := by
  cases call with
  | createTree treeId => exact twins.createTree laws inOrder unpressed
  | forkBranch parentId childId => exact twins.forkBranch laws inOrder parentId childId
  | extend now treeId tokens => exact twins.extend laws inOrder unpressed indifferent
  | kill treeId => exact twins.kill laws inOrder treeId

end Twins

/-! ## Runs -/

section Runs

variable {τ : Type} [DecidableEq τ] {radix : RadixCache τ}

/-- The call is in the scope of the comparison, and freed tokens make no difference to it. -/
def SameRoom (quota : Option Int) (pair : Pair τ) (call : SharedCall τ) : Prop :=
  pair.Unpressed quota call ∧ pair.Indifferent quota call

def Pair.new (start : Kv.TreeKVCache τ) (quota : Option Int) : Pair τ := ⟨start, .new quota⟩

theorem twins_new {capacityTokens : Int} {quota : Option Int} {start : Kv.TreeKVCache τ}
    (created : Kv.TreeKVCache.new capacityTokens quota = .ok start) :
    Twins capacityTokens.toNat quota (.new start quota) Kv.PrefixModel.init := by
  obtain ⟨-, nonneg, within⟩ := Kv.Tracked.new_within created
  have firstSeq : start.childSeq = 1 := by
    unfold Kv.TreeKVCache.new at created
    split at created
    · cases created
    · split at created
      · cases created
      · cases created
        rfl
  exact {
    agrees := .of_new created
    within := within
    conserved := conserved_new quota
    mirrors := fun _ => rfl
    sameSeq := firstSeq
    limit := rfl
    nonneg := nonneg
    unreserved := fun _ => rfl
    freed := fun _ => le_rfl }

/-- As long as the freed tokens make no difference, the two refuse the same
extensions and charge the same for the others; where they make one, the verdicts
differ. -/
theorem budgets_alike_iff (laws : radix.Laws) (inOrder : radix.EvictsInOrder) {capacityTokens : Int}
    {quota : Option Int} {start : Kv.TreeKVCache τ}
    (created : Kv.TreeKVCache.new capacityTokens quota = .ok start) {pair : Pair τ}
    (reached : Reachable (Pair.Step radix) (SameRoom quota) (.new start quota) pair) (now : Nat) (treeId : String)
    (tokens : List τ) (unpressed : pair.Unpressed quota (.extend now treeId tokens)) :
    pair.referenceCharge now treeId tokens = pair.patchCharge radix treeId tokens ↔
      pair.Indifferent quota (.extend now treeId tokens) := by
  obtain ⟨model, twins⟩ : ∃ model, Twins capacityTokens.toNat quota pair model := by
    apply reached.invariant (motive := fun pair => ∃ model, Twins capacityTokens.toNat quota pair model)
      ⟨_, twins_new created⟩
    intro before call after twins sameRoom taken
    obtain ⟨model, twins⟩ := twins
    rw [← show before.step radix call = after from taken]
    exact ⟨_, twins.step laws inOrder sameRoom.1 sameRoom.2⟩
  exact twins.charges_alike_iff laws unpressed

instance (quota : Option Int) (pair : Pair τ) : ∀ call, Decidable (pair.Unpressed quota call)
  | .createTree treeId => inferInstanceAs (Decidable (∀ tid ∈ pair.reference.trees.values, tid.ns ≠ treeId))
  | .extend _ treeId tokens => inferInstanceAs (Decidable (∀ demand ∈ pair.demand treeId tokens,
      (∃ limit ∈ quota, limit < (demand.resident : Int) + demand.new) ∨
        pair.reference.residentTokens + demand.new ≤ pair.reference.capacity))
  | .forkBranch _ _ | .kill _ => inferInstanceAs (Decidable True)

instance (quota : Option Int) (pair : Pair τ) : ∀ call, Decidable (pair.Indifferent quota call)
  | .extend _ treeId tokens => inferInstanceAs (Decidable (∀ demand ∈ pair.demand treeId tokens,
      ∀ limit ∈ quota, 0 < demand.new → limit < (demand.resident : Int) + demand.new ∨
        demand.resident + pair.patch.released demand.ns + demand.new ≤ limit))
  | .createTree _ | .forkBranch _ _ | .kill _ => inferInstanceAs (Decidable True)

instance (quota : Option Int) (pair : Pair τ) (call : SharedCall τ) : Decidable (SameRoom quota pair call) :=
  inferInstanceAs (Decidable (_ ∧ _))

/-- A fork adds a token, and its kill frees it. -/
def freeingRun : List (SharedCall Nat) :=
  [.createTree "p", .extend 1 "p" [1, 2], .forkBranch "p" (some "c"), .extend 2 "c" [3], .kill "c"]

/-- The pair after the run, with the given limit on both sides. -/
def freed (limit : Nat) : Pair Nat :=
  freeingRun.foldl (Pair.step referenceCache) (.new (.fresh 100 (some limit)) (some limit))

/-- With a limit of four the freed token makes no difference. -/
theorem freed_budgets_alike : (freed 4).referenceCharge 3 "p" [5] = (freed 4).patchCharge referenceCache "p" [5] := by
  have created : Kv.TreeKVCache.new 100 (some 4) = .ok (.fresh 100 (some 4) : Kv.TreeKVCache Nat) := rfl
  have reached : Reachable (Pair.Step referenceCache) (SameRoom (some 4)) (.new (.fresh 100 (some 4)) (some 4))
      (freed 4) := reachable_foldl (by decide)
  exact (budgets_alike_iff referenceCache_laws referenceCache_evicts created reached 3 "p" [5] (by decide)).2 (by decide)

/-- With a limit of three the reference accepts a token that the patch refuses. -/
theorem freed_budgets_differ : ¬ ∀ pair : Pair Nat,
    Reachable (Pair.Step referenceCache) (Pair.Unpressed (some 3)) (.new (.fresh 100 (some 3)) (some 3)) pair →
      pair.Unpressed (some 3) (.extend 3 "p" [5]) →
        pair.referenceCharge 3 "p" [5] = pair.patchCharge referenceCache "p" [5] := by
  intro claim
  have reached : Reachable (Pair.Step referenceCache) (Pair.Unpressed (some 3)) (.new (.fresh 100 (some 3)) (some 3))
      (freed 3) := reachable_foldl (by decide)
  have same := claim (freed 3) reached (by decide)
  revert same
  decide

end Runs

end Agentfork.Sglang

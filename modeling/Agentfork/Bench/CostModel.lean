import Mathlib.Tactic.NormNum
import Mathlib.Tactic.NormNum.Ineq
import Agentfork.Kv.StatsLedger

/-! # What a fan-out costs

`model` predicts what a fan-out of siblings over one prefix is charged, with and
without sharing. The reference cache charges the second exactly, and the first
unless two siblings go on with the same token. -/

namespace Agentfork.Bench

open Kv Transition

variable {τ : Type} [DecidableEq τ]

/-! ## The model -/

/-- A scenario that has passed the checks of `__post_init__`, with the prices as they
are before they are floats. -/
structure Scenario where
  nChildren : Nat
  prefixTokens : Nat
  suffixTokens : Nat
  providerCachedDiscount : ℚ
  providerWriteMult : ℚ
  children : 1 ≤ nChildren
  request : prefixTokens + suffixTokens ≠ 0
  discount : 0 ≤ providerCachedDiscount
  writeMult : 0 ≤ providerWriteMult

structure Charge where
  prefillCharged : Nat
  resident : Nat
  deriving DecidableEq, Repr

/-- The rows that `model` returns. Its gains, which are quotients of these rounded to
two places, are left out. -/
structure CostPrediction where
  independent : Charge
  /-- `prefill_charged`; what is resident is not known -/
  providerCached : ℚ
  selfHostedRadix : Charge
  agentfork : Charge

def model (s : Scenario) : CostPrediction :=
  let n := s.nChildren
  let p := s.prefixTokens
  let u := s.suffixTokens
  { independent := ⟨n * (p + u), n * (p + u)⟩
    providerCached := p * s.providerWriteMult + (n - 1) * p * s.providerCachedDiscount + n * u
    selfHostedRadix := ⟨p + n * u, p + n * u⟩
    agentfork := ⟨p + n * u, p + n * u⟩ }

/-! ## Fan-outs -/

/-- The tokens of a fan-out: what all children share and what each child adds. -/
structure Workload (τ : Type) (s : Scenario) where
  stem : List τ
  suffix : String → List τ
  children : Finset String
  stemLength : stem.length = s.prefixTokens
  suffixLength : ∀ child ∈ children, (suffix child).length = s.suffixTokens
  count : children.card = s.nChildren

variable {s : Scenario} {work : Workload τ s}

/-- No two children go on with the same token. -/
def Workload.Diverges (work : Workload τ s) : Prop :=
  ∀ first ∈ work.children, ∀ second ∈ work.children, first ≠ second →
    ∀ token, (work.suffix first).head? = some token → (work.suffix second).head? ≠ some token

/-- One tree: a root with the stem, and the children. -/
structure Workload.Forked (work : Workload τ s) (root : String) (live : Dict String (Live τ)) : Prop where
  apart : root ∉ work.children
  parent : live.get? root = some ⟨root, work.stem⟩
  child : ∀ child ∈ work.children, live.get? child = some ⟨root, work.stem ++ work.suffix child⟩
  others : ∀ treeId, treeId ≠ root → treeId ∉ work.children → live.get? treeId = none

/-- A tree for each child, which has the whole prompt. -/
structure Workload.Separate (work : Workload τ s) (live : Dict String (Live τ)) : Prop where
  child : ∀ child ∈ work.children, live.get? child = some ⟨child, work.stem ++ work.suffix child⟩
  others : ∀ treeId, treeId ∉ work.children → live.get? treeId = none

omit [DecidableEq τ] in
theorem Workload.sum_suffix (work : Workload τ s) :
    ∑ child ∈ work.children, (work.suffix child).length = s.nChildren * s.suffixTokens := by
  rw [Finset.sum_const_nat work.suffixLength, work.count]

theorem Workload.Forked.totalCached {root : String} {model : PrefixModel τ} (forked : work.Forked root model.live) :
    model.totalCached = s.prefixTokens + (work.children.biUnion fun child => prefixes (work.suffix child)).card := by
  have placed : model.live.keys.toFinset.biUnion model.placed =
      (prefixes work.stem ∪ work.children.biUnion fun child => prefixes (work.stem ++ work.suffix child)).image
        (Sigma.mk root) := by
    ext ⟨ns, path⟩
    simp only [Finset.mem_biUnion, PrefixModel.mem_placed, Finset.mem_image, Finset.mem_union]
    constructor
    · rintro ⟨treeId, _, branch, isLive, rfl, onPath⟩
      by_cases isRoot : treeId = root
      · subst isRoot
        cases isLive.symm.trans forked.parent
        exact ⟨path, .inl onPath, rfl⟩
      · by_cases isChild : treeId ∈ work.children
        · cases isLive.symm.trans (forked.child treeId isChild)
          exact ⟨path, .inr ⟨treeId, isChild, onPath⟩, rfl⟩
        · cases isLive.symm.trans (forked.others treeId isRoot isChild)
    · rintro ⟨other, onPath | ⟨child, isChild, onPath⟩, same⟩
      · cases same
        exact ⟨root, List.mem_toFinset.2 (Dict.mem_of_get? forked.parent), _, forked.parent, rfl, onPath⟩
      · cases same
        have isLive := forked.child child isChild
        exact ⟨child, List.mem_toFinset.2 (Dict.mem_of_get? isLive), _, isLive, rfl, onPath⟩
  rw [PrefixModel.totalCached_eq, placed, Finset.card_image_of_injective _ sigma_mk_injective, card_prefixes_of_stem,
    work.stemLength]

/-- Trees share nothing. -/
theorem Workload.Separate.totalCached {model : PrefixModel τ} (separate : work.Separate model.live) :
    model.totalCached = s.nChildren * (s.prefixTokens + s.suffixTokens) := by
  have isChild : ∀ {treeId branch}, model.live.get? treeId = some branch →
      treeId ∈ work.children ∧ branch = ⟨treeId, work.stem ++ work.suffix treeId⟩ := by
    intro treeId branch isLive
    by_cases isChild : treeId ∈ work.children
    · exact ⟨isChild, Option.some.inj (isLive.symm.trans (separate.child treeId isChild))⟩
    · cases isLive.symm.trans (separate.others treeId isChild)
  have apart : ¬ model.Sharing := by
    rintro ⟨first, second, branch, other, _, differ, isBranch, isOther, sameNs, _, _⟩
    obtain ⟨_, rfl⟩ := isChild isBranch
    obtain ⟨_, rfl⟩ := isChild isOther
    exact differ sameNs
  have keys : model.live.keys.toFinset = work.children := by
    ext treeId
    rw [List.mem_toFinset, Dict.mem_keys, Dict.mem_iff_get?]
    exact ⟨fun ⟨branch, isLive⟩ => (isChild isLive).1, fun isChild => ⟨_, separate.child treeId isChild⟩⟩
  rw [PrefixModel.totalCached_eq_logical_iff.2 apart, PrefixModel.logical, Dict.total_eq_sum, keys, ← work.count]
  refine Finset.sum_const_nat fun child isChild => ?_
  rw [separate.child child isChild, Option.map_some, Option.getD_some, List.length_append, work.stemLength,
    work.suffixLength child isChild]

/-! ## Prediction and cache -/

/-- A run of a cache in which no `kill` has freed anything. -/
structure Unkilled (state : Booked τ) : Prop where
  start : ∃ capacityTokens perTreeBudget cache, TreeKVCache.new capacityTokens perTreeBudget = .ok cache ∧
    Reachable Booked.Step Booked.NamespaceFree (Booked.start cache) state
  nothingFreed : state.ledger.freed = 0

theorem Unkilled.charged {state : Booked τ} (unkilled : Unkilled state) :
    state.ledger.charged = state.model.totalCached ∧ state.cache.residentTokens = state.model.totalCached := by
  obtain ⟨_, _, cache, created, reached⟩ := unkilled.start
  have exact := Booked.Exact.of_reachable created reached
  have conserved := exact.conserved
  have resident := exact.resident
  rw [unkilled.nothingFreed] at conserved
  have isResident : state.cache.residentTokens = state.cache.stats.residentTokens := rfl
  rw [isResident]
  omega

/-- However the calls of a fan-out are ordered and its sequences cut, the reference
cache charges and holds at most what `model` predicts for agentfork, and that much
exactly if no two children go on with the same token; given a tree for each child it
charges and holds what is predicted for independent children. -/
theorem fanout_costs_as_predicted (work : Workload τ s) {root : String} {forked separate : Booked τ}
    (isForked : Unkilled forked) (isSeparate : Unkilled separate) (one : work.Forked root forked.model.live)
    (many : work.Separate separate.model.live) :
    forked.ledger.charged ≤ (model s).agentfork.prefillCharged ∧
    (forked.ledger.charged = (model s).agentfork.prefillCharged ↔ work.Diverges) ∧
    forked.cache.residentTokens ≤ (model s).agentfork.resident ∧
    (forked.cache.residentTokens = (model s).agentfork.resident ↔ work.Diverges) ∧
    separate.ledger.charged = (model s).independent.prefillCharged ∧
    separate.cache.residentTokens = (model s).independent.resident := by
  obtain ⟨chargedForked, residentForked⟩ := isForked.charged
  obtain ⟨chargedSeparate, residentSeparate⟩ := isSeparate.charged
  have isUnion := one.totalCached
  have all := many.totalCached
  have bound := card_biUnion_prefixes_le work.suffix work.children
  have exactly := card_biUnion_prefixes_eq_iff work.suffix work.children
  rw [work.sum_suffix] at bound exactly
  have most : forked.model.totalCached ≤ s.prefixTokens + s.nChildren * s.suffixTokens := by omega
  have diverges : forked.model.totalCached = s.prefixTokens + s.nChildren * s.suffixTokens ↔ work.Diverges := by
    rw [isUnion, Nat.add_left_cancel_iff]
    exact exactly
  refine ⟨?_, ?_, ?_, ?_, chargedSeparate.trans all, ?_⟩
  · rw [chargedForked]
    exact most
  · rw [chargedForked]
    exact diverges
  · rw [residentForked]
    exact_mod_cast most
  · rw [residentForked, ← diverges, model]
    exact Nat.cast_inj
  · rw [residentSeparate, all]
    rfl

def twoChildren : Scenario := ⟨2, 2, 1, 1/10, 5/4, by decide, by decide, by norm_num, by norm_num⟩

def twoBranches : Workload Nat twoChildren where
  stem := [1, 2]
  suffix child := if child = "a" then [3] else [4]
  children := {"a", "b"}
  stemLength := rfl
  suffixLength := by decide
  count := rfl

/-- The stem comes in two pieces, and one child goes on before the other is forked. -/
def forkedRun : List (Op Nat) :=
  [.createTree "p", .extend 1 "p" [1], .extend 2 "p" [2], .forkBranch "p" (some "a"), .extend 3 "a" [3],
    .forkBranch "p" (some "b"), .extend 4 "b" [4]]

def separateRun : List (Op Nat) := [.createTree "a", .createTree "b", .extend 1 "b" [1, 2, 4], .extend 2 "a" [1, 2, 3]]

def after (ops : List (Op Nat)) : Booked Nat := ops.foldl Booked.step (Booked.start (.fresh 100 none))

theorem twoBranches_diverge : twoBranches.Diverges := by
  intro first isFirst second isSecond differ token isHead isHead'
  have suffixes : ∀ child ∈ twoBranches.children, ∀ other ∈ twoBranches.children, child ≠ other →
      (twoBranches.suffix child).head? ≠ (twoBranches.suffix other).head? := by decide
  exact suffixes first isFirst second isSecond differ (isHead.trans isHead'.symm)

theorem twoBranches_cost : (after forkedRun).ledger.charged = 4 ∧ (after separateRun).ledger.charged = 6 := by
  have created : TreeKVCache.new 100 none = .ok (.fresh 100 none : TreeKVCache Nat) := rfl
  have isForked : Unkilled (after forkedRun) := ⟨⟨100, none, _, created, reachable_foldl (by decide)⟩, by decide⟩
  have isSeparate : Unkilled (after separateRun) := ⟨⟨100, none, _, created, reachable_foldl (by decide)⟩, by decide⟩
  have one : twoBranches.Forked "p" (after forkedRun).model.live := by
    refine ⟨by decide, by decide, by decide, fun treeId notRoot notChild => Dict.get?_eq_none.2 fun isLive => ?_⟩
    have keys : (after forkedRun).model.live.keys = ["p", "a", "b"] := by decide
    rw [← Dict.mem_keys, keys, List.mem_cons] at isLive
    exact notChild (by simpa [twoBranches] using isLive.resolve_left notRoot)
  have many : twoBranches.Separate (after separateRun).model.live := by
    refine ⟨by decide, fun treeId notChild => Dict.get?_eq_none.2 fun isLive => notChild ?_⟩
    have keys : (after separateRun).model.live.keys = ["a", "b"] := by decide
    rw [← Dict.mem_keys, keys] at isLive
    simpa [twoBranches] using isLive
  obtain ⟨_, charged, _, _, separate, _⟩ := fanout_costs_as_predicted twoBranches isForked isSeparate one many
  exact ⟨charged.2 twoBranches_diverge, separate⟩

end Agentfork.Bench

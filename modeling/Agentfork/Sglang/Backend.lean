import Agentfork.Library.Transition
import Agentfork.Sglang.BranchRows
import Agentfork.Sglang.ReferenceCache

/-! # The in-process adapter

`SGLangKVBackend` puts the engine's cache under the interface of the orchestrator.
`extend_tree` returns the length of the hit, so the adapter keeps the length of
every branch and works out the charge from it. The engine may shorten what a
branch has committed without telling the adapter; from then on the two disagree
about every extension of that branch. -/

namespace Agentfork.Sglang

open Transition

structure SGLangKVBackend (τ : Type) where
  cache : TreeRadixCache τ
  lengths : Dict String Nat

namespace SGLangKVBackend

variable {τ : Type} [DecidableEq τ]

section Methods

variable (radix : RadixCache τ)

def createTree (backend : SGLangKVBackend τ) (treeId : String) :
    Except TreeError (AgentBranch τ) × SGLangKVBackend τ :=
  match backend.cache.createAgentTree treeId none with
  | (.error raised, cache) => (.error raised, { backend with cache := cache })
  | (.ok branch, cache) => (.ok branch, ⟨cache, backend.lengths.insert treeId 0⟩)

def forkBranch (backend : SGLangKVBackend τ) (parentId : String) (childId : Option String) :
    Except TreeError (AgentBranch τ) × SGLangKVBackend τ :=
  match backend.lengths.get? parentId with
  | none => (.error (.keyError parentId), backend)
  | some parentLen =>
    match backend.cache.forkBranch radix parentId childId with
    | (.error raised, cache) => (.error raised, { backend with cache := cache })
    | (.ok branch, cache) => (.ok branch, ⟨cache, backend.lengths.insert branch.branchId parentLen⟩)

/-- `kill_tree` raises nothing, so the length is always dropped. -/
def kill (backend : SGLangKVBackend τ) (treeId : String) : Nat × SGLangKVBackend τ :=
  let (freed, cache) := backend.cache.killTree radix treeId
  (freed, ⟨cache, backend.lengths.erase treeId⟩)

def extend (backend : SGLangKVBackend τ) (treeId : String) (tokens : List τ) :
    Except TreeError Int × SGLangKVBackend τ :=
  match backend.lengths.get? treeId with
  | none => (.error (.keyError treeId), backend)
  | some oldLen =>
    match backend.cache.extendTree radix treeId tokens with
    | (.error raised, cache) => (.error raised, { backend with cache := cache })
    | (.ok hit, cache) =>
      let newTotal := oldLen + tokens.length
      let charged : Int := newTotal - max hit oldLen
      (.ok charged, ⟨cache, backend.lengths.insert treeId newTotal⟩)

end Methods

def hasTree (backend : SGLangKVBackend τ) (treeId : String) : Bool := treeId ∈ backend.lengths

end SGLangKVBackend

/-! ## Runs -/

/-- A call of the adapter, or of the engine past it; an eviction is memory
pressure from other requests. -/
inductive BackendOp (τ : Type) where
  | createTree (treeId : String)
  | forkBranch (parentId : String) (childId : Option String)
  | extend (treeId : String) (tokens : List τ)
  | kill (treeId : String)
  | demoteBranch (branchId : String)
  | promoteBranch (branchId : String)
  | invalidateTree (branchId : String)
  | evict (numTokens : Nat)
  deriving DecidableEq, Repr

namespace SGLangKVBackend

variable {τ : Type} [DecidableEq τ]

def new (pageSize : Nat) (treeQuotaTokens : Option Int) : SGLangKVBackend τ :=
  ⟨.new pageSize treeQuotaTokens, .empty⟩

/-- The state a call leaves, whether it returns or raises. -/
def perform (radix : RadixCache τ) (backend : SGLangKVBackend τ) : BackendOp τ → SGLangKVBackend τ
  | .createTree treeId => (backend.createTree treeId).2
  | .forkBranch parentId childId => (backend.forkBranch radix parentId childId).2
  | .extend treeId tokens => (backend.extend radix treeId tokens).2
  | .kill treeId => (backend.kill radix treeId).2
  | .demoteBranch branchId => { backend with cache := (backend.cache.demoteBranch radix branchId).2 }
  | .promoteBranch branchId => { backend with cache := (backend.cache.promoteBranch radix branchId).2 }
  | .invalidateTree branchId => { backend with cache := (backend.cache.invalidateTree radix branchId).2 }
  | .evict numTokens => { backend with
      cache := { backend.cache with tree := radix.evict backend.cache.tree numTokens } }

def Step (radix : RadixCache τ) (before : SGLangKVBackend τ) (op : BackendOp τ) (after : SGLangKVBackend τ) : Prop :=
  before.perform radix op = after

/-- The number of tokens that the engine has committed for a branch. -/
def committed (backend : SGLangKVBackend τ) (treeId : String) : Option Nat :=
  (backend.cache.branches.get? treeId).map fun br => br.tokenIds.length

/-- An extension that returns yields what the engine has charged, and leaves the
length that the engine has. -/
def Reports (radix : RadixCache τ) (backend : SGLangKVBackend τ) (treeId : String) (tokens : List τ) : Prop :=
  ∀ charged after br, backend.extend radix treeId tokens = (.ok charged, after) →
    backend.cache.branches.get? treeId = some br →
    charged = after.cache.chargedTokens br.ns - backend.cache.chargedTokens br.ns ∧
      after.lengths.get? treeId = after.committed treeId

/-! ## What an extension charges -/

variable {radix : RadixCache τ} {backend after : SGLangKVBackend τ} {treeId : String} {tokens : List τ}

/-- The engine charges what is neither cached nor committed already. -/
theorem extendTree_charges (laws : radix.Laws) {cache extended : TreeRadixCache τ} {br : AgentBranch τ} {hit : Nat}
    (found : cache.branches.get? treeId = some br)
    (outcome : cache.extendTree radix treeId tokens = (.ok hit, extended)) :
    extended.chargedTokens br.ns - cache.chargedTokens br.ns =
      (br.tokenIds.length + tokens.length : Nat) - max (hit : Int) br.tokenIds.length ∧
    ∃ stored, extended.branches.get? treeId = some stored ∧ stored.tokenIds = br.tokenIds ++ tokens ∧
      ∀ other, other ≠ treeId → extended.branches.get? other = cache.branches.get? other := by
  have bound := laws.match_bound cache.tree ⟨br.tokenIds ++ tokens, br.ns⟩
  simp only [TreeRadixCache.extendTree, found] at outcome
  split at outcome
  · cases outcome
  · next paid charged payment =>
    let matched : TreeRadixCache τ := { cache with
      tree := (radix.matchPrefix cache.tree ⟨br.tokenIds ++ tokens, br.ns⟩).1 }
    have isBranch : matched.branches.get? treeId = some br := found
    obtain ⟨⟨reserved, rfl⟩, -, -, elsewhere, -, grown⟩ := TreeRadixCache.payment_spec isBranch payment
    cases outcome
    constructor
    · -- the rest of the method leaves the charges alone
      rw [TreeRadixCache.chargedTokens_refreshPinnedTokens]
      let hit := (radix.matchPrefix cache.tree ⟨br.tokenIds ++ tokens, br.ns⟩).2.deviceIndices
      change (charged.updateTelemetry br.ns fun tel => { tel with
        savedTokens := tel.savedTokens + max ((hit : Int) - br.tokenIds.length) 0 }).chargedTokens br.ns - _ = _
      rw [TreeRadixCache.chargedTokens_updateTelemetry, grown, if_pos rfl]
      · change cache.chargedTokens br.ns + max (((br.tokenIds ++ tokens).length : Int) -
          (max hit br.tokenIds.length : Nat)) 0 - cache.chargedTokens br.ns =
          (br.tokenIds.length + tokens.length : Nat) - max (hit : Int) br.tokenIds.length
        change hit ≤ (br.tokenIds ++ tokens).length at bound
        rw [List.length_append] at bound ⊢
        omega
      · exact fun _ => rfl
    · exact ⟨_, (Dict.get?_insert _ _ _ _).trans (if_pos rfl), rfl, fun other differs =>
        (Dict.get?_insert _ _ _ _).trans ((if_neg differs).trans (elsewhere other differs))⟩

/-- A refused extension has walked the tree, and no more. -/
theorem extendTree_refused {cache refused : TreeRadixCache τ} {br : AgentBranch τ} {raised : TreeError}
    (found : cache.branches.get? treeId = some br)
    (outcome : cache.extendTree radix treeId tokens = (.error raised, refused)) :
    ∃ tree, refused = { cache with tree := tree } := by
  simp only [TreeRadixCache.extendTree, found] at outcome
  split at outcome
  · cases outcome
    exact ⟨_, rfl⟩
  · cases outcome

theorem extend_outcome {charged : Int} (returned : backend.extend radix treeId tokens = (.ok charged, after)) :
    ∃ oldLen hit, backend.lengths.get? treeId = some oldLen ∧
      backend.cache.extendTree radix treeId tokens = (.ok hit, after.cache) ∧
      charged = (oldLen + tokens.length : Nat) - max (hit : Int) oldLen ∧
      after.lengths = backend.lengths.insert treeId (oldLen + tokens.length) := by
  unfold extend at returned
  cases tracked : backend.lengths.get? treeId with
  | none =>
    rw [tracked] at returned
    cases returned
  | some oldLen =>
    simp only [tracked] at returned
    split at returned
    · cases returned
    · next hit cache outcome =>
      cases returned
      refine ⟨oldLen, hit, rfl, outcome, ?_, rfl⟩
      omega

/-- The adapter reports an extension rightly if and only if it knows the length
that the engine has committed. -/
theorem reports_iff (laws : radix.Laws) {charged : Int} {br : AgentBranch τ}
    (returned : backend.extend radix treeId tokens = (.ok charged, after))
    (found : backend.cache.branches.get? treeId = some br) :
    Reports radix backend treeId tokens ↔ backend.lengths.get? treeId = some br.tokenIds.length := by
  obtain ⟨oldLen, hit, tracked, outcome, isCharged, lengths⟩ := extend_outcome returned
  obtain ⟨grown, stored, isStored, isExtended, -⟩ := extendTree_charges laws found outcome
  have committed : after.committed treeId = some (br.tokenIds.length + tokens.length) := by
    rw [SGLangKVBackend.committed, isStored, Option.map_some, isExtended, List.length_append]
  have length : after.lengths.get? treeId = some (oldLen + tokens.length) := by
    rw [lengths, Dict.get?_insert, if_pos rfl]
  rw [tracked]
  constructor
  · intro reports
    have same := (reports charged after br returned found).2
    rw [length, committed] at same
    have same := Option.some.inj same
    rw [Nat.add_right_cancel same]
  · intro same
    obtain rfl : oldLen = br.tokenIds.length := Option.some.inj same
    intro otherCharged other otherBr otherReturned otherFound
    obtain ⟨rfl, rfl⟩ := Prod.mk.inj (otherReturned.symm.trans returned) |>.imp_left Except.ok.inj
    obtain rfl : otherBr = br := Option.some.inj (otherFound.symm.trans found)
    exact ⟨isCharged.trans grown.symm, length.trans committed.symm⟩

/-! ## Steps that keep the committed tokens -/

/-- Every committed token of a demoted branch is still cached. -/
def StillCached (radix : RadixCache τ) (cache : TreeRadixCache τ) (branchId : String) : Prop :=
  ∀ br ∈ cache.branches.get? branchId, br.speculative = true →
    br.tokenIds.length ≤ (radix.matchPrefix cache.tree ⟨br.tokenIds, br.ns⟩).2.deviceIndices

/-- No branch loses committed tokens, and no fork starts from fewer tokens than its
parent has committed. -/
def KeepsTokens (radix : RadixCache τ) (backend : SGLangKVBackend τ) : BackendOp τ → Prop
  | .forkBranch parentId childId =>
    TreeRadixCache.orElse childId s!"{parentId}/{backend.cache.forkSeq}" ∉ backend.cache.branches →
      StillCached radix backend.cache parentId
  | .promoteBranch branchId => StillCached radix backend.cache branchId
  | .invalidateTree branchId => ∀ br ∈ backend.cache.branches.get? branchId, br.tokenIds = []
  | _ => True

/-- The adapter has the length of every branch of the engine, and of no other. -/
def Tracks (backend : SGLangKVBackend τ) : Prop :=
  ∀ treeId, backend.lengths.get? treeId = backend.committed treeId

namespace Tracks

variable {br stored : AgentBranch τ} {cache : TreeRadixCache τ}

omit [DecidableEq τ] in
theorem of_branches (tracks : backend.Tracks) (same : cache.branches = backend.cache.branches) :
    Tracks ⟨cache, backend.lengths⟩ := by
  intro other
  rw [committed, same]
  exact tracks other

omit [DecidableEq τ] in
/-- A branch is stored together with its length. -/
theorem store (tracks : backend.Tracks) {length : Nat} (storedBack : cache.branches.get? treeId = some stored)
    (isLength : stored.tokenIds.length = length)
    (elsewhere : ∀ other, other ≠ treeId → cache.branches.get? other = backend.cache.branches.get? other) :
    Tracks ⟨cache, backend.lengths.insert treeId length⟩ := by
  intro other
  rw [Dict.get?_insert]
  by_cases here : other = treeId
  · subst here
    rw [if_pos rfl, committed, storedBack, Option.map_some, isLength]
  · rw [if_neg here, committed, elsewhere other here]
    exact tracks other

omit [DecidableEq τ] in
/-- A branch is stored back with as many tokens as before. -/
theorem replace (tracks : backend.Tracks) (found : backend.cache.branches.get? treeId = some br)
    (storedBack : cache.branches.get? treeId = some stored) (isLength : stored.tokenIds.length = br.tokenIds.length)
    (elsewhere : ∀ other, other ≠ treeId → cache.branches.get? other = backend.cache.branches.get? other) :
    Tracks ⟨cache, backend.lengths⟩ := by
  intro other
  by_cases here : other = treeId
  · subst here
    rw [tracks, committed, committed, found, storedBack, Option.map_some, Option.map_some, isLength]
  · rw [committed, elsewhere other here]
    exact tracks other

omit [DecidableEq τ] in
theorem createTree (tracks : backend.Tracks) (treeId : String) : (backend.createTree treeId).2.Tracks := by
  rw [SGLangKVBackend.createTree, TreeRadixCache.createAgentTree]
  split
  next raised cache outcome =>
    split at outcome
    · cases outcome
      exact tracks
    · cases outcome
  next branch cache outcome =>
    split at outcome
    · cases outcome
    · cases outcome
      exact tracks.store ((Dict.get?_insert _ _ _ _).trans (if_pos rfl)) rfl
        fun other differs => (Dict.get?_insert _ _ _ _).trans (if_neg differs)

omit [DecidableEq τ] in
/-- A fork starts from all the tokens of its parent when they are still cached. -/
theorem forkPin_length {parentId : String} {parent : AgentBranch τ}
    (found : cache.branches.get? parentId = some parent) (whole : StillCached radix cache parentId) :
    (cache.forkPin radix parent).2.1.length = parent.tokenIds.length := by
  rw [TreeRadixCache.forkPin]
  split
  next demoted => exact List.length_take.trans (Nat.min_eq_right (whole parent found demoted))
  next => split <;> rfl

theorem forkBranch (tracks : backend.Tracks) {parentId : String} {childId : Option String}
    (keeps : backend.KeepsTokens radix (.forkBranch parentId childId)) :
    (backend.forkBranch radix parentId childId).2.Tracks := by
  rw [SGLangKVBackend.forkBranch.eq_def]
  cases tracked : backend.lengths.get? parentId with
  | none => exact tracks
  | some parentLen =>
    obtain ⟨parent, found, rfl⟩ := Option.map_eq_some_iff.1 ((tracks parentId).symm.trans tracked)
    simp only [TreeRadixCache.forkBranch, found]
    by_cases taken : TreeRadixCache.orElse childId s!"{parentId}/{backend.cache.forkSeq}" ∈ backend.cache.branches
    · simp only [if_pos taken]
      exact tracks.of_branches rfl
    · simp only [if_neg taken]
      exact tracks.store ((Dict.get?_insert _ _ _ _).trans (if_pos rfl)) (forkPin_length found (keeps taken))
        fun other differs => (Dict.get?_insert _ _ _ _).trans (if_neg differs)

theorem kill (tracks : backend.Tracks) (treeId : String) : (backend.kill radix treeId).2.Tracks := by
  intro other
  change (backend.lengths.erase treeId).get? other =
    ((backend.cache.killTree radix treeId).2.branches.get? other).map _
  rw [Dict.get?_erase]
  by_cases here : other = treeId
  · subst here
    rw [if_pos rfl, TreeRadixCache.killTree_gone]
    rfl
  · rw [if_neg here, TreeRadixCache.killTree_elsewhere here]
    exact tracks other

theorem extend (laws : radix.Laws) (tracks : backend.Tracks) (treeId : String) (tokens : List τ) :
    (backend.extend radix treeId tokens).2.Tracks := by
  rw [SGLangKVBackend.extend.eq_def]
  cases tracked : backend.lengths.get? treeId with
  | none => exact tracks
  | some oldLen =>
    obtain ⟨br, found, rfl⟩ := Option.map_eq_some_iff.1 ((tracks treeId).symm.trans tracked)
    simp only
    split
    next raised cache outcome =>
      obtain ⟨tree, rfl⟩ := extendTree_refused found outcome
      exact tracks.of_branches rfl
    next hit cache outcome =>
      obtain ⟨-, stored, isStored, isExtended, elsewhere⟩ := extendTree_charges laws found outcome
      have isLength : stored.tokenIds.length = br.tokenIds.length + tokens.length := by
        rw [isExtended, List.length_append]
      exact tracks.store isStored isLength elsewhere

theorem demoteBranch (tracks : backend.Tracks) (branchId : String) :
    (backend.perform radix (.demoteBranch branchId)).Tracks := by
  rw [perform]
  cases found : backend.cache.branches.get? branchId with
  | none =>
    simp only [TreeRadixCache.demoteBranch, found]
    exact tracks
  | some br =>
    simp only [TreeRadixCache.demoteBranch, found]
    split
    next =>
      exact tracks.replace found ((Dict.get?_insert _ _ _ _).trans (if_pos rfl)) rfl
        fun other differs => (Dict.get?_insert _ _ _ _).trans (if_neg differs)
    next => exact tracks

theorem promoteBranch (tracks : backend.Tracks) {branchId : String}
    (keeps : backend.KeepsTokens radix (.promoteBranch branchId)) :
    (backend.perform radix (.promoteBranch branchId)).Tracks := by
  rw [perform]
  cases found : backend.cache.branches.get? branchId with
  | none =>
    simp only [TreeRadixCache.promoteBranch, found]
    exact tracks
  | some br =>
    simp only [TreeRadixCache.promoteBranch, found]
    split
    next demoted =>
      -- the match cuts nothing off
      exact tracks.replace found ((Dict.get?_insert _ _ _ _).trans (if_pos rfl))
        (List.length_take.trans (Nat.min_eq_right (keeps br found demoted)))
        fun other differs => (Dict.get?_insert _ _ _ _).trans (if_neg differs)
    next => exact tracks

/-- An invalidated branch has nothing committed. -/
theorem invalidateTree_empties (radix : RadixCache τ) {branchId : String}
    (found : cache.branches.get? branchId = some br) :
    ∃ stored, (cache.invalidateTree radix branchId).2.branches.get? branchId = some stored ∧ stored.tokenIds = [] := by
  have sameRow : (cache.repin radix branchId br).row branchId = cache.row branchId :=
    TreeRadixCache.repin_sameRows cache branchId br branchId
  rw [TreeRadixCache.row, TreeRadixCache.row, found, Option.map_some] at sameRow
  obtain ⟨repinned, foundRepinned, -⟩ := Option.map_eq_some_iff.1 sameRow
  simp only [TreeRadixCache.invalidateTree, found, foundRepinned]
  exact ⟨_, (Dict.get?_insert _ _ _ _).trans (if_pos rfl), rfl⟩

theorem invalidateTree (tracks : backend.Tracks) {branchId : String}
    (keeps : backend.KeepsTokens radix (.invalidateTree branchId)) :
    (backend.perform radix (.invalidateTree branchId)).Tracks := by
  cases found : backend.cache.branches.get? branchId with
  | none =>
    rw [perform]
    simp only [TreeRadixCache.invalidateTree, found]
    exact tracks
  | some br =>
    obtain ⟨stored, isStored, isEmpty⟩ := invalidateTree_empties radix found
    have isLength : stored.tokenIds.length = br.tokenIds.length := by rw [isEmpty, keeps br found]
    exact tracks.replace found isStored isLength fun other differs => TreeRadixCache.invalidateTree_elsewhere differs

theorem perform (laws : radix.Laws) (tracks : backend.Tracks) {op : BackendOp τ}
    (keeps : backend.KeepsTokens radix op) : (backend.perform radix op).Tracks := by
  cases op with
  | createTree treeId => exact tracks.createTree treeId
  | forkBranch parentId childId => exact tracks.forkBranch keeps
  | extend treeId tokens => exact tracks.extend laws treeId tokens
  | kill treeId => exact tracks.kill treeId
  | demoteBranch branchId => exact tracks.demoteBranch branchId
  | promoteBranch branchId => exact tracks.promoteBranch keeps
  | invalidateTree branchId => exact tracks.invalidateTree keeps
  | evict numTokens => exact tracks.of_branches rfl

end Tracks

/-- As long as the engine keeps what branches have committed, the adapter reports
every extension rightly. -/
theorem extensions_reported (laws : radix.Laws) (pageSize : Nat) (treeQuotaTokens : Option Int)
    {backend : SGLangKVBackend τ}
    (reached : Reachable (Step radix) (KeepsTokens radix) (.new pageSize treeQuotaTokens) backend)
    (treeId : String) (tokens : List τ) : Reports radix backend treeId tokens := by
  have tracks : backend.Tracks := by
    apply reached.invariant (motive := Tracks) (fun _ => rfl)
    intro before op after tracks keeps taken
    rw [← show before.perform radix op = after from taken]
    exact tracks.perform laws keeps
  intro charged after br returned found
  have tracked : backend.lengths.get? treeId = some br.tokenIds.length := by
    rw [tracks, committed, found, Option.map_some]
  exact (reports_iff laws returned found).2 tracked charged after br returned found

/-- A demoted branch is promoted, and its fork is extended, with all tokens cached. -/
def keepingRun : List (BackendOp Nat) :=
  [.createTree "a", .extend "a" [1, 2, 3], .demoteBranch "a", .forkBranch "a" (some "b"), .promoteBranch "a",
    .extend "b" [4], .kill "a"]

instance (backend : SGLangKVBackend Nat) (branchId : String) :
    Decidable (StillCached referenceCache backend.cache branchId) :=
  inferInstanceAs (Decidable (∀ br ∈ backend.cache.branches.get? branchId, _ → _))

instance : ∀ (backend : SGLangKVBackend Nat) (op : BackendOp Nat), Decidable (KeepsTokens referenceCache backend op)
  | backend, .forkBranch parentId _ =>
    inferInstanceAs (Decidable (_ → StillCached referenceCache backend.cache parentId))
  | backend, .promoteBranch branchId => inferInstanceAs (Decidable (StillCached referenceCache backend.cache branchId))
  | backend, .invalidateTree branchId =>
    inferInstanceAs (Decidable (∀ br ∈ backend.cache.branches.get? branchId, br.tokenIds = []))
  | _, .createTree _ | _, .extend _ _ | _, .kill _ | _, .demoteBranch _ | _, .evict _ =>
    inferInstanceAs (Decidable True)

/-- The state after the run. -/
def kept : SGLangKVBackend Nat := keepingRun.foldl (perform referenceCache) (.new 1 none)

theorem kept_extensions_reported : Reports referenceCache kept "b" [5, 6] :=
  extensions_reported referenceCache_laws 1 none (reachable_foldl (by decide)) "b" [5, 6]

/-- The engine drops the tokens of a branch, and the adapter keeps their number. -/
def invalidated : SGLangKVBackend Nat :=
  [BackendOp.createTree "a", .extend "a" [1, 2, 3], .forkBranch "a" (some "b"), .invalidateTree "a"].foldl
    (perform referenceCache) (.new 1 none)

/-- The engine finds the three tokens of the fork in the cache and charges nothing,
but the adapter reports three. -/
theorem invalidated_misreported : ¬ ∀ backend : SGLangKVBackend Nat,
    Reachable (Step referenceCache) always (.new 1 none) backend →
      ∀ treeId tokens, Reports referenceCache backend treeId tokens := by
  intro claim
  have reached : Reachable (Step referenceCache) always (.new 1 none) invalidated :=
    reachable_foldl ⟨trivial, trivial, trivial, trivial, trivial⟩
  have reports := claim invalidated reached "a" [1, 2, 3] 3 _ _ rfl rfl
  exact absurd reports.1 (by decide)

end SGLangKVBackend

end Agentfork.Sglang

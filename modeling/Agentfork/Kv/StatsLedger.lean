import Mathlib.Algebra.Order.BigOperators.Group.Finset
import Mathlib.Algebra.Order.Field.Rat
import Mathlib.Algebra.Order.Field.Basic
import Agentfork.Library.PrefixUnions
import Agentfork.Kv.TreeCacheSoundness

/-! # The statistics of the cache

`CacheStats` against a ledger of what the calls have returned: tokens that `extend`
charged, tokens that `kill` freed, and tokens that were asked for by either `extend` or
a fork. The statistics say where all of these have gone, and `dedup_ratio` says whether
branches share anything. -/

namespace Agentfork.Kv

open Transition

variable {τ : Type} [DecidableEq τ]

/-- `dedup_ratio` as the exact quotient: Python rounds it to the nearest float. -/
def CacheStats.dedupRatio (stats : CacheStats) : ℚ :=
  if stats.residentTokens = 0 then 1 else stats.logicalTokens / stats.residentTokens

structure Ledger where
  charged : Nat
  freed : Nat
  /-- the tokens of `extend` calls and those that forks took over from their parents -/
  requested : Nat
  deriving DecidableEq, Repr

/-- What a call adds to the ledger; `model` is what it found. -/
def Ledger.note (ledger : Ledger) (model : PrefixModel τ) : Op τ → Except CacheError Value → Ledger
  | .extend _ _ tokens, .ok (.tokens charged) =>
    { ledger with charged := ledger.charged + charged, requested := ledger.requested + tokens.length }
  | .forkBranch parentId _, .ok (.tree _) =>
    { ledger with requested := ledger.requested + ((model.live.get? parentId).map fun parent => parent.tokens.length).getD 0 }
  | .kill _, .ok (.tokens freed) => { ledger with freed := ledger.freed + freed }
  | _, _ => ledger

structure Booked (τ : Type) [DecidableEq τ] extends Tracked τ where
  ledger : Ledger

namespace Booked

def start (cache : TreeKVCache τ) : Booked τ := ⟨⟨cache, PrefixModel.init⟩, ⟨0, 0, 0⟩⟩

def step (state : Booked τ) (op : Op τ) : Booked τ where
  toTracked := state.toTracked.step op
  ledger := state.ledger.note state.model op (state.cache.apply op).1

def Step (before : Booked τ) (op : Op τ) (after : Booked τ) : Prop := before.step op = after

def NamespaceFree (state : Booked τ) (op : Op τ) : Prop := state.toTracked.NamespaceFree op

instance (state : Booked τ) (op : Op τ) : Decidable (state.NamespaceFree op) :=
  inferInstanceAs (Decidable (state.toTracked.NamespaceFree op))

end Booked

/-! ## What each call does to the statistics -/

namespace Agrees

variable {cache : TreeKVCache τ} {model : PrefixModel τ}

theorem createTree_stats (cache : TreeKVCache τ) (treeId : String) : (cache.createTree treeId).2.stats = cache.stats := by
  unfold TreeKVCache.createTree
  split <;> rfl

theorem matchTreePrefix_stats (cache : TreeKVCache τ) (now : Nat) (treeId : String) (tokens : List τ) :
    (cache.matchTreePrefix now treeId tokens).2.stats = cache.stats := by
  unfold TreeKVCache.matchTreePrefix
  split
  · rfl
  · split <;> rfl

/-- A fork that returns saves the prefill of all that the parent has. -/
theorem forkBranch_stats (agrees : Agrees cache model) (parentId : String) (childId : Option String) :
    (∃ raised, (cache.forkBranch parentId childId).1 = .error raised ∧ (cache.forkBranch parentId childId).2.stats = cache.stats) ∨
    ∃ tid branch, (cache.forkBranch parentId childId).1 = .ok tid ∧ model.live.get? parentId = some branch ∧
      model.live.get? tid.treeId = none ∧ (cache.forkBranch parentId childId).2.stats = { cache.stats with
        prefillTokensSaved := cache.stats.prefillTokensSaved + branch.tokens.length
        logicalTokens := cache.stats.logicalTokens + branch.tokens.length } := by
  unfold TreeKVCache.forkBranch
  cases parentFound : cache.trees.get? parentId with
  | none => exact .inl ⟨_, rfl, rfl⟩
  | some parent =>
    obtain ⟨branch, live, nsEqual⟩ := agrees.branch_of_tree parentFound
    obtain ⟨tree, rootFound⟩ := agrees.root_of_branch live
    have ends : tree.Ends branch.tokens := agrees.ends parentId branch tree live rootFound
    rw [nsEqual] at rootFound
    simp only
    split
    · exact .inl ⟨_, rfl, rfl⟩
    · next absent =>
      simp only [agrees.tokens_of_branch live, rootFound, RadixTree.wholeLength_of_ends ends]
      exact .inr ⟨_, branch, rfl, live, agrees.tree_absent.1 (Dict.get?_eq_none.2 absent), rfl⟩

theorem kill_stats (agrees : Agrees cache model) (treeId : String) :
    (model.live.get? treeId = none ∧ (cache.kill treeId).1 = .ok 0 ∧ (cache.kill treeId).2.stats = cache.stats) ∨
    ∃ branch freed, model.live.get? treeId = some branch ∧ (cache.kill treeId).1 = .ok freed ∧
      (cache.kill treeId).2.stats = { cache.stats with
        residentTokens := cache.stats.residentTokens - freed
        logicalTokens := cache.stats.logicalTokens - branch.tokens.length } := by
  unfold TreeKVCache.kill
  cases treeFound : cache.trees.get? treeId with
  | none => exact .inl ⟨agrees.tree_absent.1 treeFound, rfl, rfl⟩
  | some tid =>
    obtain ⟨branch, live, nsEqual⟩ := agrees.branch_of_tree treeFound
    obtain ⟨tree, rootFound⟩ := agrees.root_of_branch live
    rw [nsEqual] at rootFound
    simp only [rootFound, agrees.tokens_of_branch live]
    exact .inr ⟨branch, _, live, rfl, rfl⟩

/-- What an `extend` charges is new, so it is part of what it was given. -/
theorem charged_le (agrees : Agrees cache model) {now : Nat} {treeId : String} {tokens : List τ} {charged : Nat}
    (returned : (cache.extend now treeId tokens).1 = .ok charged) : charged ≤ tokens.length := by
  obtain ⟨branch, live, rfl⟩ := (agrees.extend_spec now treeId tokens).2 charged returned
  have mine : prefixes branch.tokens ⊆ model.cached branch.ns := by
    intro path isPrefix
    obtain ⟨nonempty, onPath⟩ := mem_prefixes.1 isPrefix
    exact PrefixModel.mem_cached.2 ⟨nonempty, treeId, (mem_owners_iff live path).2 onPath⟩
  calc (prefixes (branch.tokens ++ tokens) \ model.cached branch.ns).card
      ≤ (prefixes (branch.tokens ++ tokens) \ prefixes branch.tokens).card :=
        Finset.card_le_card (Finset.sdiff_subset_sdiff subset_rfl mine)
    _ = tokens.length := by
        rw [Finset.card_sdiff_of_subset (prefixes_subset (List.prefix_append _ _)), card_prefixes, card_prefixes,
          List.length_append, Nat.add_sub_cancel_left]

theorem extend_stats (agrees : Agrees cache model) (now : Nat) (treeId : String) (tokens : List τ) :
    (∃ raised, (cache.extend now treeId tokens).1 = .error raised ∧ (cache.extend now treeId tokens).2.stats = cache.stats) ∨
    ∃ branch charged, model.live.get? treeId = some branch ∧ (cache.extend now treeId tokens).1 = .ok charged ∧
      (cache.extend now treeId tokens).2.stats = { cache.stats with
        residentTokens := cache.stats.residentTokens + charged
        logicalTokens := cache.stats.logicalTokens + tokens.length
        prefillTokensCharged := cache.stats.prefillTokensCharged + charged
        prefillTokensSaved := cache.stats.prefillTokensSaved +
          if charged < tokens.length then tokens.length - charged else 0 } := by
  unfold TreeKVCache.extend
  cases treeFound : cache.trees.get? treeId with
  | none => exact .inl ⟨_, rfl, rfl⟩
  | some tid =>
    obtain ⟨branch, live, nsEqual⟩ := agrees.branch_of_tree treeFound
    obtain ⟨tree, rootFound⟩ := agrees.root_of_branch live
    rw [nsEqual] at rootFound
    have walkedAgrees := agrees.walk rootFound now (branch.tokens ++ tokens)
    have bound := (RadixTree.walk_separates (NodeData.touch now) tree (branch.tokens ++ tokens)).1
    simp only [agrees.tokens_of_branch live, rootFound]
    split
    · exact .inl ⟨_, rfl, rfl⟩
    · split
      · rw [walkedAgrees.maybeEvict_eq]
        split
        · next error _ equal =>
          split at equal
          · cases equal
          · cases equal
            exact .inl ⟨_, rfl, rfl⟩
        · next _ equal =>
          split at equal
          · cases equal
            refine .inr ⟨branch, _, live, rfl, ?_⟩
            simp only [TreeKVCache.chargeExtend, TreeKVCache.addRefs, TreeKVCache.insertSuffix, Dict.get?_insert, if_pos,
              List.length_drop]
          · cases equal
      · next whole =>
        refine .inr ⟨branch, _, live, rfl, ?_⟩
        simp only [TreeKVCache.chargeExtend, TreeKVCache.addRefs, Dict.get?_insert, if_pos]
        have nothing : (branch.tokens ++ tokens).length - (tree.walk (NodeData.touch now) (branch.tokens ++ tokens)).2 = 0 := by
          omega
        rw [nothing]
        simp

end Agrees

/-! ## Sharing -/

namespace PrefixModel

/-- What the cache would hold if no branch shared anything. -/
def logical (model : PrefixModel τ) : Nat := model.live.total fun branch => branch.tokens.length

/-- Two live branches of one tree begin with the same token. -/
def Sharing (model : PrefixModel τ) : Prop := ∃ first second branch other token, first ≠ second ∧
  model.live.get? first = some branch ∧ model.live.get? second = some other ∧ branch.ns = other.ns ∧
    branch.tokens.head? = some token ∧ other.tokens.head? = some token

/-- The prefixes of one branch, each with the namespace. -/
def placed (model : PrefixModel τ) (treeId : String) : Finset (Σ _ : String, List τ) :=
  match model.live.get? treeId with
  | none => ∅
  | some branch => (prefixes branch.tokens).image (Sigma.mk branch.ns)

theorem mem_placed {model : PrefixModel τ} {treeId ns : String} {path : List τ} :
    ⟨ns, path⟩ ∈ model.placed treeId ↔
      ∃ branch, model.live.get? treeId = some branch ∧ branch.ns = ns ∧ path ∈ prefixes branch.tokens := by
  unfold placed
  cases model.live.get? treeId with
  | none => simp
  | some branch =>
    simp only [Finset.mem_image, Option.some.injEq, exists_eq_left']
    constructor
    · rintro ⟨other, isPrefix, same⟩
      cases same
      exact ⟨rfl, isPrefix⟩
    · rintro ⟨rfl, isPrefix⟩
      exact ⟨path, isPrefix, rfl⟩

theorem totalCached_eq (model : PrefixModel τ) : model.totalCached = (model.live.keys.toFinset.biUnion model.placed).card := by
  have same : model.namespaces.sigma model.cached = model.live.keys.toFinset.biUnion model.placed := by
    ext ⟨ns, path⟩
    simp only [Finset.mem_sigma, mem_namespaces, mem_cached, Finset.mem_biUnion, List.mem_toFinset, Dict.mem_keys,
      mem_placed]
    constructor
    · rintro ⟨_, nonempty, treeId, owns⟩
      obtain ⟨branch, live, here, onPath⟩ := mem_owners.1 owns
      exact ⟨treeId, Dict.mem_of_get? live, branch, live, here, mem_prefixes.2 ⟨nonempty, onPath⟩⟩
    · rintro ⟨treeId, _, branch, live, here, isPrefix⟩
      obtain ⟨nonempty, onPath⟩ := mem_prefixes.1 isPrefix
      exact ⟨⟨treeId, branch, live, here⟩, nonempty, treeId, mem_owners.2 ⟨branch, live, here, onPath⟩⟩
  rw [← same, Finset.card_sigma, totalCached]

theorem logical_eq (model : PrefixModel τ) : model.logical = ∑ treeId ∈ model.live.keys.toFinset, (model.placed treeId).card := by
  rw [logical, Dict.total_eq_sum]
  refine Finset.sum_congr rfl fun treeId _ => ?_
  unfold placed
  cases model.live.get? treeId with
  | none => rfl
  | some branch =>
    rw [Option.map_some, Option.getD_some, Finset.card_image_of_injective _ sigma_mk_injective, card_prefixes]

theorem totalCached_le_logical (model : PrefixModel τ) : model.totalCached ≤ model.logical := by
  rw [totalCached_eq, logical_eq]
  exact Finset.card_biUnion_le

theorem logical_eq_zero {model : PrefixModel τ} (empty : model.totalCached = 0) : model.logical = 0 := by
  rw [totalCached_eq, Finset.card_eq_zero] at empty
  rw [logical_eq]
  refine Finset.sum_eq_zero fun treeId live => Finset.card_eq_zero.2 (Finset.subset_empty.1 ?_)
  exact empty ▸ Finset.subset_biUnion_of_mem model.placed live

/-- Nothing is saved exactly where no branch begins like another one of its tree. -/
theorem totalCached_eq_logical_iff {model : PrefixModel τ} : model.totalCached = model.logical ↔ ¬ model.Sharing := by
  rw [totalCached_eq, logical_eq, card_biUnion_eq_sum_iff]
  constructor
  · rintro apart ⟨first, second, branch, other, token, differ, isBranch, isOther, sameNs, isHead, isHead'⟩
    have disjoint := apart (List.mem_toFinset.2 (Dict.mem_keys.2 (Dict.mem_of_get? isBranch)))
      (List.mem_toFinset.2 (Dict.mem_keys.2 (Dict.mem_of_get? isOther))) differ
    refine Finset.disjoint_left.1 disjoint (mem_placed.2 ⟨branch, isBranch, rfl, head_mem_prefixes isHead⟩) ?_
    exact mem_placed.2 ⟨other, isOther, sameNs.symm, head_mem_prefixes isHead'⟩
  · intro apart first _ second _ differ
    refine Finset.disjoint_left.2 fun ⟨ns, path⟩ inFirst inSecond => apart ?_
    obtain ⟨branch, isBranch, here, isPrefix⟩ := mem_placed.1 inFirst
    obtain ⟨other, isOther, there, isPrefix'⟩ := mem_placed.1 inSecond
    obtain ⟨token, isToken, isHead⟩ := head_of_mem_prefixes isPrefix
    obtain ⟨token', isToken', isHead'⟩ := head_of_mem_prefixes isPrefix'
    obtain rfl : token = token' := Option.some.inj (isToken.symm.trans isToken')
    exact ⟨first, second, branch, other, token, differ, isBranch, isOther, here.trans there.symm, isHead, isHead'⟩

end PrefixModel

/-! ## What the statistics are -/

namespace Booked

structure Exact (state : Booked τ) : Prop where
  agrees : Agrees state.cache state.model
  logical : state.cache.stats.logicalTokens = state.model.logical
  charged : state.cache.stats.prefillTokensCharged = state.ledger.charged
  conserved : state.cache.stats.residentTokens + state.ledger.freed = state.ledger.charged
  requested : state.cache.stats.prefillTokensCharged + state.cache.stats.prefillTokensSaved = state.ledger.requested
  evicted : state.cache.stats.evictedTokens = 0

namespace Exact

variable {state : Booked τ}

theorem start {capacityTokens : Int} {perTreeBudget : Option Int} {cache : TreeKVCache τ}
    (created : TreeKVCache.new capacityTokens perTreeBudget = .ok cache) : (start cache).Exact := by
  have agrees := Agrees.of_new created
  unfold TreeKVCache.new at created
  split at created
  · cases created
  · split at created
    · cases created
    · cases created
      exact ⟨agrees, rfl, rfl, rfl, rfl, rfl⟩

/-- A call that moves no statistic and is not noted. -/
theorem quiet (exact : state.Exact) {cache : TreeKVCache τ} {model : PrefixModel τ} (agrees : Agrees cache model)
    (stats : cache.stats = state.cache.stats) (logical : model.logical = state.model.logical) :
    Exact ⟨⟨cache, model⟩, state.ledger⟩ := by
  obtain ⟨_, isLogical, charged, conserved, requested, evicted⟩ := exact
  refine ⟨agrees, ?_, ?_, ?_, ?_, ?_⟩ <;> simp only [stats, logical]
  · exact isLogical
  · exact charged
  · exact conserved
  · exact requested
  · exact evicted

theorem step (exact : state.Exact) {op : Op τ} (free : state.NamespaceFree op) : (state.step op).Exact := by
  have agrees : Agrees (state.cache.perform op) (state.model.next op (state.cache.apply op).1) :=
    exact.agrees.perform op (Tracked.unused_of_free exact.agrees free)
  have logical := exact.logical
  have charged := exact.charged
  have conserved := exact.conserved
  have requested := exact.requested
  have evicted := exact.evicted
  unfold Booked.step Tracked.step
  cases op with
  | createTree treeId =>
    have stats := Agrees.createTree_stats state.cache treeId
    refine exact.quiet agrees stats ?_
    simp only [TreeKVCache.apply, Prod.map, PrefixModel.next]
    cases created : (state.cache.createTree treeId).1 with
    | error raised => rfl
    | ok tid =>
      have absent : state.model.live.get? treeId = none := by
        refine exact.agrees.tree_absent.1 (Dict.get?_eq_none.2 fun isThere => ?_)
        rw [TreeKVCache.createTree, if_pos isThere] at created
        cases created
      have total := Dict.total_insert (fun branch : Live τ => branch.tokens.length) state.model.live treeId ⟨treeId, []⟩
      rw [absent] at total
      exact total
  | matchPrefix now tokens => exact exact.quiet agrees rfl rfl
  | matchTreePrefix now treeId tokens =>
    exact exact.quiet agrees (Agrees.matchTreePrefix_stats state.cache now treeId tokens) rfl
  | forkBranch parentId childId =>
    obtain ⟨raised, isRaised, stats⟩ | ⟨tid, parent, isTid, live, absent, stats⟩ :=
      exact.agrees.forkBranch_stats parentId childId
    · have result : (state.cache.apply (.forkBranch parentId childId)).1 = .error raised := by
        simp only [TreeKVCache.apply, Prod.map, isRaised, Except.map]
      rw [result] at agrees ⊢
      exact exact.quiet agrees stats rfl
    · have result : (state.cache.apply (.forkBranch parentId childId)).1 = .ok (.tree tid) := by
        simp only [TreeKVCache.apply, Prod.map, isTid, Except.map]
      rw [result] at agrees ⊢
      have total := Dict.total_insert (fun branch : Live τ => branch.tokens.length) state.model.live tid.treeId parent
      simp only [absent, Option.map_none, Option.getD_none, Nat.add_zero] at total
      refine ⟨agrees, ?_, ?_, ?_, ?_, ?_⟩ <;>
        simp only [TreeKVCache.perform, TreeKVCache.apply, Prod.map, id, stats, PrefixModel.next, PrefixModel.logical, live,
          total, Ledger.note, Option.map_some, Option.getD_some]
      · simp only [PrefixModel.logical] at logical
        push_cast
        omega
      · exact charged
      · exact conserved
      · push_cast
        omega
      · exact evicted
  | extend now treeId tokens =>
    obtain ⟨raised, isRaised, stats⟩ | ⟨branch, count, live, isCount, stats⟩ := exact.agrees.extend_stats now treeId tokens
    · have result : (state.cache.apply (.extend now treeId tokens)).1 = .error raised := by
        simp only [TreeKVCache.apply, Prod.map, isRaised, Except.map]
      rw [result] at agrees ⊢
      exact exact.quiet agrees stats rfl
    · have result : (state.cache.apply (.extend now treeId tokens)).1 = .ok (.tokens count) := by
        simp only [TreeKVCache.apply, Prod.map, isCount, Except.map]
      rw [result] at agrees ⊢
      have total := Dict.total_insert (fun branch : Live τ => branch.tokens.length) state.model.live treeId
        { branch with tokens := branch.tokens ++ tokens }
      simp only [live, Option.map_some, Option.getD_some, List.length_append] at total
      have bound := exact.agrees.charged_le isCount
      refine ⟨agrees, ?_, ?_, ?_, ?_, ?_⟩ <;>
        simp only [TreeKVCache.perform, TreeKVCache.apply, Prod.map, id, stats, PrefixModel.next, PrefixModel.logical, live,
          Ledger.note]
      · simp only [PrefixModel.logical] at logical
        omega
      · push_cast
        omega
      · push_cast
        omega
      · split <;> push_cast <;> omega
      · exact evicted
  | kill treeId =>
    obtain ⟨absent, nothing, stats⟩ | ⟨branch, freed, live, isFreed, stats⟩ := exact.agrees.kill_stats treeId
    · have result : (state.cache.apply (.kill treeId)).1 = .ok (.tokens 0) := by
        simp only [TreeKVCache.apply, Prod.map, nothing, Except.map]
      rw [result] at agrees ⊢
      refine exact.quiet agrees stats ?_
      have total := Dict.total_erase (fun branch : Live τ => branch.tokens.length) state.model.live treeId
      rw [absent] at total
      exact total
    · have result : (state.cache.apply (.kill treeId)).1 = .ok (.tokens freed) := by
        simp only [TreeKVCache.apply, Prod.map, isFreed, Except.map]
      rw [result] at agrees ⊢
      have total := Dict.total_erase (fun branch : Live τ => branch.tokens.length) state.model.live treeId
      simp only [live, Option.map_some, Option.getD_some] at total
      refine ⟨agrees, ?_, ?_, ?_, ?_, ?_⟩ <;>
        simp only [TreeKVCache.perform, TreeKVCache.apply, Prod.map, id, stats, PrefixModel.next, PrefixModel.logical,
          Ledger.note]
      · simp only [PrefixModel.logical] at logical
        omega
      · exact charged
      · push_cast
        omega
      · exact requested
      · exact evicted

theorem of_reachable {capacityTokens : Int} {perTreeBudget : Option Int} {cache : TreeKVCache τ}
    (created : TreeKVCache.new capacityTokens perTreeBudget = .ok cache)
    (reached : Reachable Step NamespaceFree (Booked.start cache) state) : state.Exact :=
  reached.invariant (start created) fun _ _ _ exact free taken => taken ▸ exact.step free

theorem resident (exact : state.Exact) : state.cache.stats.residentTokens = state.model.totalCached := by
  rw [exact.agrees.resident, ← exact.agrees.reachableTokens_eq]
  rfl

end Exact

/-- After every run of calls: `logical_tokens` is what the live branches hold together,
every token that was charged is resident or has been freed by a kill, everything that was
asked for was either charged or saved, and `dedup_ratio` is never below one, and one
exactly when no live branch begins like another one of its tree. -/
theorem stats_are_exact {capacityTokens : Int} {perTreeBudget : Option Int} {cache : TreeKVCache τ} {state : Booked τ}
    (created : TreeKVCache.new capacityTokens perTreeBudget = .ok cache)
    (reached : Reachable Step NamespaceFree (Booked.start cache) state) :
    state.cache.stats.logicalTokens = state.model.logical ∧
    state.cache.stats.prefillTokensCharged = state.ledger.charged ∧
    state.cache.residentTokens + state.ledger.freed = state.ledger.charged ∧
    state.cache.stats.prefillTokensCharged + state.cache.stats.prefillTokensSaved = state.ledger.requested ∧
    state.cache.stats.evictedTokens = 0 ∧
    1 ≤ state.cache.stats.dedupRatio ∧ (state.cache.stats.dedupRatio = 1 ↔ ¬ state.model.Sharing) := by
  have exact := Exact.of_reachable created reached
  have resident := exact.resident
  have logical := exact.logical
  have bound := state.model.totalCached_le_logical
  refine ⟨logical, exact.charged, exact.conserved, exact.requested, exact.evicted, ?_⟩
  rw [← PrefixModel.totalCached_eq_logical_iff, CacheStats.dedupRatio]
  split
  · next empty =>
    have nothing : state.model.totalCached = 0 := by omega
    exact ⟨le_rfl, iff_of_true rfl (nothing.trans (PrefixModel.logical_eq_zero nothing).symm)⟩
  · next nonempty =>
    have positive : (0 : ℚ) < state.cache.stats.residentTokens := by
      rw [resident] at nonempty ⊢
      exact_mod_cast Nat.pos_of_ne_zero (by exact_mod_cast nonempty)
    have larger : (state.cache.stats.residentTokens : ℚ) ≤ state.cache.stats.logicalTokens := by
      rw [resident, logical]
      exact_mod_cast bound
    refine ⟨(one_le_div positive).2 larger, ?_⟩
    rw [div_eq_one_iff_eq positive.ne', resident, logical]
    exact_mod_cast eq_comm

/-- Two forks of a branch, an `extend` that meets what a fork has cached, and another tree that comes and goes. -/
def sharedRun : List (Op Nat) :=
  [.createTree "p", .extend 1 "p" [1, 2, 3], .forkBranch "p" (some "c"), .extend 2 "c" [4], .forkBranch "p" none,
    .extend 3 "p" [4, 5], .createTree "q", .extend 4 "q" [7, 8], .kill "q", .kill "c"]

theorem sharedRun_stats_exact :
    let state := sharedRun.foldl step (start (.fresh 100 none))
    state.cache.stats = ⟨5, 8, 7, 7, 0⟩ ∧ state.ledger = ⟨7, 2, 14⟩ ∧ state.cache.stats.dedupRatio ≠ 1 := by
  have created : TreeKVCache.new 100 none = .ok (.fresh 100 none : TreeKVCache Nat) := rfl
  have reached : Reachable Step NamespaceFree (start (.fresh 100 none)) (sharedRun.foldl step (start (.fresh 100 none))) :=
    reachable_foldl (by decide)
  obtain ⟨_, _, _, _, _, _, apart⟩ := stats_are_exact created reached
  refine ⟨by decide, by decide, fun isOne => apart.1 isOne ?_⟩
  exact ⟨"p", "p/2", ⟨"p", [1, 2, 3, 4, 5]⟩, ⟨"p", [1, 2, 3]⟩, 1, by decide, by decide, by decide, rfl, rfl, rfl⟩

end Booked

end Agentfork.Kv

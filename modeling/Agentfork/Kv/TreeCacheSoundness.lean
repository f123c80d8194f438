import Agentfork.Kv.AgreementExtend
import Agentfork.Library.Transition

/-! # Runs of the cache

A run that never re-creates a namespace refines the set model. Re-creating the
root of a namespace is what may lose tokens: it replaces the tree of branches
that are still live, so it is safe exactly when none of them holds a token. -/

namespace Agentfork.Kv

open Transition

variable {τ : Type} [DecidableEq τ]

/-! ## One step -/

/-- The state a call leaves, whatever it returns or raises. -/
def TreeKVCache.perform (cache : TreeKVCache τ) (op : Op τ) : TreeKVCache τ := (cache.apply op).2

theorem Agrees.perform {cache : TreeKVCache τ} {model : PrefixModel τ} (agrees : Agrees cache model)
    (op : Op τ) (allowed : ∀ treeId, op = .createTree treeId → model.live.get? treeId = none →
      Unused model treeId) : Agrees (cache.perform op) (model.next op (cache.apply op).1) := by
  cases op with
  | createTree treeId => exact agrees.createTree (allowed treeId rfl)
  | forkBranch parentId childId => exact agrees.forkBranch_agrees
  | extend now treeId tokens => exact (agrees.extend_spec now treeId tokens).1
  | kill treeId => exact agrees.kill_agrees treeId
  | matchPrefix now tokens => exact agrees.matchPrefix_agrees now tokens
  | matchTreePrefix now treeId tokens => exact agrees.matchTreePrefix_agrees now treeId tokens

/-- The constructor checks its limits and starts empty. -/
theorem Agrees.of_new {capacityTokens : Int} {perTreeBudget : Option Int} {start : TreeKVCache τ}
    (created : TreeKVCache.new capacityTokens perTreeBudget = .ok start) :
    Agrees start PrefixModel.init := by
  unfold TreeKVCache.new at created
  split at created
  · cases created
  · split at created
    · cases created
    · cases created
      exact Agrees.fresh _ _

/-! ## Refinement of the set model -/

/-- A cache together with the set model that follows its run. -/
structure Tracked (τ : Type) [DecidableEq τ] where
  cache : TreeKVCache τ
  model : PrefixModel τ

namespace Tracked

def step (state : Tracked τ) (op : Op τ) : Tracked τ where
  cache := state.cache.perform op
  model := state.model.next op (state.cache.apply op).1

def Step (before : Tracked τ) (op : Op τ) (after : Tracked τ) : Prop := before.step op = after

/-- `create_tree` is not given the namespace of a live branch. -/
def NamespaceFree (state : Tracked τ) : Op τ → Prop
  | .createTree treeId => ∀ tid ∈ state.cache.trees.values, tid.ns ≠ treeId
  | _ => True

instance (state : Tracked τ) : ∀ op : Op τ, Decidable (state.NamespaceFree op)
  | .createTree treeId => inferInstanceAs (Decidable (∀ tid ∈ state.cache.trees.values, tid.ns ≠ treeId))
  | .forkBranch _ _ | .extend _ _ _ | .kill _ | .matchPrefix _ _ | .matchTreePrefix _ _ _ =>
    inferInstanceAs (Decidable True)

/-- A free namespace has no branch. -/
theorem unused_of_free {state : Tracked τ} (agrees : Agrees state.cache state.model) {op : Op τ}
    (free : state.NamespaceFree op) (treeId : String) (isCreate : op = .createTree treeId)
    (_ : state.model.live.get? treeId = none) : Agrees.Unused state.model treeId := by
  intro other branch live here
  subst isCreate
  obtain ⟨tid, found, nsEqual⟩ := agrees.tree_of_branch live
  exact absurd (nsEqual.trans here) (free tid (Dict.mem_values.2 ⟨other, found⟩))

theorem agrees_of_reachable {start state : Tracked τ} (initial : Agrees start.cache start.model)
    (reached : Reachable Step NamespaceFree start state) : Agrees state.cache state.model := by
  refine reached.invariant (motive := fun state => Agrees state.cache state.model) initial ?_
  intro before op after agrees free taken
  subst taken
  exact agrees.perform op (unused_of_free agrees free)

/-- The cache refines the set model: what it holds, what `extend` charges, what
`kill` frees, what a lookup matches and what `resident_tokens` counts. -/
theorem refines_prefixModel {capacityTokens : Int} {perTreeBudget : Option Int}
    {start : TreeKVCache τ} {state : Tracked τ}
    (created : TreeKVCache.new capacityTokens perTreeBudget = .ok start)
    (reached : Reachable Step NamespaceFree ⟨start, PrefixModel.init⟩ state) :
    (∀ ns, state.cache.paths ns = state.model.cached ns) ∧
    (∀ treeId, state.cache.hasTree treeId = true ↔ treeId ∈ state.model.live) ∧
    (∀ treeId, state.cache.treeTokens.get? treeId = (state.model.live.get? treeId).map Live.tokens) ∧
    (∀ now treeId tokens charged, (state.cache.extend now treeId tokens).1 = .ok charged →
      ∃ branch, state.model.live.get? treeId = some branch ∧
        charged = (prefixes (branch.tokens ++ tokens) \ state.model.cached branch.ns).card) ∧
    (∀ treeId branch, state.model.live.get? treeId = some branch → (state.cache.kill treeId).1 =
      .ok (prefixes branch.tokens \ state.model.cachedByOthers treeId branch.ns).card) ∧
    (∀ now treeId tokens branch, state.model.live.get? treeId = some branch →
      (state.cache.matchTreePrefix now treeId tokens).1 =
        .ok (longestMatch (state.model.cached branch.ns) tokens)) ∧
    state.cache.residentTokens = state.model.totalCached := by
  have agrees := agrees_of_reachable (Agrees.of_new created) reached
  refine ⟨agrees.paths_eq_cached, fun treeId => ?_, agrees.tokens,
    fun now treeId tokens => (agrees.extend_spec now treeId tokens).2,
    fun treeId branch live => agrees.kill_result live,
    fun now treeId tokens branch live => agrees.matchTreePrefix_result live now tokens, ?_⟩
  · have absent : state.cache.trees.get? treeId = none ↔ _ := agrees.tree_absent
    rw [Dict.get?_eq_none, Dict.get?_eq_none, not_iff_not] at absent
    rw [TreeKVCache.hasTree, decide_eq_true_iff]
    exact absent
  · rw [TreeKVCache.residentTokens, agrees.resident, ← agrees.reachableTokens_eq]
    rfl

/-- A run with a fork, a divergence, a lookup that splits a node and a kill. -/
def forkedRun : List (Op Nat) :=
  [.createTree "p", .extend 1 "p" [1, 2, 3], .forkBranch "p" (some "c"), .extend 2 "c" [4],
    .matchTreePrefix 3 "c" [1, 2, 9], .extend 4 "p" [5], .kill "p"]

/-- After the run the fork alone holds its four tokens. -/
theorem forkedRun_refines_prefixModel :
    let state := forkedRun.foldl step ⟨.fresh 100 none, PrefixModel.init⟩
    state.cache.paths "p" = state.model.cached "p" ∧ state.model.cached "p" = prefixes [1, 2, 3, 4] ∧
      state.cache.residentTokens = 4 := by
  have created : TreeKVCache.new 100 none = .ok (.fresh 100 none : TreeKVCache Nat) := rfl
  have reached : Reachable Step NamespaceFree ⟨.fresh 100 none, PrefixModel.init⟩
      (forkedRun.foldl step ⟨.fresh 100 none, PrefixModel.init⟩) := reachable_foldl (by decide)
  have refines := refines_prefixModel created reached
  exact ⟨refines.1 "p", by decide, by decide⟩

end Tracked

/-! ## Re-creating the root of a namespace -/

namespace TreeKVCache

def Step (before : TreeKVCache τ) (op : Op τ) (after : TreeKVCache τ) : Prop := before.perform op = after

/-- `create_tree` is refused or meets no live branch of the namespace that holds a token. -/
def KeepsTokens (cache : TreeKVCache τ) : Op τ → Prop
  | .createTree treeId => treeId ∈ cache.trees ∨ ∀ entry ∈ cache.trees.entries,
      entry.2.ns = treeId → cache.treeTokens.get? entry.1 = some []
  | _ => True

/-- Kill the given branches one after the other. -/
def killAll (cache : TreeKVCache τ) (order : List String) : TreeKVCache τ :=
  order.foldl (fun cache treeId => (cache.kill treeId).2) cache

/-- Nothing cached for a live branch is lost, and nothing stays when all are killed. -/
structure Lossless (cache : TreeKVCache τ) : Prop where
  matched : ∀ treeId, treeId ∈ cache.trees → ∃ tokens, cache.treeTokens.get? treeId = some tokens ∧
    ∀ now, (cache.matchTreePrefix now treeId tokens).1 = .ok tokens.length
  resident : cache.residentTokens = cache.reachableTokens
  drained : ∀ order : List String, (∀ treeId, treeId ∈ cache.trees → treeId ∈ order) →
    (cache.killAll order).residentTokens = 0 ∧ (cache.killAll order).root.keys = []

end TreeKVCache

namespace Agrees

variable {cache : TreeKVCache τ} {model : PrefixModel τ}

theorem longestMatch_cached {treeId : String} {branch : Live τ}
    (live : model.live.get? treeId = some branch) :
    longestMatch (model.cached branch.ns) branch.tokens = branch.tokens.length := by
  refine longestMatch_eq le_rfl fun length positive bound => iff_of_true ?_ bound
  refine PrefixModel.mem_cached.2 ⟨?_, treeId, (mem_owners_iff live _).2 (List.take_prefix _ _)⟩
  rw [Ne, List.take_eq_nil_iff]
  rintro (zero | empty)
  · omega
  · rw [empty, List.length_nil] at bound
    omega

/-- Killing more branches keeps the cache in agreement with what is left. -/
theorem killAll (agrees : Agrees cache model) (order : List String) : ∃ rest : PrefixModel τ,
    Agrees (cache.killAll order) rest ∧
      ∀ treeId, rest.live.get? treeId = if treeId ∈ order then none else model.live.get? treeId := by
  induction order generalizing cache model with
  | nil => exact ⟨model, agrees, fun treeId => by simp⟩
  | cons first order inductionHypothesis =>
    obtain ⟨freed, returned⟩ : ∃ freed, (cache.kill first).1 = .ok freed := by
      cases found : model.live.get? first with
      | none =>
        have absent := agrees.tree_absent.2 found
        exact ⟨0, by simp only [TreeKVCache.kill, absent]⟩
      | some branch => exact ⟨_, agrees.kill_result found⟩
    have killed := agrees.kill_agrees first
    rw [returned] at killed
    obtain ⟨rest, agreesRest, left⟩ := inductionHypothesis killed
    refine ⟨rest, agreesRest, fun treeId => ?_⟩
    rw [left]
    simp only [PrefixModel.next, Except.map, Dict.get?_erase, List.mem_cons]
    by_cases here : treeId = first <;> simp [here]

theorem lossless (agrees : Agrees cache model) : cache.Lossless where
  matched treeId member := by
    obtain ⟨tid, found⟩ := Dict.mem_iff_get?.1 member
    obtain ⟨branch, live, _⟩ := agrees.branch_of_tree found
    refine ⟨branch.tokens, agrees.tokens_of_branch live, fun now => ?_⟩
    rw [agrees.matchTreePrefix_result live, longestMatch_cached live]
  resident := agrees.resident
  drained order complete := by
    obtain ⟨rest, agreesRest, left⟩ := agrees.killAll order
    have gone : ∀ treeId, rest.live.get? treeId = none := by
      intro treeId
      rw [left]
      split
      · rfl
      · next notKilled =>
        rw [← agrees.tree_absent, Dict.get?_eq_none]
        exact fun member => notKilled (complete treeId member)
    have noRoot : ∀ ns, ns ∉ (cache.killAll order).root := by
      intro ns member
      obtain ⟨treeId, branch, live, _⟩ := (agreesRest.roots ns).1 member
      rw [gone] at live
      cases live
    have noKeys : (cache.killAll order).root.keys = [] := by
      rw [List.eq_nil_iff_forall_not_mem]
      exact fun ns member => noRoot ns (Dict.mem_keys.1 member)
    refine ⟨?_, noKeys⟩
    rw [TreeKVCache.residentTokens, agreesRest.resident, Dict.total_eq_sum, noKeys]
    rfl

/-- A `create_tree` over a branch that holds tokens loses them. -/
theorem not_lossless_createTree (agrees : Agrees cache model) {treeId : String}
    (violates : ¬ cache.KeepsTokens (.createTree treeId)) : ¬ (cache.createTree treeId).2.Lossless := by
  simp only [TreeKVCache.KeepsTokens, not_or, not_forall] at violates
  obtain ⟨absent, ⟨other, tid⟩, entry, here, notEmpty⟩ := violates
  have found := Dict.mem_entries.1 entry
  obtain ⟨branch, live, nsEqual⟩ := agrees.branch_of_tree found
  have tokensFound := agrees.tokens_of_branch live
  have differs : other ≠ treeId := by
    rintro rfl
    exact absent (Dict.mem_of_get? found)
  intro lossless
  simp only [TreeKVCache.createTree, if_neg absent] at lossless
  obtain ⟨tokens, stored, matched⟩ := lossless.matched other
    (Dict.mem_insert.2 (.inr (Dict.mem_of_get? found)))
  rw [Dict.get?_insert, if_neg differs, tokensFound] at stored
  cases stored
  have matched := matched 0
  change tid.ns = treeId at here
  simp only [TreeKVCache.matchTreePrefix, Dict.get?_insert, if_neg differs, found, here, if_pos,
    RadixTree.walk_matched, RadixTree.domain_empty, longestMatch_empty, Except.ok.injEq] at matched
  apply notEmpty
  rw [tokensFound, List.eq_nil_of_length_eq_zero matched.symm]

end Agrees

namespace TreeKVCache

theorem agrees_of_reachable {start cache : TreeKVCache τ} (initial : ∃ model, Agrees start model)
    (reached : Reachable Step KeepsTokens start cache) : ∃ model, Agrees cache model := by
  refine reached.invariant (motive := fun cache => ∃ model, Agrees cache model) initial ?_
  rintro before op after ⟨model, agrees⟩ keeps taken
  subst taken
  refine ⟨_, agrees.perform op fun treeId isCreate notLive other branch live here => ?_⟩
  subst isCreate
  obtain present | empty := keeps
  · exact absurd present (Dict.get?_eq_none.1 (agrees.tree_absent.2 notLive))
  · obtain ⟨tid, found, nsEqual⟩ := agrees.tree_of_branch live
    have tokens := empty (other, tid) (Dict.mem_entries.2 found) (nsEqual.trans here)
    rw [agrees.tokens_of_branch live] at tokens
    exact Option.some.inj tokens

/-- Runs whose `create_tree` calls all keep the tokens lose nothing, and the
first one that does not loses some. -/
theorem lossless_while_keepsTokens {capacityTokens : Int} {perTreeBudget : Option Int}
    {start cache : TreeKVCache τ} (created : new capacityTokens perTreeBudget = .ok start)
    (reached : Reachable Step KeepsTokens start cache) :
    cache.Lossless ∧ ∀ treeId, ¬ cache.KeepsTokens (.createTree treeId) →
      ¬ (cache.perform (.createTree treeId)).Lossless := by
  obtain ⟨model, agrees⟩ := agrees_of_reachable ⟨_, Agrees.of_new created⟩ reached
  exact ⟨agrees.lossless, fun treeId violates => agrees.not_lossless_createTree violates⟩

instance (cache : TreeKVCache τ) : ∀ op : Op τ, Decidable (cache.KeepsTokens op)
  | .createTree treeId => inferInstanceAs (Decidable (treeId ∈ cache.trees ∨ ∀ entry ∈ cache.trees.entries,
      entry.2.ns = treeId → cache.treeTokens.get? entry.1 = some []))
  | .forkBranch _ _ | .extend _ _ _ | .kill _ | .matchPrefix _ _ | .matchTreePrefix _ _ _ =>
    inferInstanceAs (Decidable True)

/-- A fork outlives its root. -/
def orphanRun : List (Op Nat) :=
  [.createTree "p", .extend 1 "p" [1, 2], .forkBranch "p" (some "c"), .kill "p"]

theorem orphanRun_lossless : (orphanRun.foldl perform (.fresh 100 none)).Lossless ∧
    ¬ ((orphanRun.foldl perform (.fresh 100 none)).perform (.createTree "p")).Lossless := by
  have created : new 100 none = .ok (.fresh 100 none : TreeKVCache Nat) := rfl
  have reached : Reachable Step KeepsTokens (.fresh 100 none)
      (orphanRun.foldl perform (.fresh 100 none)) := reachable_foldl (by decide)
  have outcome := lossless_while_keepsTokens created reached
  exact ⟨outcome.1, outcome.2 "p" (by decide)⟩

/-- After the root has been created again the fork's two tokens are in no tree. -/
theorem recreated_root_not_lossless : ¬ ∀ (start cache : TreeKVCache Nat),
    new 100 none = .ok start → Reachable Step always start cache → cache.Lossless := by
  intro claimed
  let actions : List (Op Nat) := orphanRun ++ [.createTree "p"]
  have lossless := claimed (.fresh 100 none) (actions.foldl perform (.fresh 100 none)) rfl
    (reachable_foldl meets_always)
  obtain ⟨tokens, stored, matched⟩ := lossless.matched "c" (by decide)
  have isSequence : (actions.foldl perform (.fresh 100 none)).treeTokens.get? "c" = some [1, 2] := by
    decide
  rw [isSequence] at stored
  cases stored
  exact absurd (matched 5) (by decide)

end TreeKVCache

end Agentfork.Kv

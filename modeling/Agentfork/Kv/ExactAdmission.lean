import Agentfork.Kv.TreeCacheSoundness

/-! # Exact admission

`extend` measures the budget by a traversal and the capacity by a running
counter. Both are the sizes of cached sets, so it is admitted exactly when the
sets after the append fit, and a refused one has changed no more than the shape
of the tree: no later call can tell. -/

namespace Agentfork.Kv

open Transition

variable {τ : Type} [DecidableEq τ]

namespace PrefixModel

/-- The model once tokens are appended to a branch. -/
def appended (model : PrefixModel τ) (treeId : String) (branch : Live τ) (tokens : List τ) : PrefixModel τ :=
  ⟨model.live.insert treeId { branch with tokens := branch.tokens ++ tokens }⟩

/-- What a namespace does not cache yet of the longer sequence. -/
def missing (model : PrefixModel τ) (branch : Live τ) (tokens : List τ) : Nat :=
  (prefixes (branch.tokens ++ tokens) \ model.cached branch.ns).card

variable {model : PrefixModel τ} {treeId : String} {branch : Live τ}

theorem cached_appended (live : model.live.get? treeId = some branch) (tokens : List τ) (ns : String) :
    (model.appended treeId branch tokens).cached ns =
      if ns = branch.ns then model.cached ns ∪ prefixes (branch.tokens ++ tokens) else model.cached ns := by
  ext path
  rw [mem_cached, appended, owners_insert]
  by_cases here : ns = branch.ns
  · subst here
    rw [if_pos rfl, Finset.mem_union, mem_cached, mem_prefixes]
    simp only [true_and]
    by_cases onPath : path <+: branch.tokens ++ tokens
    · rw [if_pos onPath]
      exact ⟨fun both => .inr ⟨both.1, onPath⟩, fun either => ⟨either.elim And.left And.left, Finset.insert_nonempty _ _⟩⟩
    · rw [if_neg onPath]
      have notOwner : treeId ∉ model.owners branch.ns path := by
        rw [mem_owners, live]
        rintro ⟨_, same, _, isPrefix⟩
        cases same
        exact onPath (isPrefix.trans (List.prefix_append _ _))
      rw [Finset.erase_eq_of_notMem notOwner]
      simp [onPath]
  · rw [if_neg here, if_neg fun both => here both.1.symm, mem_cached]
    have notOwner : treeId ∉ model.owners ns path := by
      rw [mem_owners, live]
      rintro ⟨_, same, sameNs, _⟩
      cases same
      exact here sameNs.symm
    rw [Finset.erase_eq_of_notMem notOwner]

theorem card_cached_appended (live : model.live.get? treeId = some branch) (tokens : List τ) :
    ((model.appended treeId branch tokens).cached branch.ns).card =
      (model.cached branch.ns).card + model.missing branch tokens := by
  rw [cached_appended live, if_pos rfl, missing, ← Finset.card_union_of_disjoint Finset.disjoint_sdiff,
    Finset.union_sdiff_self_eq_union]

omit [DecidableEq τ] in
theorem namespaces_appended (live : model.live.get? treeId = some branch) (tokens : List τ) :
    (model.appended treeId branch tokens).namespaces = model.namespaces := by
  ext ns
  simp only [mem_namespaces, appended, Dict.get?_insert]
  constructor
  · rintro ⟨other, alive, found, here⟩
    split at found
    next =>
      cases found
      exact ⟨treeId, branch, live, here⟩
    next => exact ⟨other, alive, found, here⟩
  · rintro ⟨other, alive, found, here⟩
    by_cases same : other = treeId
    · subst same
      rw [live] at found
      cases found
      exact ⟨other, _, if_pos rfl, here⟩
    · exact ⟨other, alive, (if_neg same).trans found, here⟩

theorem totalCached_appended (live : model.live.get? treeId = some branch) (tokens : List τ) :
    (model.appended treeId branch tokens).totalCached = model.totalCached + model.missing branch tokens := by
  have member : branch.ns ∈ model.namespaces := mem_namespaces.2 ⟨treeId, branch, live, rfl⟩
  rw [totalCached, totalCached, namespaces_appended live, ← Finset.add_sum_erase _ _ member,
    ← Finset.add_sum_erase _ _ member, card_cached_appended live]
  have elsewhere : ∑ ns ∈ model.namespaces.erase branch.ns, ((model.appended treeId branch tokens).cached ns).card =
      ∑ ns ∈ model.namespaces.erase branch.ns, (model.cached ns).card := by
    refine Finset.sum_congr rfl fun ns isOther => ?_
    rw [cached_appended live, if_neg (Finset.ne_of_mem_erase isOther)]
  omega

end PrefixModel

/-! ## The outcome of an extend -/

namespace TreeKVCache

/-- The cache with other trees below its namespaces. -/
def Still (before after : TreeKVCache τ) : Prop := after = { before with root := after.root }

/-- The books after an extend that has charged `charged` tokens. -/
def booked (cache : TreeKVCache τ) (treeId : String) (tokens full : List τ) (charged : Nat) : TreeKVCache τ :=
  TreeKVCache.chargeExtend { cache with
    stats := { cache.stats with residentTokens := cache.stats.residentTokens + charged } } treeId tokens full charged

end TreeKVCache

namespace Agrees

variable {cache : TreeKVCache τ} {model : PrefixModel τ} {treeId : String} {branch : Live τ}

/-- What `extend` returns or raises, and what it does to everything but the trees. -/
theorem extend_outcome (agrees : Agrees cache model) (live : model.live.get? treeId = some branch) (now : Nat)
    (tokens : List τ) :
    if cache.perTreeBudget.any (· < (model.cached branch.ns).card + model.missing branch tokens) = true then
      (cache.extend now treeId tokens).1 = .error (.memoryError (cache.budgetMessage branch.ns)) ∧
        cache.Still (cache.extend now treeId tokens).2
    else if 0 < model.missing branch tokens ∧
        (cache.capacity : Int) < cache.stats.residentTokens + model.missing branch tokens then
      (cache.extend now treeId tokens).1 = .error (.memoryError TreeKVCache.exhaustedMessage) ∧
        cache.Still (cache.extend now treeId tokens).2
    else
      (cache.extend now treeId tokens).1 = .ok (model.missing branch tokens) ∧
        (cache.booked treeId tokens (branch.tokens ++ tokens) (model.missing branch tokens)).Still
          (cache.extend now treeId tokens).2 := by
  obtain ⟨tid, treeFound, nsEqual⟩ := agrees.tree_of_branch live
  obtain ⟨tree, rootFound⟩ := agrees.root_of_branch live
  have charge := RadixTree.length_sub_matched (NodeData.touch now) tree (branch.tokens ++ tokens)
  rw [agrees.domain_eq_cached rootFound] at charge
  change _ = model.missing branch tokens at charge
  have size := RadixTree.size_walk (NodeData.touch now) tree (branch.tokens ++ tokens)
  rw [← RadixTree.card_domain tree, agrees.domain_eq_cached rootFound] at size
  rw [← nsEqual] at rootFound
  have walkedAgrees := agrees.walk rootFound now (branch.tokens ++ tokens)
  simp only [TreeKVCache.extend, treeFound, agrees.tokens_of_branch live, rootFound, TreeKVCache.overBudget, size,
    charge]
  by_cases exceeds : cache.perTreeBudget.any (· < (model.cached branch.ns).card + model.missing branch tokens) = true
  · simp only [if_pos exceeds, nsEqual]
    exact ⟨rfl, rfl⟩
  · simp only [if_neg exceeds]
    by_cases short : (tree.walk (NodeData.touch now) (branch.tokens ++ tokens)).2 < (branch.tokens ++ tokens).length
    · have positive : 0 < model.missing branch tokens := by omega
      simp only [if_pos short, walkedAgrees.maybeEvict_eq, positive, true_and]
      by_cases full : (cache.capacity : Int) < cache.stats.residentTokens + model.missing branch tokens
      · simp only [if_pos full, if_neg (not_le.2 full)]
        exact ⟨trivial, rfl⟩
      · simp only [if_neg full, if_pos (not_lt.1 full)]
        refine ⟨trivial, ?_⟩
        simp only [TreeKVCache.insertSuffix, TreeKVCache.addRefs, Dict.get?_insert, if_true, List.length_drop, charge]
        rfl
    · have nothing : model.missing branch tokens = 0 := by omega
      simp only [if_neg short, nothing, lt_irrefl, false_and, if_false]
      refine ⟨trivial, ?_⟩
      simp only [TreeKVCache.addRefs, Dict.get?_insert, if_true]
      have same : cache.stats.residentTokens + ((0 : Nat) : Int) = cache.stats.residentTokens := add_zero _
      rw [TreeKVCache.Still, TreeKVCache.booked, same]
      rfl

/-- A call for a branch that is not live finds no tree. -/
theorem extend_absent (agrees : Agrees cache model) (absent : model.live.get? treeId = none) (now : Nat)
    (tokens : List τ) :
    cache.extend now treeId tokens = (.error (.keyError s!"no such tree: {treeId}"), cache) := by
  rw [← agrees.tree_absent] at absent
  simp only [TreeKVCache.extend, absent]

end Agrees

/-! ## The limits are kept -/

/-- The cache keeps its limits, which are those of the constructor. -/
structure Within (capacity : Nat) (budget : Option Nat) (cache : TreeKVCache τ) (model : PrefixModel τ) : Prop where
  sameCapacity : cache.capacity = capacity
  sameBudget : cache.perTreeBudget = budget
  resident : cache.stats.residentTokens ≤ capacity
  namespaces : ∀ limit, budget = some limit → ∀ ns, (model.cached ns).card ≤ limit

namespace Within

variable {capacity : Nat} {budget : Option Nat} {cache after : TreeKVCache τ} {model model' : PrefixModel τ}

/-- A call that caches nothing new. -/
theorem shrink (within : Within capacity budget cache model) (sameCapacity : after.capacity = cache.capacity)
    (sameBudget : after.perTreeBudget = cache.perTreeBudget)
    (less : after.stats.residentTokens ≤ cache.stats.residentTokens)
    (subset : ∀ ns path, path ≠ [] → (model'.owners ns path).Nonempty → (model.owners ns path).Nonempty) :
    Within capacity budget after model' := by
  refine ⟨sameCapacity.trans within.sameCapacity, sameBudget.trans within.sameBudget, less.trans within.resident,
    fun limit isLimit ns => (Finset.card_le_card fun path member => ?_).trans (within.namespaces limit isLimit ns)⟩
  obtain ⟨nonempty, owned⟩ := PrefixModel.mem_cached.1 member
  exact PrefixModel.mem_cached.2 ⟨nonempty, subset ns path nonempty owned⟩

theorem createTree (within : Within capacity budget cache model) (treeId : String) :
    Within capacity budget (cache.createTree treeId).2
      (model.next (.createTree treeId) (Except.map .tree (cache.createTree treeId).1)) := by
  rw [TreeKVCache.createTree]
  split
  next => exact within
  next =>
    refine within.shrink rfl rfl le_rfl fun ns path nonempty owned => ?_
    simp only [PrefixModel.next, Except.map, PrefixModel.owners_insert] at owned
    rw [if_neg fun both => nonempty (List.prefix_nil.1 both.2)] at owned
    exact owned.mono (Finset.erase_subset _ _)

theorem forkBranch (within : Within capacity budget cache model) (parentId : String) (childId : Option String) :
    Within capacity budget (cache.forkBranch parentId childId).2
      (model.next (.forkBranch parentId childId) (Except.map .tree (cache.forkBranch parentId childId).1)) := by
  have still : ∀ {after : TreeKVCache τ}, after.capacity = cache.capacity → after.perTreeBudget = cache.perTreeBudget →
      after.stats = cache.stats → Within capacity budget after model := fun sameCapacity sameBudget sameStats =>
    within.shrink sameCapacity sameBudget (le_of_eq (congrArg _ sameStats)) fun _ _ _ owned => owned
  rw [TreeKVCache.forkBranch]
  split
  next => exact within
  next =>
    simp only
    split
    next => exact still rfl rfl rfl
    next =>
      split
      next => exact still rfl rfl rfl
      next =>
        split
        next => exact still rfl rfl rfl
        next =>
          simp only [PrefixModel.next, Except.map]
          cases live : model.live.get? parentId with
          | none => exact within.shrink rfl rfl le_rfl fun _ _ _ owned => owned
          | some parent =>
            refine within.shrink rfl rfl le_rfl fun ns path _ owned => ?_
            simp only [PrefixModel.owners_insert] at owned
            split at owned
            next onParent => exact ⟨parentId, PrefixModel.mem_owners.2 ⟨parent, live, onParent⟩⟩
            next => exact owned.mono (Finset.erase_subset _ _)

theorem kill (within : Within capacity budget cache model) (treeId : String) :
    Within capacity budget (cache.kill treeId).2
      (model.next (.kill treeId) (Except.map .tokens (cache.kill treeId).1)) := by
  have fewer : ∀ ns path, path ≠ [] → ((PrefixModel.mk (model.live.erase treeId)).owners ns path).Nonempty →
      (model.owners ns path).Nonempty := by
    intro ns path _ owned
    rw [PrefixModel.owners_erase] at owned
    exact owned.mono (Finset.erase_subset _ _)
  rw [TreeKVCache.kill]
  split
  next => exact within.shrink rfl rfl le_rfl fewer
  next =>
    split
    next => exact within
    next => exact within
    next =>
      refine within.shrink rfl rfl ?_ fewer
      simp only
      omega

/-- An extend that goes through has been measured against both limits. -/
theorem extend (within : Within capacity budget cache model) (agrees : Agrees cache model) (now : Nat)
    (treeId : String) (tokens : List τ) :
    Within capacity budget (cache.extend now treeId tokens).2
      (model.next (.extend now treeId tokens) (Except.map .tokens (cache.extend now treeId tokens).1)) := by
  have still : ∀ {after : TreeKVCache τ}, cache.Still after → Within capacity budget after model := by
    intro after same
    rw [same]
    exact within.shrink rfl rfl le_rfl fun _ _ _ owned => owned
  cases live : model.live.get? treeId with
  | none =>
    rw [agrees.extend_absent live]
    exact within
  | some branch =>
    have outcome := agrees.extend_outcome live now tokens
    split at outcome
    next =>
      rw [outcome.1]
      exact still outcome.2
    next notOver =>
      split at outcome
      next =>
        rw [outcome.1]
        exact still outcome.2
      next notFull =>
        obtain ⟨returned, booked⟩ := outcome
        rw [returned, booked]
        simp only [PrefixModel.next, Except.map, live]
        refine ⟨within.sameCapacity, within.sameBudget, ?_, fun limit isLimit ns => ?_⟩
        · have resident := within.resident
          rw [← within.sameCapacity] at resident ⊢
          change cache.stats.residentTokens + (model.missing branch tokens : Int) ≤ _
          omega
        · change ((model.appended treeId branch tokens).cached ns).card ≤ limit
          by_cases here : ns = branch.ns
          · rw [here, PrefixModel.card_cached_appended live]
            rw [within.sameBudget, isLimit, Option.any_some, decide_eq_true_eq] at notOver
            omega
          · rw [PrefixModel.cached_appended live, if_neg here]
            exact within.namespaces limit isLimit ns

theorem perform (within : Within capacity budget cache model) (agrees : Agrees cache model) (op : Op τ) :
    Within capacity budget (cache.perform op) (model.next op (cache.apply op).1) := by
  cases op with
  | createTree treeId => exact within.createTree treeId
  | forkBranch parentId childId => exact within.forkBranch parentId childId
  | extend now treeId tokens => exact within.extend agrees now treeId tokens
  | kill treeId => exact within.kill treeId
  | matchPrefix now tokens => exact within.shrink rfl rfl le_rfl fun _ _ _ owned => owned
  | matchTreePrefix now treeId tokens =>
    have still : cache.Still (cache.matchTreePrefix now treeId tokens).2 := by
      rw [TreeKVCache.matchTreePrefix]
      split
      next => rfl
      next => split <;> rfl
    have same : cache.perform (.matchTreePrefix now treeId tokens) = _ := still
    rw [same]
    exact within.shrink rfl rfl le_rfl fun _ _ _ owned => owned

end Within

/-! ## Caches that nobody can tell apart -/

/-- Two caches that cache the same for the same branches and differ in the shape
of their trees at most. -/
structure Alike (first second : TreeKVCache τ) (model : PrefixModel τ) : Prop where
  left : Agrees first model
  right : Agrees second model
  still : first.Still second

namespace Alike

variable {first second : TreeKVCache τ} {model : PrefixModel τ}

theorem forkBranch (alike : Alike first second model) (parentId : String) (childId : Option String) :
    (first.forkBranch parentId childId).1 = (second.forkBranch parentId childId).1 ∧
      (first.forkBranch parentId childId).2.Still (second.forkBranch parentId childId).2 := by
  have left := alike.left
  have right := alike.right
  obtain ⟨root, rfl⟩ : ∃ root, second = { first with root := root } := ⟨second.root, alike.still⟩
  cases parentFound : first.trees.get? parentId with
  | none =>
    simp only [TreeKVCache.forkBranch, parentFound, true_and]
    rfl
  | some parent =>
    obtain ⟨branch, live, nsEqual⟩ := left.branch_of_tree parentFound
    obtain ⟨tree, rootFound⟩ := left.root_of_branch live
    obtain ⟨other, otherFound⟩ := right.root_of_branch live
    have whole := RadixTree.wholeLength_of_ends (left.ends parentId branch tree live rootFound)
    have otherWhole := RadixTree.wholeLength_of_ends (right.ends parentId branch other live otherFound)
    rw [nsEqual] at rootFound otherFound
    simp only at otherFound
    simp only [TreeKVCache.forkBranch, parentFound, left.tokens_of_branch live, rootFound, otherFound, whole, otherWhole]
    split <;> exact ⟨rfl, rfl⟩

theorem kill (alike : Alike first second model) (treeId : String) :
    (first.kill treeId).1 = (second.kill treeId).1 ∧ (first.kill treeId).2.Still (second.kill treeId).2 := by
  have left := alike.left
  have right := alike.right
  obtain ⟨root, rfl⟩ : ∃ root, second = { first with root := root } := ⟨second.root, alike.still⟩
  cases found : first.trees.get? treeId with
  | none =>
    simp only [TreeKVCache.kill, found, true_and]
    rfl
  | some tid =>
    obtain ⟨branch, live, nsEqual⟩ := left.branch_of_tree found
    obtain ⟨tree, rootFound⟩ := left.root_of_branch live
    obtain ⟨other, otherFound⟩ := right.root_of_branch live
    have freed := (left.sweep live rootFound).2.2
    have otherFreed := (right.sweep live otherFound).2.2
    rw [nsEqual] at rootFound otherFound
    simp only at otherFound
    simp only [TreeKVCache.kill, found, left.tokens_of_branch live, rootFound, otherFound, freed, otherFreed, true_and]
    rfl

/-- Two extends answer alike, whatever the clock reads in each. -/
theorem extend (alike : Alike first second model) (now later : Nat) (treeId : String) (tokens : List τ) :
    (first.extend now treeId tokens).1 = (second.extend later treeId tokens).1 ∧
      (first.extend now treeId tokens).2.Still (second.extend later treeId tokens).2 := by
  have left := alike.left
  have right := alike.right
  obtain ⟨root, rfl⟩ : ∃ root, second = { first with root := root } := ⟨second.root, alike.still⟩
  cases live : model.live.get? treeId with
  | none =>
    rw [left.extend_absent live, right.extend_absent live]
    exact ⟨rfl, rfl⟩
  | some branch =>
    have outcome := left.extend_outcome live now tokens
    have otherOutcome := right.extend_outcome live later tokens
    -- the conditions speak of the limits and the counters only
    split at outcome
    next exceeds =>
      rw [if_pos exceeds] at otherOutcome
      refine ⟨outcome.1.trans otherOutcome.1.symm, ?_⟩
      rw [TreeKVCache.Still, outcome.2, otherOutcome.2]
    next notOver =>
      rw [if_neg notOver] at otherOutcome
      split at outcome
      next full =>
        rw [if_pos full] at otherOutcome
        refine ⟨outcome.1.trans otherOutcome.1.symm, ?_⟩
        rw [TreeKVCache.Still, outcome.2, otherOutcome.2]
      next notFull =>
        rw [if_neg notFull] at otherOutcome
        refine ⟨outcome.1.trans otherOutcome.1.symm, ?_⟩
        rw [TreeKVCache.Still, outcome.2, otherOutcome.2]
        rfl

theorem foldl_max_le {lengths : List Nat} {start bound : Nat} :
    lengths.foldl max start ≤ bound ↔ start ≤ bound ∧ ∀ length ∈ lengths, length ≤ bound := by
  induction lengths generalizing start with
  | nil => simp
  | cons first rest inductionHypothesis =>
    rw [List.foldl_cons, inductionHypothesis, max_le_iff, List.forall_mem_cons, and_assoc]

/-- The longest match over all namespaces. -/
theorem matchPrefix_le (agrees : Agrees first model) (now : Nat) (tokens : List τ) (bound : Nat) :
    (first.matchPrefix now tokens).1 ≤ bound ↔ ∀ treeId branch, model.live.get? treeId = some branch →
      longestMatch (model.cached branch.ns) tokens ≤ bound := by
  rw [TreeKVCache.matchPrefix, foldl_max_le, and_iff_right (Nat.zero_le _)]
  simp only [List.mem_map, RadixTree.walk_matched]
  constructor
  · intro all treeId branch live
    obtain ⟨tree, found⟩ := agrees.root_of_branch live
    rw [← agrees.domain_eq_cached found]
    exact all _ ⟨tree, Dict.mem_values.2 ⟨branch.ns, found⟩, rfl⟩
  · rintro all _ ⟨tree, member, rfl⟩
    obtain ⟨ns, found⟩ := Dict.mem_values.1 member
    obtain ⟨treeId, branch, live, rfl⟩ := (agrees.roots ns).1 (Dict.mem_of_get? found)
    rw [agrees.domain_eq_cached found]
    exact all treeId branch live

theorem matchPrefix (alike : Alike first second model) (now : Nat) (tokens : List τ) :
    (first.matchPrefix now tokens).1 = (second.matchPrefix now tokens).1 :=
  eq_of_forall_ge_iff fun bound =>
    (matchPrefix_le alike.left now tokens bound).trans (matchPrefix_le alike.right now tokens bound).symm

theorem matchTreePrefix (alike : Alike first second model) (now : Nat) (treeId : String) (tokens : List τ) :
    (first.matchTreePrefix now treeId tokens).1 = (second.matchTreePrefix now treeId tokens).1 ∧
      (first.matchTreePrefix now treeId tokens).2.Still (second.matchTreePrefix now treeId tokens).2 := by
  have left := alike.left
  have right := alike.right
  obtain ⟨root, rfl⟩ : ∃ root, second = { first with root := root } := ⟨second.root, alike.still⟩
  cases found : first.trees.get? treeId with
  | none =>
    simp only [TreeKVCache.matchTreePrefix, found, true_and]
    rfl
  | some tid =>
    obtain ⟨branch, live, nsEqual⟩ := left.branch_of_tree found
    obtain ⟨tree, rootFound⟩ := left.root_of_branch live
    obtain ⟨other, otherFound⟩ := right.root_of_branch live
    refine ⟨(left.matchTreePrefix_result live now tokens).trans (right.matchTreePrefix_result live now tokens).symm, ?_⟩
    rw [nsEqual] at rootFound otherFound
    simp only at otherFound
    simp only [TreeKVCache.matchTreePrefix, found, rootFound, otherFound]
    rfl

/-- Every call gives the same result on both and leaves them alike. -/
theorem perform (alike : Alike first second model) (op : Op τ)
    (allowed : ∀ treeId, op = .createTree treeId → model.live.get? treeId = none → Agrees.Unused model treeId) :
    (first.apply op).1 = (second.apply op).1 ∧
      Alike (first.perform op) (second.perform op) (model.next op (first.apply op).1) := by
  have both : (first.apply op).1 = (second.apply op).1 ∧ (first.perform op).Still (second.perform op) := by
    cases op with
    | createTree treeId =>
      obtain ⟨root, rfl⟩ : ∃ root, second = { first with root := root } := ⟨second.root, alike.still⟩
      simp only [TreeKVCache.apply, TreeKVCache.perform, TreeKVCache.createTree]
      split <;> exact ⟨rfl, rfl⟩
    | forkBranch parentId childId =>
      obtain ⟨same, still⟩ := alike.forkBranch parentId childId
      exact ⟨by simp only [TreeKVCache.apply, Prod.map_fst, same], still⟩
    | extend now treeId tokens =>
      obtain ⟨same, still⟩ := alike.extend now now treeId tokens
      exact ⟨by simp only [TreeKVCache.apply, Prod.map_fst, same], still⟩
    | kill treeId =>
      obtain ⟨same, still⟩ := alike.kill treeId
      exact ⟨by simp only [TreeKVCache.apply, Prod.map_fst, same], still⟩
    | matchPrefix now tokens =>
      refine ⟨by simp only [TreeKVCache.apply, Prod.map_fst, alike.matchPrefix now tokens], ?_⟩
      obtain ⟨root, rfl⟩ : ∃ root, second = { first with root := root } := ⟨second.root, alike.still⟩
      rfl
    | matchTreePrefix now treeId tokens =>
      obtain ⟨same, still⟩ := alike.matchTreePrefix now treeId tokens
      exact ⟨by simp only [TreeKVCache.apply, Prod.map_fst, same], still⟩
  refine ⟨both.1, alike.left.perform op allowed, ?_, both.2⟩
  rw [both.1]
  exact alike.right.perform op allowed

end Alike

/-! ## Runs -/

namespace TreeKVCache

/-- What the calls return or raise, one after the other. -/
def results (cache : TreeKVCache τ) : List (Op τ) → List (Except CacheError Value)
  | [] => []
  | op :: ops => (cache.apply op).1 :: results (cache.perform op) ops

end TreeKVCache

namespace Tracked

/-- Caches that are alike answer every run alike. -/
theorem results_alike {second : TreeKVCache τ} (ops : List (Op τ)) {state : Tracked τ}
    (alike : Alike state.cache second state.model)
    (meets : Meets (fun state op => some (state.step op)) NamespaceFree state ops) :
    second.results ops = state.cache.results ops := by
  induction ops generalizing state second with
  | nil => rfl
  | cons op ops inductionHypothesis =>
    obtain ⟨same, stillAlike⟩ := alike.perform op (unused_of_free alike.left meets.1)
    simp only [TreeKVCache.results, same]
    exact congrArg _ (inductionHypothesis stillAlike meets.2)

/-- Admission and failure of `extend`. -/
structure ExactAdmission (capacityTokens : Int) (perTreeBudget : Option Int) (state : Tracked τ) : Prop where
  /-- An extend of a live branch returns exactly where the longer sequences fit. -/
  admits : ∀ now treeId tokens branch, state.model.live.get? treeId = some branch →
    ((∃ charged, (state.cache.extend now treeId tokens).1 = .ok charged) ↔
      (∀ budget, perTreeBudget = some budget →
        (((state.model.appended treeId branch tokens).cached branch.ns).card : Int) ≤ budget) ∧
      ((state.model.appended treeId branch tokens).totalCached : Int) ≤ capacityTokens)
  /-- An extend that raises leaves the branches, their sequences and all counters. -/
  leaves : ∀ now treeId tokens raised, (state.cache.extend now treeId tokens).1 = .error raised →
    (state.cache.extend now treeId tokens).2.trees = state.cache.trees ∧
    (state.cache.extend now treeId tokens).2.treeTokens = state.cache.treeTokens ∧
    (state.cache.extend now treeId tokens).2.stats = state.cache.stats
  /-- No later call can tell. -/
  later : ∀ now treeId tokens raised, (state.cache.extend now treeId tokens).1 = .error raised →
    ∀ ops, Meets (fun state op => some (state.step op)) NamespaceFree state ops →
      (state.cache.extend now treeId tokens).2.results ops = state.cache.results ops

theorem new_within {capacityTokens : Int} {perTreeBudget : Option Int} {start : TreeKVCache τ}
    (created : TreeKVCache.new capacityTokens perTreeBudget = .ok start) :
    0 ≤ capacityTokens ∧ (∀ budget, perTreeBudget = some budget → 0 ≤ budget) ∧
      Within capacityTokens.toNat (perTreeBudget.map Int.toNat) start PrefixModel.init := by
  rw [TreeKVCache.new] at created
  split at created
  next => cases created
  next nonneg =>
    split at created
    next => cases created
    next budgetNonneg =>
      cases created
      refine ⟨by omega, fun budget isBudget => ?_, rfl, rfl, Int.natCast_nonneg _, fun limit _ ns => Nat.zero_le _⟩
      rw [isBudget, Option.any_some, decide_eq_true_eq] at budgetNonneg
      omega

theorem within_of_reachable {capacityTokens : Int} {perTreeBudget : Option Int} {start : TreeKVCache τ}
    {state : Tracked τ} (created : TreeKVCache.new capacityTokens perTreeBudget = .ok start)
    (reached : Reachable Step NamespaceFree ⟨start, PrefixModel.init⟩ state) :
    Agrees state.cache state.model ∧
      Within capacityTokens.toNat (perTreeBudget.map Int.toNat) state.cache state.model := by
  refine reached.invariant (motive := fun state => Agrees state.cache state.model ∧
    Within capacityTokens.toNat (perTreeBudget.map Int.toNat) state.cache state.model)
    ⟨Agrees.of_new created, (new_within created).2.2⟩ ?_
  rintro before op after ⟨agrees, within⟩ free taken
  subst taken
  exact ⟨agrees.perform op (unused_of_free agrees free), within.perform agrees op⟩

/-- An extend that raises changes the shape of the trees at most. -/
theorem alike_of_raised {state : Tracked τ} (agrees : Agrees state.cache state.model) {now : Nat} {treeId : String}
    {tokens : List τ} {raised : CacheError} (refused : (state.cache.extend now treeId tokens).1 = .error raised) :
    Alike state.cache (state.cache.extend now treeId tokens).2 state.model := by
  have after := (agrees.extend_spec now treeId tokens).1
  rw [refused] at after
  refine ⟨agrees, after, ?_⟩
  cases live : state.model.live.get? treeId with
  | none => rw [agrees.extend_absent live, TreeKVCache.Still]
  | some branch =>
    have outcome := agrees.extend_outcome live now tokens
    split at outcome
    next => exact outcome.2
    next =>
      split at outcome
      next => exact outcome.2
      next =>
        rw [outcome.1] at refused
        cases refused

theorem extend_admits {capacityTokens : Int} {perTreeBudget : Option Int} {state : Tracked τ} {treeId : String}
    {branch : Live τ} (nonneg : 0 ≤ capacityTokens) (budgetNonneg : ∀ budget, perTreeBudget = some budget → 0 ≤ budget)
    (agrees : Agrees state.cache state.model)
    (within : Within capacityTokens.toNat (perTreeBudget.map Int.toNat) state.cache state.model)
    (live : state.model.live.get? treeId = some branch) (now : Nat) (tokens : List τ) :
    (∃ charged, (state.cache.extend now treeId tokens).1 = .ok charged) ↔
      (∀ budget, perTreeBudget = some budget →
        (((state.model.appended treeId branch tokens).cached branch.ns).card : Int) ≤ budget) ∧
      ((state.model.appended treeId branch tokens).totalCached : Int) ≤ capacityTokens := by
  have resident : state.cache.stats.residentTokens = (state.model.totalCached : Int) := by
    rw [agrees.resident, ← agrees.reachableTokens_eq]
    rfl
  have fits := within.resident
  rw [resident] at fits
  have outcome := agrees.extend_outcome live now tokens
  rw [within.sameCapacity, within.sameBudget, resident] at outcome
  rw [PrefixModel.card_cached_appended live, PrefixModel.totalCached_appended live]
  split at outcome
  next exceeds =>
    obtain ⟨limit, isLimit, exceeded⟩ := (Option.any_eq_true _ _).1 exceeds
    obtain ⟨budget, isBudget, rfl⟩ := Option.map_eq_some_iff.1 isLimit
    rw [decide_eq_true_eq] at exceeded
    refine iff_of_false ?_ fun both => ?_
    · rintro ⟨charged, returned⟩
      rw [outcome.1] at returned
      cases returned
    · have bound := both.1 budget isBudget
      omega
  next notOver =>
    have bounds : ∀ budget, perTreeBudget = some budget →
        (((state.model.cached branch.ns).card + state.model.missing branch tokens : Nat) : Int) ≤ budget := by
      intro budget isBudget
      rw [isBudget, Option.map_some, Option.any_some, decide_eq_true_eq] at notOver
      have positive := budgetNonneg budget isBudget
      omega
    split at outcome
    next full =>
      refine iff_of_false ?_ fun both => ?_
      · rintro ⟨charged, returned⟩
        rw [outcome.1] at returned
        cases returned
      · have bound := both.2
        omega
    next notFull =>
      refine iff_of_true ⟨_, outcome.1⟩ ⟨bounds, ?_⟩
      -- a call that charges nothing is not measured, but what is there fits already
      by_cases nothing : state.model.missing branch tokens = 0
      · omega
      · have room := not_and.1 notFull (Nat.pos_of_ne_zero nothing)
        omega

theorem exact_admission {capacityTokens : Int} {perTreeBudget : Option Int} {start : TreeKVCache τ} {state : Tracked τ}
    (created : TreeKVCache.new capacityTokens perTreeBudget = .ok start)
    (reached : Reachable Step NamespaceFree ⟨start, PrefixModel.init⟩ state) :
    ExactAdmission capacityTokens perTreeBudget state := by
  obtain ⟨agrees, within⟩ := within_of_reachable created reached
  obtain ⟨nonneg, budgetNonneg, -⟩ := new_within created
  refine ⟨fun now treeId tokens branch live => extend_admits nonneg budgetNonneg agrees within live now tokens,
    fun now treeId tokens raised refused => ?_, fun now treeId tokens raised refused ops meets =>
      results_alike ops (alike_of_raised agrees refused) meets⟩
  have still := (alike_of_raised agrees refused).still
  rw [still]
  exact ⟨rfl, rfl, rfl⟩

/-- A refused extend between calls that go through. -/
def refusedRun : List (Op Nat) :=
  [.createTree "p", .extend 1 "p" [1, 2, 3], .forkBranch "p" (some "c"), .extend 2 "c" [4, 5, 6], .extend 3 "c" [4]]

theorem refusedRun_exact_admission :
    ExactAdmission 5 (some 4) (refusedRun.foldl step ⟨.fresh 5 (some 4), PrefixModel.init⟩) := by
  have created : TreeKVCache.new 5 (some 4) = .ok (.fresh 5 (some 4) : TreeKVCache Nat) := rfl
  exact exact_admission created (reachable_foldl (by decide))

end Tracked

end Agentfork.Kv

import Agentfork.Kv.Agreement

/-! # Every method keeps the representation invariant

For each method: from an agreeing cache, what the call returns is what the set
model says, and the cache it leaves agrees with the model after the call. -/

namespace Agentfork.Kv

variable {τ : Type} [DecidableEq τ]

namespace Agrees

variable {cache : TreeKVCache τ} {model : PrefixModel τ}

/-! ## What the invariant gives for one live branch -/

theorem tree_absent (agrees : Agrees cache model) {treeId : String} :
    cache.trees.get? treeId = none ↔ model.live.get? treeId = none := by
  have same := agrees.trees treeId
  cases cacheFound : cache.trees.get? treeId <;> cases modelFound : model.live.get? treeId <;>
    simp_all

theorem branch_of_tree (agrees : Agrees cache model) {treeId : String} {tid : TreeId}
    (found : cache.trees.get? treeId = some tid) :
    ∃ branch, model.live.get? treeId = some branch ∧ branch.ns = tid.ns := by
  have same := agrees.trees treeId
  rw [found] at same
  obtain ⟨branch, live, nsEqual⟩ := Option.map_eq_some_iff.1 same.symm
  exact ⟨branch, live, nsEqual⟩

theorem tree_of_branch (agrees : Agrees cache model) {treeId : String} {branch : Live τ}
    (live : model.live.get? treeId = some branch) :
    ∃ tid, cache.trees.get? treeId = some tid ∧ tid.ns = branch.ns := by
  have same := agrees.trees treeId
  rw [live] at same
  obtain ⟨tid, found, nsEqual⟩ := Option.map_eq_some_iff.1 same
  exact ⟨tid, found, nsEqual⟩

theorem tokens_of_branch (agrees : Agrees cache model) {treeId : String} {branch : Live τ}
    (live : model.live.get? treeId = some branch) :
    cache.treeTokens.get? treeId = some branch.tokens := by
  rw [agrees.tokens, live]
  rfl

theorem root_of_branch (agrees : Agrees cache model) {treeId : String} {branch : Live τ}
    (live : model.live.get? treeId = some branch) :
    ∃ tree, cache.root.get? branch.ns = some tree :=
  Dict.mem_iff_get?.1 ((agrees.roots branch.ns).2 ⟨treeId, branch, live, rfl⟩)

theorem mem_owners_iff {treeId : String} {branch : Live τ} (live : model.live.get? treeId = some branch)
    (path : List τ) : treeId ∈ model.owners branch.ns path ↔ path <+: branch.tokens := by
  rw [PrefixModel.mem_owners, live]
  simp

theorem owners_monotone (model : PrefixModel τ) (ns : String) (path rest : List τ) :
    model.owners ns (path ++ rest) ⊆ model.owners ns path := by
  intro treeId member
  obtain ⟨branch, live, here, isPrefix⟩ := PrefixModel.mem_owners.1 member
  exact PrefixModel.mem_owners.2 ⟨branch, live, here, (List.prefix_append _ _).trans isPrefix⟩

theorem domain_eq_cached (agrees : Agrees cache model) {ns : String} {tree : RadixTree τ NodeData}
    (found : cache.root.get? ns = some tree) : tree.domain = model.cached ns := by
  ext path
  rw [(agrees.holds ns tree found).mem_domain, PrefixModel.mem_cached]

theorem paths_eq_cached (agrees : Agrees cache model) (ns : String) :
    cache.paths ns = model.cached ns := by
  unfold TreeKVCache.paths
  cases found : cache.root.get? ns with
  | some tree => exact agrees.domain_eq_cached found
  | none =>
    ext path
    rw [PrefixModel.mem_cached]
    refine iff_of_false (Finset.notMem_empty path) ?_
    rintro ⟨_, treeId, owner⟩
    obtain ⟨branch, live, here, _⟩ := PrefixModel.mem_owners.1 owner
    exact Dict.get?_eq_none.1 found ((agrees.roots ns).2 ⟨treeId, branch, live, here⟩)

/-- The tokens the nodes hold are the sizes of the cached sets. -/
theorem reachableTokens_eq (agrees : Agrees cache model) :
    cache.reachableTokens = model.totalCached := by
  have sameKeys : cache.root.keys.toFinset = model.namespaces := by
    ext ns
    rw [List.mem_toFinset, Dict.mem_keys, agrees.roots, PrefixModel.mem_namespaces]
  rw [TreeKVCache.reachableTokens, Dict.total_eq_sum, sameKeys]
  refine Finset.sum_congr rfl fun ns _ => ?_
  rw [← agrees.paths_eq_cached, TreeKVCache.paths]
  cases cache.root.get? ns with
  | none => rfl
  | some tree => exact (RadixTree.card_domain tree).symm

theorem fresh (capacity : Nat) (perTreeBudget : Option Nat) :
    Agrees (TreeKVCache.fresh capacity perTreeBudget : TreeKVCache τ) PrefixModel.init where
  trees _ := rfl
  tokens _ := rfl
  roots ns := by simp [TreeKVCache.fresh, PrefixModel.init]
  holds _ _ found := by cases found
  ends _ _ _ live := by cases live
  resident := rfl

/-- Replacing the tree of one namespace by one that holds the same. -/
theorem replaceTree (agrees : Agrees cache model) {ns : String} {tree other : RadixTree τ NodeData}
    (found : cache.root.get? ns = some tree) (holds : Holds other (model.owners ns))
    (ends : ∀ path, tree.Ends path → other.Ends path) (size : other.size = tree.size) :
    Agrees { cache with root := cache.root.insert ns other } model where
  trees := agrees.trees
  tokens := agrees.tokens
  roots key := by
    rw [Dict.mem_insert, agrees.roots]
    refine or_iff_right_of_imp ?_
    rintro rfl
    exact (agrees.roots key).1 (Dict.mem_of_get? found)
  holds key stored lookup := by
    rw [Dict.get?_insert] at lookup
    split at lookup
    · next same => cases lookup; exact same ▸ holds
    · exact agrees.holds key stored lookup
  ends treeId branch stored live lookup := by
    rw [Dict.get?_insert] at lookup
    split at lookup
    · next same =>
      cases lookup
      exact ends _ (agrees.ends treeId branch tree live (same ▸ found))
    · exact agrees.ends treeId branch stored live lookup
  resident := by
    have total := Dict.total_insert RadixTree.size cache.root ns other
    rw [found, Option.map_some, Option.getD_some, size] at total
    rw [agrees.resident]
    change (_ : Int) = ((cache.root.insert ns other).total RadixTree.size : Nat)
    omega

/-! ## create_tree -/

/-- No branch of the namespace `treeId` holds a token. -/
def Unused (model : PrefixModel τ) (treeId : String) : Prop :=
  ∀ other branch, model.live.get? other = some branch → branch.ns = treeId → branch.tokens = []

theorem owners_unused {treeId : String} (unused : Unused model treeId) {path : List τ}
    (nonempty : path ≠ []) : model.owners treeId path = ∅ := by
  rw [Finset.eq_empty_iff_forall_notMem]
  intro other owner
  obtain ⟨branch, live, here, isPrefix⟩ := PrefixModel.mem_owners.1 owner
  rw [unused other branch live here, List.prefix_nil] at isPrefix
  exact nonempty isPrefix

theorem createTree (agrees : Agrees cache model) {treeId : String}
    (unused : model.live.get? treeId = none → Unused model treeId) :
    Agrees (cache.createTree treeId).2 (model.next (.createTree treeId)
      (Except.map .tree (cache.createTree treeId).1)) := by
  unfold TreeKVCache.createTree
  split
  · exact agrees
  · next absent =>
    have notLive := agrees.tree_absent.1 (Dict.get?_eq_none.2 absent)
    have unused := unused notLive
    -- the entry replaced, if any, is an empty tree
    have replacedEmpty : ((cache.root.get? treeId).map RadixTree.size).getD 0 = 0 := by
      cases found : cache.root.get? treeId with
      | none => rfl
      | some tree =>
        have empty := (agrees.holds treeId tree found).eq_empty fun path nonempty =>
          owners_unused unused nonempty
        rw [empty]
        rfl
    have sameOwners : ∀ ns path, path ≠ [] →
        (PrefixModel.mk (model.live.insert treeId ⟨treeId, []⟩)).owners ns path =
          model.owners ns path := by
      intro ns path nonempty
      rw [PrefixModel.owners_insert, if_neg (by simp [nonempty]),
        Finset.erase_eq_of_notMem (PrefixModel.not_mem_owners notLive)]
    refine ⟨fun other => ?_, fun other => ?_, fun ns => ?_, fun ns tree lookup => ?_,
      fun other branch tree live lookup => ?_, ?_⟩
    · simp only [PrefixModel.next, Except.map, Dict.get?_insert]
      split
      · rfl
      · exact agrees.trees other
    · simp only [PrefixModel.next, Except.map, Dict.get?_insert]
      split
      · rfl
      · exact agrees.tokens other
    · simp only [PrefixModel.next, Except.map, Dict.mem_insert, agrees.roots]
      constructor
      · rintro (rfl | ⟨other, branch, live, here⟩)
        · exact ⟨ns, ⟨ns, []⟩, by simp, rfl⟩
        · refine ⟨other, branch, ?_, here⟩
          rw [Dict.get?_insert, if_neg]
          · exact live
          · rintro rfl
            rw [notLive] at live
            cases live
      · rintro ⟨other, branch, live, here⟩
        rw [Dict.get?_insert] at live
        split at live
        · cases live; exact .inl here.symm
        · exact .inr ⟨other, branch, live, here⟩
    · simp only [PrefixModel.next, Except.map]
      rw [Dict.get?_insert] at lookup
      split at lookup
      · next same =>
        cases lookup
        subst same
        exact Holds.empty fun path nonempty => (sameOwners _ path nonempty).trans
          (owners_unused unused nonempty)
      · exact (agrees.holds ns tree lookup).congr fun path nonempty => (sameOwners ns path nonempty).symm
    · simp only [PrefixModel.next, Except.map, Dict.get?_insert] at live lookup
      split at live
      · cases live; exact RadixTree.ends_nil_path tree
      · split at lookup
        · next same => rw [unused other branch live same]; exact RadixTree.ends_nil_path tree
        · exact agrees.ends other branch tree live lookup
    · have total := Dict.total_insert RadixTree.size cache.root treeId .empty
      rw [replacedEmpty, RadixTree.size_empty] at total
      change cache.stats.residentTokens = ((cache.root.insert treeId .empty).total RadixTree.size : Nat)
      rw [agrees.resident]
      omega

/-! ## fork_branch -/

theorem forkBranch_agrees (agrees : Agrees cache model) {parentId : String} {childId : Option String} :
    Agrees (cache.forkBranch parentId childId).2 (model.next (.forkBranch parentId childId)
      (Except.map .tree (cache.forkBranch parentId childId).1)) := by
  unfold TreeKVCache.forkBranch
  cases parentFound : cache.trees.get? parentId with
  | none => exact agrees
  | some parent =>
    obtain ⟨branch, live, nsEqual⟩ := agrees.branch_of_tree parentFound
    obtain ⟨tree, rootFound⟩ := agrees.root_of_branch live
    have tokensFound := agrees.tokens_of_branch live
    rw [nsEqual] at rootFound
    simp only
    split
    · exact ⟨agrees.trees, agrees.tokens, agrees.roots, agrees.holds, agrees.ends, agrees.resident⟩
    · next absent =>
      simp only [tokensFound, rootFound]
      generalize TreeKVCache.childName parentId childId cache.childSeq = child at absent
      have notLive := agrees.tree_absent.1 (Dict.get?_eq_none.2 absent)
      have ends : tree.Ends branch.tokens := agrees.ends parentId branch tree live (nsEqual ▸ rootFound)
      have holds := agrees.holds parent.ns tree rootFound
      have member : ∀ path, parentId ∈ model.owners parent.ns path ↔ path <+: branch.tokens :=
        nsEqual ▸ mem_owners_iff live
      have bumped := holds.bump ends (fun path onPath => ⟨parentId, (member path).2 onPath⟩)
        (fun path => PrefixModel.not_mem_owners notLive)
      have bumpedSize := RadixTree.size_visit (NodeData.bump child) (fun _ => false) tree branch.tokens
      have sameSize : (tree.visit (NodeData.bump child) (fun _ => false) branch.tokens).1.size =
          tree.size := by
        rw [← RadixTree.card_domain, ← RadixTree.card_domain]
        congr 1
        ext path
        rw [bumped.mem_domain, holds.mem_domain]
        split
        · next onPath =>
          exact and_congr_right fun _ => iff_of_true (Finset.insert_nonempty _ _)
            ⟨parentId, (member path).2 onPath⟩
        · rfl
      simp only [PrefixModel.next, Except.map, live]
      refine ⟨fun other => ?_, fun other => ?_, fun ns => ?_, fun ns stored lookup => ?_,
        fun other found stored liveOther lookup => ?_, ?_⟩
      · simp only [Dict.get?_insert]
        split
        · exact congrArg some nsEqual.symm
        · exact agrees.trees other
      · simp only [Dict.get?_insert]
        split
        · rfl
        · exact agrees.tokens other
      · simp only [Dict.mem_insert, agrees.roots]
        constructor
        · rintro (rfl | ⟨other, found, liveOther, here⟩)
          · exact ⟨child, branch, by simp, nsEqual⟩
          · refine ⟨other, found, ?_, here⟩
            rw [Dict.get?_insert, if_neg]
            · exact liveOther
            · rintro rfl
              rw [notLive] at liveOther
              cases liveOther
        · rintro ⟨other, found, liveOther, here⟩
          rw [Dict.get?_insert] at liveOther
          split at liveOther
          · cases liveOther; exact .inl (here.symm.trans nsEqual)
          · exact .inr ⟨other, found, liveOther, here⟩
      · rw [Dict.get?_insert] at lookup
        split at lookup
        · next same =>
          cases lookup
          subst same
          refine bumped.congr fun path _ => ?_
          rw [PrefixModel.owners_insert]
          simp only [nsEqual, true_and]
          split
          · rfl
          · rw [Finset.erase_eq_of_notMem (PrefixModel.not_mem_owners notLive)]
        · next differs =>
          refine (agrees.holds ns stored lookup).congr fun path _ => ?_
          rw [PrefixModel.owners_insert, if_neg, Finset.erase_eq_of_notMem
            (PrefixModel.not_mem_owners notLive)]
          exact fun here => differs (here.1.symm.trans nsEqual)
      · rw [Dict.get?_insert] at liveOther lookup
        split at lookup
        · next same =>
          cases lookup
          rw [RadixTree.ends_visit_immortal ends]
          split at liveOther
          · cases liveOther; exact ends
          · exact agrees.ends other found tree liveOther (same ▸ rootFound)
        · next differs =>
          split at liveOther
          · cases liveOther; exact absurd nsEqual differs
          · exact agrees.ends other found stored liveOther lookup
      · have total := Dict.total_insert RadixTree.size cache.root parent.ns
          (tree.visit (NodeData.bump child) (fun _ => false) branch.tokens).1
        rw [rootFound, Option.map_some, Option.getD_some, sameSize] at total
        change cache.stats.residentTokens = ((cache.root.insert parent.ns _).total RadixTree.size : Nat)
        rw [agrees.resident]
        omega

/-! ## kill -/

theorem namespaceLive_iff (agrees : Agrees cache model) (treeId ns : String) :
    TreeKVCache.namespaceLive (cache.trees.erase treeId) ns = true ↔
      ∃ other branch, other ≠ treeId ∧ model.live.get? other = some branch ∧ branch.ns = ns := by
  simp only [TreeKVCache.namespaceLive, List.any_eq_true, Dict.mem_values, Dict.get?_erase,
    decide_eq_true_iff]
  constructor
  · rintro ⟨tid, ⟨other, found⟩, here⟩
    split at found
    · cases found
    · next differs =>
      obtain ⟨branch, live, nsEqual⟩ := agrees.branch_of_tree found
      exact ⟨other, branch, differs, live, nsEqual.trans here⟩
  · rintro ⟨other, branch, differs, live, here⟩
    obtain ⟨tid, found, nsEqual⟩ := agrees.tree_of_branch live
    exact ⟨tid, ⟨other, by rw [if_neg differs, found]⟩, nsEqual.trans here⟩

/-- What `kill` frees and leaves in the namespace of a live branch. -/
theorem sweep (agrees : Agrees cache model) {treeId : String} {branch : Live τ} {tree : RadixTree τ NodeData}
    (live : model.live.get? treeId = some branch) (found : cache.root.get? branch.ns = some tree) :
    Holds (tree.visit (NodeData.drop treeId) NodeData.dead branch.tokens).1
      (fun path => (model.owners branch.ns path).erase treeId) ∧
    (∀ other alive, other ≠ treeId → model.live.get? other = some alive → alive.ns = branch.ns →
      (tree.visit (NodeData.drop treeId) NodeData.dead branch.tokens).1.Ends alive.tokens) ∧
    (tree.visit (NodeData.drop treeId) NodeData.dead branch.tokens).2 =
      (prefixes branch.tokens \ model.cachedByOthers treeId branch.ns).card := by
  have holds := agrees.holds branch.ns tree found
  have ends := agrees.ends treeId branch tree live found
  have monotone := owners_monotone model branch.ns
  have member := mem_owners_iff live
  have swept := holds.drop ends monotone member
  refine ⟨swept, fun other alive differs otherLive here => ?_, ?_⟩
  · rw [RadixTree.ends_visit ends (holds.hereditary monotone member)]
    refine ⟨agrees.ends other alive tree otherLive (here ▸ found), ?_⟩
    by_cases empty : alive.tokens = []
    · exact .inl empty
    · refine .inr ?_
      rw [← RadixTree.mem_domain, swept.mem_domain]
      refine ⟨empty, other, Finset.mem_erase.2 ⟨differs, ?_⟩⟩
      exact PrefixModel.mem_owners.2 ⟨alive, otherLive, here, List.prefix_refl _⟩
  · -- the paths lost are the prefixes of the sequence that no other branch goes through
    have sizes := RadixTree.size_visit (NodeData.drop treeId) NodeData.dead tree branch.tokens
    rw [← RadixTree.card_domain, ← RadixTree.card_domain] at sizes
    have lost : prefixes branch.tokens \ model.cachedByOthers treeId branch.ns =
        tree.domain \ (tree.visit (NodeData.drop treeId) NodeData.dead branch.tokens).1.domain := by
      ext path
      simp only [Finset.mem_sdiff, mem_prefixes, PrefixModel.mem_cachedByOthers, holds.mem_domain,
        swept.mem_domain]
      constructor
      · rintro ⟨⟨nonempty, onPath⟩, others⟩
        exact ⟨⟨nonempty, treeId, (member path).2 onPath⟩, others⟩
      · rintro ⟨⟨nonempty, owner, isOwner⟩, others⟩
        refine ⟨⟨nonempty, (member path).1 ?_⟩, others⟩
        by_contra notOwner
        refine others ⟨nonempty, owner, Finset.mem_erase.2 ⟨?_, isOwner⟩⟩
        rintro rfl
        exact notOwner isOwner
    have shrinks : (tree.visit (NodeData.drop treeId) NodeData.dead branch.tokens).1.domain ⊆
        tree.domain := by
      intro path inside
      obtain ⟨nonempty, others⟩ := swept.mem_domain.1 inside
      exact holds.mem_domain.2 ⟨nonempty, others.mono (Finset.erase_subset _ _)⟩
    rw [lost, Finset.card_sdiff_of_subset shrinks]
    omega

theorem kill_result (agrees : Agrees cache model) {treeId : String} {branch : Live τ}
    (live : model.live.get? treeId = some branch) : (cache.kill treeId).1 =
      .ok (prefixes branch.tokens \ model.cachedByOthers treeId branch.ns).card := by
  obtain ⟨tid, treeFound, nsEqual⟩ := agrees.tree_of_branch live
  obtain ⟨tree, rootFound⟩ := agrees.root_of_branch live
  have freed := (agrees.sweep live rootFound).2.2
  simp only [TreeKVCache.kill, treeFound, nsEqual, rootFound, agrees.tokens_of_branch live, freed]

theorem kill_agrees (agrees : Agrees cache model) (treeId : String) :
    Agrees (cache.kill treeId).2 (model.next (.kill treeId) (Except.map .tokens (cache.kill treeId).1)) := by
  cases treeFound : cache.trees.get? treeId with
  | none =>
    have notLive := agrees.tree_absent.1 treeFound
    simp only [TreeKVCache.kill, treeFound, PrefixModel.next, Except.map]
    have sameLive : ∀ other, (model.live.erase treeId).get? other = model.live.get? other := by
      intro other
      rw [Dict.get?_erase]
      split
      · next same => rw [same, notLive]
      · rfl
    have sameOwners : ∀ ns path, (PrefixModel.mk (model.live.erase treeId)).owners ns path =
        model.owners ns path := by
      intro ns path
      rw [PrefixModel.owners_erase, Finset.erase_eq_of_notMem (PrefixModel.not_mem_owners notLive)]
    refine ⟨fun other => ?_, fun other => ?_, fun ns => ?_, fun ns tree lookup => ?_,
      fun other branch tree live lookup => ?_, agrees.resident⟩
    · rw [sameLive]; exact agrees.trees other
    · rw [sameLive]; exact agrees.tokens other
    · simp only [sameLive]; exact agrees.roots ns
    · exact (agrees.holds ns tree lookup).congr fun path _ => (sameOwners ns path).symm
    · rw [sameLive] at live; exact agrees.ends other branch tree live lookup
  | some tid =>
    obtain ⟨branch, live, nsEqual⟩ := agrees.branch_of_tree treeFound
    obtain ⟨tree, rootFound⟩ := agrees.root_of_branch live
    obtain ⟨swept, ends, _⟩ := agrees.sweep live rootFound
    have sizes := RadixTree.size_visit (NodeData.drop treeId) NodeData.dead tree branch.tokens
    have tokensFound := agrees.tokens_of_branch live
    have anyLive := agrees.namespaceLive_iff treeId branch.ns
    rw [nsEqual] at rootFound swept ends anyLive
    simp only [TreeKVCache.kill, treeFound, rootFound, tokensFound, PrefixModel.next, Except.map]
    generalize visitEqual : tree.visit (NodeData.drop treeId) NodeData.dead branch.tokens = visited at *
    -- the new root of each namespace
    have newRoot : ∀ ns, (if TreeKVCache.namespaceLive (cache.trees.erase treeId) tid.ns then
        cache.root.insert tid.ns visited.1 else (cache.root.insert tid.ns visited.1).erase tid.ns).get? ns =
        if ns = tid.ns then
          (if TreeKVCache.namespaceLive (cache.trees.erase treeId) tid.ns then some visited.1 else none)
        else cache.root.get? ns := by
      intro ns
      split
      · simp only [Dict.get?_insert]
      · simp only [Dict.get?_erase, Dict.get?_insert]
        split <;> rfl
    refine ⟨fun other => ?_, fun other => ?_, fun ns => ?_, fun ns stored lookup => ?_,
      fun other found stored liveOther lookup => ?_, ?_⟩
    · simp only [Dict.get?_erase]
      split
      · rfl
      · exact agrees.trees other
    · simp only [Dict.get?_erase]
      split
      · rfl
      · exact agrees.tokens other
    · rw [Dict.mem_iff_get?]
      simp only [newRoot, Dict.get?_erase]
      by_cases here : ns = tid.ns
      · subst here
        rw [if_pos rfl]
        constructor
        · rintro ⟨stored, lookup⟩
          split at lookup
          · next isLive =>
            obtain ⟨other, found, differs, liveOther, here⟩ := anyLive.1 isLive
            exact ⟨other, found, by rw [if_neg differs, liveOther], here⟩
          · cases lookup
        · rintro ⟨other, found, liveOther, here⟩
          split at liveOther
          · cases liveOther
          · next differs => exact ⟨visited.1, if_pos (anyLive.2 ⟨other, found, differs, liveOther, here⟩)⟩
      · rw [if_neg here, ← Dict.mem_iff_get?, agrees.roots]
        constructor
        · rintro ⟨other, found, liveOther, atNs⟩
          refine ⟨other, found, ?_, atNs⟩
          rw [if_neg]
          · exact liveOther
          · rintro rfl
            rw [live] at liveOther
            cases liveOther
            exact here (atNs.symm.trans nsEqual)
        · rintro ⟨other, found, liveOther, atNs⟩
          split at liveOther
          · cases liveOther
          · exact ⟨other, found, liveOther, atNs⟩
    · rw [newRoot] at lookup
      refine Holds.congr ?_ fun path _ => PrefixModel.owners_erase.symm
      split at lookup
      · next here =>
        subst here
        split at lookup
        · cases lookup; exact swept
        · cases lookup
      · next elsewhere =>
        refine (agrees.holds ns stored lookup).congr fun path _ => ?_
        refine (Finset.erase_eq_of_notMem fun owner => ?_).symm
        obtain ⟨found, liveOther, here, _⟩ := PrefixModel.mem_owners.1 owner
        rw [live] at liveOther
        cases liveOther
        exact elsewhere (here.symm.trans nsEqual)
    · simp only [Dict.get?_erase] at liveOther
      split at liveOther
      · cases liveOther
      · next differs =>
        rw [newRoot] at lookup
        split at lookup
        · next here =>
          split at lookup
          · cases lookup; exact ends other found differs liveOther here
          · cases lookup
        · exact agrees.ends other found stored liveOther lookup
    · have inserted := Dict.total_insert RadixTree.size cache.root tid.ns visited.1
      rw [rootFound, Option.map_some, Option.getD_some] at inserted
      have erased := Dict.total_erase RadixTree.size (cache.root.insert tid.ns visited.1) tid.ns
      rw [Dict.get?_insert, if_pos rfl, Option.map_some, Option.getD_some] at erased
      change cache.stats.residentTokens - visited.2 = ((if _ then _ else _ : Dict String (RadixTree τ NodeData)).total
        RadixTree.size : Nat)
      rw [agrees.resident]
      split
      · omega
      · next notLive =>
        -- the last branch of the namespace leaves an empty tree
        have noOwners : ∀ path, path ≠ [] → (model.owners tid.ns path).erase treeId = ∅ := by
          intro path _
          rw [Finset.eq_empty_iff_forall_notMem]
          intro other owner
          obtain ⟨differs, owner⟩ := Finset.mem_erase.1 owner
          obtain ⟨found, liveOther, here, _⟩ := PrefixModel.mem_owners.1 owner
          exact notLive (anyLive.2 ⟨other, found, differs, liveOther, here⟩)
        have empty : visited.1.size = 0 := by
          rw [swept.eq_empty noOwners, RadixTree.size_empty]
        omega

end Agrees

end Agentfork.Kv

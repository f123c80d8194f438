import Agentfork.Kv.PrefixModel

/-! # The representation invariant of the cache

`Agrees cache model` ties a cache to the set model. The heart of it is `Holds`:
at every path the node's owners are the live branches that go through the path,
its reference count is their number, and a path without owners is not in the
tree. Together with `ends`, which puts a node end at the end of every live
sequence, it survives every method. -/

namespace Agentfork.Kv

variable {τ : Type} [DecidableEq τ]

/-- What the invariant sees of a node. -/
def NodeData.view (data : NodeData) : Int × Finset String := (data.ref, data.owners)

/-- The view of the node at a path with the given owners. -/
def ownedView (path : List τ) (owners : Finset String) : Option (Int × Finset String) :=
  if path = [] ∨ owners = ∅ then none else some (owners.card, owners)

def Holds (tree : RadixTree τ NodeData) (owners : List τ → Finset String) : Prop :=
  ∀ path, (tree.find path).map NodeData.view = ownedView path (owners path)

structure Agrees (cache : TreeKVCache τ) (model : PrefixModel τ) : Prop where
  trees : ∀ treeId, (cache.trees.get? treeId).map TreeId.ns = (model.live.get? treeId).map Live.ns
  tokens : ∀ treeId, cache.treeTokens.get? treeId = (model.live.get? treeId).map Live.tokens
  roots : ∀ ns, ns ∈ cache.root ↔ ∃ treeId branch, model.live.get? treeId = some branch ∧ branch.ns = ns
  holds : ∀ ns tree, cache.root.get? ns = some tree → Holds tree (model.owners ns)
  ends : ∀ treeId branch tree, model.live.get? treeId = some branch →
    cache.root.get? branch.ns = some tree → tree.Ends branch.tokens
  resident : cache.stats.residentTokens = cache.root.total RadixTree.size

/-! ## One namespace -/

omit [DecidableEq τ] in
theorem ownedView_eq_none {path : List τ} {owners : Finset String} :
    ownedView path owners = none ↔ path = [] ∨ owners = ∅ := by
  unfold ownedView
  split <;> simp [*]

omit [DecidableEq τ] in
theorem ownedView_eq_some {path : List τ} {owners : Finset String} (nonempty : path ≠ [])
    (owned : owners.Nonempty) : ownedView path owners = some ((owners.card : Int), owners) := by
  unfold ownedView
  rw [if_neg]
  rintro (empty | empty)
  · exact nonempty empty
  · exact owned.ne_empty empty

namespace Holds

variable {tree : RadixTree τ NodeData} {owners : List τ → Finset String}

theorem congr {others : List τ → Finset String} (holds : Holds tree owners)
    (same : ∀ path, path ≠ [] → owners path = others path) : Holds tree others := by
  intro path
  rw [holds path]
  by_cases empty : path = []
  · simp [ownedView, empty]
  · rw [same path empty]

theorem find_eq_none (holds : Holds tree owners) {path : List τ} :
    tree.find path = none ↔ path = [] ∨ owners path = ∅ := by
  rw [← Option.map_eq_none_iff (f := NodeData.view), holds path, ownedView_eq_none]

theorem mem_domain (holds : Holds tree owners) {path : List τ} :
    path ∈ tree.domain ↔ path ≠ [] ∧ (owners path).Nonempty := by
  rw [RadixTree.mem_domain, Option.isSome_iff_ne_none, Ne, holds.find_eq_none, not_or,
    Finset.nonempty_iff_ne_empty]

/-- The node at a path counts its owners, and there is at least one. -/
theorem of_find (holds : Holds tree owners) {path : List τ} {data : NodeData}
    (found : tree.find path = some data) :
    data.owners = owners path ∧ data.ref = (owners path).card ∧ (owners path).Nonempty := by
  have present : ¬ (path = [] ∨ owners path = ∅) := by
    rw [← holds.find_eq_none, found]
    simp
  have viewed := holds path
  rw [found, ownedView, if_neg present] at viewed
  simp only [Option.map_some, NodeData.view, Option.some.injEq, Prod.mk.injEq] at viewed
  exact ⟨viewed.2, viewed.1, Finset.nonempty_iff_ne_empty.2 fun empty => present (.inr empty)⟩

theorem empty (none : ∀ path, path ≠ [] → owners path = ∅) : Holds RadixTree.empty owners := by
  intro path
  rw [RadixTree.find_empty]
  refine (ownedView_eq_none.2 ?_).symm
  by_cases nonempty : path = []
  · exact .inl nonempty
  · exact .inr (none path nonempty)

theorem eq_empty (holds : Holds tree owners) (none : ∀ path, path ≠ [] → owners path = ∅) :
    tree = RadixTree.empty := by
  apply RadixTree.eq_empty_of_find_none
  intro path
  rw [holds.find_eq_none]
  by_cases nonempty : path = []
  · exact .inl nonempty
  · exact .inr (none path nonempty)

theorem walk (holds : Holds tree owners) (now : Nat) (tokens : List τ) :
    Holds (tree.walk (NodeData.touch now) tokens).1 owners := by
  intro path
  rw [RadixTree.find_walk (NodeData.touch now) NodeData.view fun _ => rfl]
  exact holds path

/-- `fork_branch` adds the child to every node of the parent's path. -/
theorem bump (holds : Holds tree owners) {tokens : List τ} {treeId : String} (ends : tree.Ends tokens)
    (owned : ∀ path, path <+: tokens → (owners path).Nonempty) (fresh : ∀ path, treeId ∉ owners path) :
    Holds (tree.visit (NodeData.bump treeId) (fun _ => false) tokens).1
      fun path => if path <+: tokens then insert treeId (owners path) else owners path := by
  intro path
  rw [RadixTree.find_visit_immortal ends]
  by_cases onPath : path <+: tokens
  · simp only [if_pos onPath]
    cases found : tree.find path with
    | none =>
      have missing := holds.find_eq_none.1 found
      refine (ownedView_eq_none.2 ?_).symm
      exact missing.imp_right fun empty => absurd empty (owned path onPath).ne_empty
    | some data =>
      obtain ⟨ownersEqual, refEqual, _⟩ := holds.of_find found
      rw [ownedView_eq_some (RadixTree.ne_nil_of_find found) (Finset.insert_nonempty _ _),
        Finset.card_insert_of_notMem (fresh path)]
      simp [NodeData.view, NodeData.bump, ownersEqual, refEqual]
  · simp only [if_neg onPath]
    exact holds path

/-- `_add_refs` makes the tree an owner of every node of its path. -/
theorem addRef (holds : Holds tree owners) {tokens : List τ} (treeId : String) (ends : tree.Ends tokens)
    (owned : ∀ path, path ≠ [] → path <+: tokens → (owners path).Nonempty) :
    Holds (tree.visit (NodeData.addRef treeId) (fun _ => false) tokens).1
      fun path => if path <+: tokens then insert treeId (owners path) else owners path := by
  intro path
  rw [RadixTree.find_visit_immortal ends]
  by_cases onPath : path <+: tokens
  · simp only [if_pos onPath]
    cases found : tree.find path with
    | none =>
      refine (ownedView_eq_none.2 (.inl ?_)).symm
      by_contra nonempty
      exact (owned path nonempty onPath).ne_empty ((holds.find_eq_none.1 found).resolve_left nonempty)
    | some data =>
      obtain ⟨ownersEqual, refEqual, _⟩ := holds.of_find found
      rw [ownedView_eq_some (RadixTree.ne_nil_of_find found) (Finset.insert_nonempty _ _)]
      by_cases already : treeId ∈ owners path
      · simp [NodeData.view, NodeData.addRef, ownersEqual, refEqual, already]
      · simp [NodeData.view, NodeData.addRef, NodeData.bump, ownersEqual, refEqual, already]
  · simp only [if_neg onPath]
    exact holds path

/-- Adding a leaf owned by one tree below a node end. -/
theorem attach (holds : Holds tree owners) {path leaf : List τ} (now : Nat) (treeId : String)
    (nonempty : leaf ≠ []) (ends : tree.Ends path) (absent : tree.find (path ++ leaf.take 1) = none) :
    Holds (tree.attach path leaf ⟨1, {treeId}, now⟩) fun query =>
      if path.length < query.length ∧ query <+: path ++ leaf then {treeId} else owners query := by
  intro query
  rw [RadixTree.find_attach _ nonempty ends absent]
  by_cases inLeaf : path.length < query.length ∧ query <+: path ++ leaf
  · have further : query ≠ [] := by rintro rfl; simp at inLeaf
    simp only [if_pos inLeaf]
    rw [ownedView_eq_some further (Finset.singleton_nonempty treeId)]
    simp [NodeData.view]
  · simp only [if_neg inLeaf]
    exact holds query

/-- A node that `kill` lets die has no other owner below it. -/
theorem hereditary (holds : Holds tree owners) {tokens : List τ} {treeId : String}
    (monotone : ∀ path rest, owners (path ++ rest) ⊆ owners path)
    (member : ∀ path, treeId ∈ owners path ↔ path <+: tokens) :
    tree.forest.Hereditary (NodeData.drop treeId) NodeData.dead tokens := by
  intro path data onPath found isDead rest other foundBelow
  obtain ⟨_, refEqual, _⟩ := holds.of_find found
  obtain ⟨_, refBelow, ownedBelow⟩ := holds.of_find foundBelow
  rw [NodeData.dead_drop_iff] at isDead
  have single : (owners path).card = 1 := by
    have positive := Finset.card_pos.2 ⟨treeId, (member path).2 onPath⟩
    omega
  obtain ⟨owner, ownersEqual⟩ := Finset.card_eq_one.1 single
  have isTree : owner = treeId := by
    have := (member path).2 onPath
    rw [ownersEqual, Finset.mem_singleton] at this
    exact this.symm
  subst isTree
  have below : owners (path ++ rest) = {owner} := by
    refine Finset.Nonempty.subset_singleton_iff ownedBelow |>.1 ?_
    exact ownersEqual ▸ monotone path rest
  refine ⟨(member _).1 (by rw [below]; exact Finset.mem_singleton_self _), ?_⟩
  rw [NodeData.dead_drop_iff, refBelow, below]
  simp

/-- `kill` takes the tree out of every node of its path and drops the nodes
that no other tree owns. -/
theorem drop (holds : Holds tree owners) {tokens : List τ} {treeId : String} (ends : tree.Ends tokens)
    (monotone : ∀ path rest, owners (path ++ rest) ⊆ owners path)
    (member : ∀ path, treeId ∈ owners path ↔ path <+: tokens) :
    Holds (tree.visit (NodeData.drop treeId) NodeData.dead tokens).1 fun path =>
      (owners path).erase treeId := by
  intro path
  rw [RadixTree.find_visit ends (holds.hereditary monotone member)]
  simp only [RadixForest.visited]
  split
  · next onPath =>
    have isOwner := (member path).2 onPath
    have cards := Finset.card_erase_of_mem isOwner
    change Option.map NodeData.view ((tree.find path).bind _) = _
    cases found : tree.find path with
    | none =>
      refine (ownedView_eq_none.2 ?_).symm
      exact (holds.find_eq_none.1 found).imp_right fun empty => by simp [empty]
    | some data =>
      obtain ⟨ownersEqual, refEqual, owned⟩ := holds.of_find found
      have positive := Finset.card_pos.2 owned
      simp only [Option.bind_some]
      by_cases isDead : NodeData.dead (data.drop treeId) = true
      · rw [if_pos isDead]
        refine (ownedView_eq_none.2 (.inr ?_)).symm
        rw [← Finset.card_eq_zero]
        rw [NodeData.dead_drop_iff] at isDead
        omega
      · rw [if_neg isDead]
        rw [NodeData.dead_drop_iff] at isDead
        have kept : ((owners path).erase treeId).Nonempty := Finset.card_pos.1 (by omega)
        rw [ownedView_eq_some (RadixTree.ne_nil_of_find found) kept, cards]
        simp only [Option.map_some, NodeData.view, NodeData.drop, ownersEqual, refEqual]
        congr 2
        omega
  · next offPath =>
    rw [Finset.erase_eq_of_notMem fun isOwner => offPath ((member path).1 isOwner)]
    exact holds path

/-- No node of an agreeing namespace is up for eviction. -/
theorem ref_pos_of_mem_nodes (holds : Holds tree owners) {above path edge : List τ} {data : NodeData}
    {leaf : Bool} (member : (path, edge, data, leaf) ∈ tree.forest.nodes above) : 0 < data.ref := by
  obtain ⟨rest, _, _, found⟩ := RadixForest.find_of_mem_nodes tree.wellFormed member
  change tree.find rest = some data at found
  obtain ⟨_, refEqual, owned⟩ := holds.of_find found
  have positive := Finset.card_pos.2 owned
  omega

end Holds

end Agentfork.Kv

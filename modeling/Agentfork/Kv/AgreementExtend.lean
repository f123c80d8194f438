import Agentfork.Kv.AgreementSteps

/-! # Extend and the lookups keep the representation invariant

A walk splits a node at most, so lookups and refused extends change nothing the
invariant sees. Eviction never finds a leaf to remove: every node has an owner. -/

namespace Agentfork.Kv

variable {τ : Type} [DecidableEq τ]

/-- Without a leaf to evict only the capacity decides. -/
theorem TreeKVCache.maybeEvict_of_no_leaf {cache : TreeKVCache τ} (noLeaf : cache.unreferencedLeaves = []) (need : Nat) :
    cache.maybeEvict need = if cache.stats.residentTokens + need ≤ cache.capacity then (.ok (), cache)
      else (.error (.memoryError TreeKVCache.exhaustedMessage), cache) := by
  rw [TreeKVCache.maybeEvict, noLeaf]
  split
  · rfl
  · next full =>
    simp only [List.insertionSort_nil, TreeKVCache.evictLeaves]
    rw [if_pos (by omega)]

namespace Agrees

variable {cache : TreeKVCache τ} {model : PrefixModel τ}

/-! ## Walks and eviction -/

theorem walk (agrees : Agrees cache model) {ns : String} {tree : RadixTree τ NodeData}
    (found : cache.root.get? ns = some tree) (now : Nat) (tokens : List τ) :
    Agrees { cache with root := cache.root.insert ns (tree.walk (NodeData.touch now) tokens).1 } model :=
  agrees.replaceTree found ((agrees.holds ns tree found).walk now tokens)
    (fun path ends => (RadixTree.ends_walk (NodeData.touch now) tree tokens path).2 (.inl ends))
    (RadixTree.size_walk (NodeData.touch now) tree tokens)

theorem unreferencedLeaves_eq_nil (agrees : Agrees cache model) : cache.unreferencedLeaves = [] := by
  rw [TreeKVCache.unreferencedLeaves, List.flatMap_eq_nil_iff]
  rintro ⟨ns, tree⟩ member
  have found := Dict.mem_entries.1 (List.mem_reverse.1 member)
  rw [List.filterMap_eq_nil_iff]
  rintro ⟨path, edge, data, leaf⟩ isNode
  have positive := (agrees.holds ns tree found).ref_pos_of_mem_nodes isNode
  have notDead : ¬ data.ref ≤ 0 := by omega
  simp [notDead]

theorem maybeEvict_eq (agrees : Agrees cache model) (need : Nat) : cache.maybeEvict need =
    if cache.stats.residentTokens + need ≤ cache.capacity then (.ok (), cache)
    else (.error (.memoryError TreeKVCache.exhaustedMessage), cache) :=
  TreeKVCache.maybeEvict_of_no_leaf agrees.unreferencedLeaves_eq_nil need

/-! ## extend -/

/-- The tree after the suffix of `full` has been hung below the matched part. -/
def grown (now : Nat) (treeId : String) (full : List τ) (tree : RadixTree τ NodeData) :
    RadixTree τ NodeData :=
  let walked := tree.walk (NodeData.touch now) full
  if walked.2 < full.length then
    walked.1.attach (full.take walked.2) (full.drop walked.2) ⟨1, {treeId}, now⟩
  else walked.1

/-- The tree that a successful extend leaves. -/
def extended (now : Nat) (treeId : String) (full : List τ) (tree : RadixTree τ NodeData) :
    RadixTree τ NodeData :=
  ((grown now treeId full tree).visit (NodeData.addRef treeId) (fun _ => false) full).1

theorem grown_spec (now : Nat) (treeId : String) (full : List τ) {tree : RadixTree τ NodeData}
    {owners : List τ → Finset String} (holds : Holds tree owners) :
    Holds (grown now treeId full tree) (fun path =>
      if (tree.walk (NodeData.touch now) full).2 < path.length ∧ path <+: full then {treeId}
      else owners path) ∧
    (∀ path, tree.Ends path → (grown now treeId full tree).Ends path) ∧
    (grown now treeId full tree).Ends full ∧
    (grown now treeId full tree).size =
      tree.size + (full.length - (tree.walk (NodeData.touch now) full).2) := by
  obtain ⟨bound, separates⟩ := RadixTree.walk_separates (NodeData.touch now) tree full
  have walkedHolds := holds.walk now full
  have walkedSize := RadixTree.size_walk (NodeData.touch now) tree full
  have walkedEnds := RadixTree.ends_walk (NodeData.touch now) tree full
  have walkedDomain := RadixTree.domain_walk (NodeData.touch now) tree full
  unfold grown
  generalize tree.walk (NodeData.touch now) full = walked at *
  simp only
  split
  · next short =>
    have nonempty : full.drop walked.2 ≠ [] := by
      rw [Ne, List.drop_eq_nil_iff]; omega
    have ends : walked.1.Ends (full.take walked.2) := (walkedEnds _).2 (.inr rfl)
    have whole := List.take_append_drop walked.2 full
    have absent : walked.1.find (full.take walked.2 ++ (full.drop walked.2).take 1) = none := by
      rw [← List.take_add, ← Option.not_isSome_iff_eq_none, ← RadixTree.mem_domain, walkedDomain,
        separates (walked.2 + 1) (by omega) (by omega)]
      omega
    have attached := walkedHolds.attach now treeId nonempty ends absent
    have takeLength : (full.take walked.2).length = walked.2 := by
      rw [List.length_take]; omega
    rw [whole, takeLength] at attached
    have attachedEnds := RadixTree.ends_attach (⟨1, {treeId}, now⟩ : NodeData) nonempty ends absent
    rw [whole] at attachedEnds
    refine ⟨attached, fun path pathEnds => ?_, (attachedEnds full).2 (.inr rfl), ?_⟩
    · exact (attachedEnds path).2 (.inl ((walkedEnds path).2 (.inl pathEnds)))
    · rw [RadixTree.size_attach _ nonempty ends absent, walkedSize, List.length_drop]
  · next whole =>
    have all : walked.2 = full.length := by omega
    refine ⟨walkedHolds.congr fun path _ => ?_, fun path pathEnds => (walkedEnds path).2 (.inl pathEnds),
      (walkedEnds full).2 (.inr ?_), ?_⟩
    · rw [if_neg]
      rintro ⟨longer, onPath⟩
      have := onPath.length_le
      omega
    · rw [all, List.take_length]
    · omega

theorem extended_spec (now : Nat) (treeId : String) (full : List τ) {tree : RadixTree τ NodeData}
    {owners : List τ → Finset String} (holds : Holds tree owners) :
    Holds (extended now treeId full tree) (fun path =>
      if path <+: full then insert treeId (owners path) else owners path) ∧
    (∀ path, tree.Ends path → (extended now treeId full tree).Ends path) ∧
    (extended now treeId full tree).Ends full ∧
    (extended now treeId full tree).size =
      tree.size + (full.length - (tree.walk (NodeData.touch now) full).2) := by
  obtain ⟨grownHolds, grownEnds, endsFull, grownSize⟩ := grown_spec now treeId full holds
  obtain ⟨_, separates⟩ := RadixTree.walk_separates (NodeData.touch now) tree full
  -- a prefix of the sequence is owned before the walk exactly up to the matched length
  have ownedBefore : ∀ path, path ≠ [] → path <+: full →
      ((owners path).Nonempty ↔ path.length ≤ (tree.walk (NodeData.touch now) full).2) := by
    intro path nonempty onPath
    have atLength := separates path.length (List.length_pos_of_ne_nil nonempty) onPath.length_le
    rw [← List.prefix_iff_eq_take.1 onPath, holds.mem_domain] at atLength
    rw [← atLength]
    exact ⟨fun owned => ⟨nonempty, owned⟩, fun present => present.2⟩
  have referenced : Holds (extended now treeId full tree) _ :=
    grownHolds.addRef treeId endsFull (by
      intro path nonempty onPath
      split
      · exact Finset.singleton_nonempty _
      · next notNew =>
        exact (ownedBefore path nonempty onPath).2 (by by_contra longer; exact notNew ⟨by omega, onPath⟩))
  have extendedHolds : Holds (extended now treeId full tree) (fun path =>
      if path <+: full then insert treeId (owners path) else owners path) := by
    refine referenced.congr fun path nonempty => ?_
    by_cases onPath : path <+: full
    · rw [if_pos onPath, if_pos onPath]
      by_cases longer : (tree.walk (NodeData.touch now) full).2 < path.length
      · have unowned : owners path = ∅ := by
          rw [← Finset.not_nonempty_iff_eq_empty, ownedBefore path nonempty onPath]
          omega
        rw [if_pos ⟨longer, onPath⟩, unowned]
        simp
      · rw [if_neg fun both => longer both.1]
    · rw [if_neg onPath, if_neg onPath, if_neg fun both => onPath both.2]
  have sameDomain : (extended now treeId full tree).domain = (grown now treeId full tree).domain := by
    ext path
    rw [referenced.mem_domain, grownHolds.mem_domain]
    refine and_congr_right fun nonempty => ?_
    by_cases onPath : path <+: full
    · rw [if_pos onPath]
      refine iff_of_true (Finset.insert_nonempty _ _) ?_
      split
      · exact Finset.singleton_nonempty _
      · next notLonger =>
        exact (ownedBefore path nonempty onPath).2 (by by_contra longer; exact notLonger ⟨by omega, onPath⟩)
    · rw [if_neg onPath]
  refine ⟨extendedHolds, fun path pathEnds => ?_, ?_, ?_⟩
  · exact (RadixTree.ends_visit_immortal endsFull path).2 (grownEnds path pathEnds)
  · exact (RadixTree.ends_visit_immortal endsFull full).2 endsFull
  · rw [← RadixTree.card_domain, sameDomain, RadixTree.card_domain, grownSize]

/-- A cache that differs by one longer sequence and the tree that holds it. -/
theorem growBranch (agrees : Agrees cache model) {treeId : String} {branch : Live τ}
    {tree final : RadixTree τ NodeData} {after : TreeKVCache τ} (now : Nat) (tokens : List τ)
    (live : model.live.get? treeId = some branch) (found : cache.root.get? branch.ns = some tree)
    (isFinal : final = extended now treeId (branch.tokens ++ tokens) tree)
    (sameTrees : after.trees = cache.trees)
    (newTokens : after.treeTokens = cache.treeTokens.insert treeId (branch.tokens ++ tokens))
    (newRoot : ∀ key, after.root.get? key = if key = branch.ns then some final else cache.root.get? key)
    (newResident : after.stats.residentTokens = cache.stats.residentTokens +
      ((branch.tokens ++ tokens).length -
        (tree.walk (NodeData.touch now) (branch.tokens ++ tokens)).2 : Nat)) :
    Agrees after ⟨model.live.insert treeId { branch with tokens := branch.tokens ++ tokens }⟩ := by
  obtain ⟨extendedHolds, kept, endsFull, extendedSize⟩ :=
    extended_spec now treeId (branch.tokens ++ tokens) (agrees.holds branch.ns tree found)
  rw [← isFinal] at extendedHolds kept endsFull extendedSize
  have member := mem_owners_iff live
  refine ⟨fun other => ?_, fun other => ?_, fun ns => ?_, fun ns stored lookup => ?_,
    fun other alive stored otherLive lookup => ?_, ?_⟩
  · rw [sameTrees, Dict.get?_insert]
    split
    · next same => rw [same, agrees.trees, live]; rfl
    · exact agrees.trees other
  · rw [newTokens, Dict.get?_insert, Dict.get?_insert]
    split
    · rfl
    · exact agrees.tokens other
  · rw [Dict.mem_iff_get?, newRoot]
    constructor
    · rintro ⟨stored, lookup⟩
      split at lookup
      · next here => exact ⟨treeId, ⟨branch.ns, branch.tokens ++ tokens⟩, by rw [Dict.get?_insert, if_pos rfl], here.symm⟩
      · obtain ⟨other, alive, otherLive, here⟩ := (agrees.roots ns).1 (Dict.mem_of_get? lookup)
        by_cases same : other = treeId
        · subst same
          rw [live] at otherLive
          cases otherLive
          exact ⟨other, ⟨branch.ns, branch.tokens ++ tokens⟩, by rw [Dict.get?_insert, if_pos rfl], here⟩
        · exact ⟨other, alive, by rw [Dict.get?_insert, if_neg same, otherLive], here⟩
    · rintro ⟨other, alive, otherLive, here⟩
      split
      · exact ⟨final, rfl⟩
      · next elsewhere =>
        rw [Dict.get?_insert] at otherLive
        split at otherLive
        · cases otherLive; exact absurd here.symm elsewhere
        · exact Dict.mem_iff_get?.1 ((agrees.roots ns).2 ⟨other, alive, otherLive, here⟩)
  · rw [newRoot] at lookup
    split at lookup
    · next here =>
      cases lookup
      subst here
      refine extendedHolds.congr fun path _ => ?_
      rw [PrefixModel.owners_insert]
      simp only [true_and]
      split
      · rfl
      · next offPath =>
        rw [Finset.erase_eq_of_notMem]
        exact fun owner => offPath (((member path).1 owner).trans (List.prefix_append _ _))
    · next elsewhere =>
      refine (agrees.holds ns stored lookup).congr fun path _ => ?_
      rw [PrefixModel.owners_insert, if_neg fun here => elsewhere here.1.symm, Finset.erase_eq_of_notMem]
      intro owner
      obtain ⟨alive, otherLive, here, _⟩ := PrefixModel.mem_owners.1 owner
      rw [live] at otherLive
      cases otherLive
      exact elsewhere here.symm
  · rw [newRoot] at lookup
    rw [Dict.get?_insert] at otherLive
    split at otherLive
    · cases otherLive
      rw [if_pos rfl] at lookup
      cases lookup
      exact endsFull
    · split at lookup
      · next here => cases lookup; exact kept _ (agrees.ends other alive tree otherLive (here ▸ found))
      · exact agrees.ends other alive stored otherLive lookup
  · have sameTotal : after.root.total RadixTree.size =
        (cache.root.insert branch.ns final).total RadixTree.size :=
      Dict.total_congr _ fun key => by rw [newRoot, Dict.get?_insert]
    have inserted := Dict.total_insert RadixTree.size cache.root branch.ns final
    rw [found, Option.map_some, Option.getD_some, extendedSize] at inserted
    rw [newResident, agrees.resident, sameTotal]
    omega

theorem extend_spec (agrees : Agrees cache model) (now : Nat) (treeId : String) (tokens : List τ) :
    Agrees (cache.extend now treeId tokens).2 (model.next (.extend now treeId tokens)
      (Except.map .tokens (cache.extend now treeId tokens).1)) ∧
    ∀ charged, (cache.extend now treeId tokens).1 = .ok charged →
      ∃ branch, model.live.get? treeId = some branch ∧
        charged = (prefixes (branch.tokens ++ tokens) \ model.cached branch.ns).card := by
  unfold TreeKVCache.extend
  cases treeFound : cache.trees.get? treeId with
  | none => exact ⟨agrees, fun _ impossible => by cases impossible⟩
  | some tid =>
    obtain ⟨branch, live, nsEqual⟩ := agrees.branch_of_tree treeFound
    obtain ⟨tree, rootFound⟩ := agrees.root_of_branch live
    rw [nsEqual] at rootFound
    have walkedAgrees := agrees.walk rootFound now (branch.tokens ++ tokens)
    have charge := RadixTree.length_sub_matched (NodeData.touch now) tree (branch.tokens ++ tokens)
    rw [agrees.domain_eq_cached rootFound, ← nsEqual] at charge
    simp only [agrees.tokens_of_branch live, rootFound]
    split
    · exact ⟨walkedAgrees, fun _ impossible => by cases impossible⟩
    · split
      · next short =>
        rw [walkedAgrees.maybeEvict_eq]
        split
        · next error _ equal =>
          split at equal
          · cases equal
          · cases equal; exact ⟨walkedAgrees, fun _ impossible => by cases impossible⟩
        · next _ equal =>
          split at equal
          · cases equal
            refine ⟨?_, fun charged equal => ⟨branch, live, by cases equal; exact charge⟩⟩
            simp only [PrefixModel.next, Except.map, live]
            refine agrees.growBranch now tokens live (nsEqual ▸ rootFound) rfl ?_ ?_
              (fun key => ?_) ?_
            all_goals simp only [TreeKVCache.chargeExtend, TreeKVCache.addRefs,
              TreeKVCache.insertSuffix, Dict.get?_insert, if_pos, List.length_drop, nsEqual]
            split
            · simp only [extended, grown, if_pos short]
            · rfl
          · cases equal
      · next whole =>
        have bound := (RadixTree.walk_separates (NodeData.touch now) tree (branch.tokens ++ tokens)).1
        refine ⟨?_, fun charged equal => ⟨branch, live, by cases equal; exact charge⟩⟩
        simp only [PrefixModel.next, Except.map, live]
        refine agrees.growBranch now tokens live (nsEqual ▸ rootFound) rfl ?_ ?_
          (fun key => ?_) ?_
        all_goals simp only [TreeKVCache.chargeExtend, TreeKVCache.addRefs, Dict.get?_insert, if_pos,
          nsEqual]
        · split
          · simp only [extended, grown, if_neg whole]
          · rfl
        · omega

/-! ## Lookups -/

theorem matchTreePrefix_agrees (agrees : Agrees cache model) (now : Nat) (treeId : String)
    (tokens : List τ) : Agrees (cache.matchTreePrefix now treeId tokens).2 model := by
  unfold TreeKVCache.matchTreePrefix
  cases cache.trees.get? treeId with
  | none => exact agrees
  | some tid =>
    simp only
    cases rootFound : cache.root.get? tid.ns with
    | none => exact agrees
    | some tree => exact agrees.walk rootFound now tokens

theorem matchTreePrefix_result (agrees : Agrees cache model) {treeId : String} {branch : Live τ}
    (live : model.live.get? treeId = some branch) (now : Nat) (tokens : List τ) :
    (cache.matchTreePrefix now treeId tokens).1 =
      .ok (longestMatch (model.cached branch.ns) tokens) := by
  obtain ⟨tid, treeFound, nsEqual⟩ := agrees.tree_of_branch live
  obtain ⟨tree, rootFound⟩ := agrees.root_of_branch live
  rw [← agrees.domain_eq_cached rootFound, ← RadixTree.walk_matched (NodeData.touch now)]
  rw [← nsEqual] at rootFound
  simp only [TreeKVCache.matchTreePrefix, treeFound, rootFound]

theorem matchPrefix_agrees (agrees : Agrees cache model) (now : Nat) (tokens : List τ) :
    Agrees (cache.matchPrefix now tokens).2 model where
  trees := agrees.trees
  tokens := agrees.tokens
  roots ns := by
    rw [TreeKVCache.matchPrefix, Dict.mem_mapValues]
    exact agrees.roots ns
  holds ns tree lookup := by
    rw [TreeKVCache.matchPrefix, Dict.get?_mapValues] at lookup
    obtain ⟨stored, found, rfl⟩ := Option.map_eq_some_iff.1 lookup
    exact (agrees.holds ns stored found).walk now tokens
  ends treeId branch tree live lookup := by
    rw [TreeKVCache.matchPrefix, Dict.get?_mapValues] at lookup
    obtain ⟨stored, found, rfl⟩ := Option.map_eq_some_iff.1 lookup
    exact (RadixTree.ends_walk _ stored tokens _).2 (.inl (agrees.ends treeId branch stored live found))
  resident := by
    rw [TreeKVCache.matchPrefix, Dict.total_mapValues]
    · exact agrees.resident
    · exact fun tree => RadixTree.size_walk _ tree tokens

end Agrees

end Agentfork.Kv

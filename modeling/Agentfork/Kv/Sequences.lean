import Agentfork.Kv.SameHoldings

/-! # The tree that a call changes

`trees` and `_tree_tokens` hold the namespace and the sequence of each tree, and
a method changes those of the tree that it is about. That needs no invariant of
the radix trees. -/

namespace Agentfork.Kv

variable {τ : Type} [DecidableEq τ]

/-- The tree that a method makes, changes or removes. -/
def Op.subject? : Op τ → Option String
  | .createTree treeId | .extend _ treeId _ | .kill treeId => some treeId
  | .forkBranch _ childId => childId
  | .matchPrefix _ _ | .matchTreePrefix _ _ _ => none

namespace TreeKVCache

variable {cache : TreeKVCache τ}

/-- Only the pages differ. -/
structure SameTrees (before after : TreeKVCache τ) : Prop where
  trees : after.trees = before.trees
  treeTokens : after.treeTokens = before.treeTokens

theorem SameTrees.trans {before middle after : TreeKVCache τ} (first : before.SameTrees middle)
    (second : middle.SameTrees after) : before.SameTrees after :=
  ⟨second.trees.trans first.trees, second.treeTokens.trans first.treeTokens⟩

theorem removeLeaf_sameTrees (cache : TreeKVCache τ) (leaf : Leaf τ) : cache.SameTrees (cache.removeLeaf leaf) := by
  unfold removeLeaf
  split <;> exact ⟨rfl, rfl⟩

theorem evictLeaves_sameTrees (need : Nat) (leaves : List (Leaf τ)) :
    cache.SameTrees (evictLeaves need cache leaves) := by
  induction leaves generalizing cache with
  | nil => exact ⟨rfl, rfl⟩
  | cons leaf leaves inductionHypothesis =>
    unfold evictLeaves
    split
    · exact ⟨rfl, rfl⟩
    · exact (removeLeaf_sameTrees cache leaf).trans inductionHypothesis

theorem maybeEvict_sameTrees (cache : TreeKVCache τ) (need : Nat) : cache.SameTrees (cache.maybeEvict need).2 := by
  unfold maybeEvict
  split
  · exact ⟨rfl, rfl⟩
  · simp only
    split <;> exact evictLeaves_sameTrees need _

theorem insertSuffix_sameTrees (cache : TreeKVCache τ) (now : Nat) (ns treeId : String) (full : List τ) (matched : Nat) :
    cache.SameTrees (cache.insertSuffix now ns treeId full matched) := by
  unfold insertSuffix
  split <;> exact ⟨rfl, rfl⟩

theorem addRefs_sameTrees (cache : TreeKVCache τ) (full : List τ) (treeId ns : String) :
    cache.SameTrees (cache.addRefs full treeId ns) := by
  unfold addRefs
  split <;> exact ⟨rfl, rfl⟩

/-- What an `extend` leaves: the trees there were, and their sequences with what it
appends, or as they were when it raises. -/
theorem extend_sequence (cache : TreeKVCache τ) (now : Nat) (treeId : String) (tokens : List τ) :
    (cache.extend now treeId tokens).2.trees = cache.trees ∧
      ((∃ charged held, (cache.extend now treeId tokens).1 = .ok charged ∧ cache.treeTokens.get? treeId = some held ∧
        (cache.extend now treeId tokens).2.treeTokens = cache.treeTokens.insert treeId (held ++ tokens)) ∨
      (∃ error, (cache.extend now treeId tokens).1 = .error error) ∧
        (cache.extend now treeId tokens).2.treeTokens = cache.treeTokens) := by
  unfold extend
  cases cache.trees.get? treeId with
  | none => exact ⟨rfl, .inr ⟨⟨_, rfl⟩, rfl⟩⟩
  | some tid =>
    simp only
    cases cache.treeTokens.get? treeId with
    | none => exact ⟨rfl, .inr ⟨⟨_, rfl⟩, rfl⟩⟩
    | some held =>
      cases cache.root.get? tid.ns with
      | none => exact ⟨rfl, .inr ⟨⟨_, rfl⟩, rfl⟩⟩
      | some tree =>
        simp only
        split
        · exact ⟨rfl, .inr ⟨⟨_, rfl⟩, rfl⟩⟩
        · split
          · have kept := maybeEvict_sameTrees { cache with
              root := cache.root.insert tid.ns (tree.walk (NodeData.touch now) (held ++ tokens)).1 }
              ((held ++ tokens).length - (tree.walk (NodeData.touch now) (held ++ tokens)).2)
            split
            · next raised after evicted =>
              rw [evicted] at kept
              exact ⟨kept.trees, .inr ⟨⟨raised, rfl⟩, kept.treeTokens⟩⟩
            · next after evicted =>
              rw [evicted] at kept
              -- the new leaf and its references are pages too
              have grown := (kept.trans (insertSuffix_sameTrees after now tid.ns treeId (held ++ tokens)
                (tree.walk (NodeData.touch now) (held ++ tokens)).2)).trans
                  (addRefs_sameTrees _ (held ++ tokens) treeId tid.ns)
              refine ⟨grown.trees, .inl ⟨_, held, rfl, rfl, ?_⟩⟩
              exact congrArg (Dict.insert · treeId (held ++ tokens)) grown.treeTokens
          · have grown := addRefs_sameTrees { cache with
              root := cache.root.insert tid.ns (tree.walk (NodeData.touch now) (held ++ tokens)).1 }
              (held ++ tokens) treeId tid.ns
            refine ⟨grown.trees, .inl ⟨_, held, rfl, rfl, ?_⟩⟩
            exact congrArg (Dict.insert · treeId (held ++ tokens)) grown.treeTokens

/-- A new tree begins with the empty sequence. -/
theorem createTree_sequence (cache : TreeKVCache τ) (treeId : String) :
    (∃ tid, (cache.createTree treeId).1 = .ok tid ∧
      (cache.createTree treeId).2.treeTokens = cache.treeTokens.insert treeId []) ∨
    (∃ error, (cache.createTree treeId).1 = .error error) ∧ (cache.createTree treeId).2 = cache := by
  unfold createTree
  split
  · exact .inr ⟨⟨_, rfl⟩, rfl⟩
  · exact .inl ⟨_, rfl, rfl⟩

/-- A child begins with the sequence of its parent; a fork that raises may have
given it one all the same. -/
theorem forkBranch_sequence (parentId : String) {child : String} (nonempty : child ≠ "") :
    ((∃ tid, (cache.forkBranch parentId (some child)).1 = .ok tid) →
      (cache.forkBranch parentId (some child)).2.treeTokens.get? child = cache.treeTokens.get? parentId) ∧
    ∀ other, other ≠ child →
      (cache.forkBranch parentId (some child)).2.treeTokens.get? other = cache.treeTokens.get? other := by
  simp only [forkBranch, childName_given nonempty]
  cases cache.trees.get? parentId with
  | none => exact ⟨by rintro ⟨_, ⟨⟩⟩, fun _ _ => rfl⟩
  | some parent =>
    simp only
    split
    · exact ⟨by rintro ⟨_, ⟨⟩⟩, fun _ _ => rfl⟩
    · cases cache.treeTokens.get? parentId with
      | none => exact ⟨by rintro ⟨_, ⟨⟩⟩, fun _ _ => rfl⟩
      | some tokens =>
        have inserted : ∀ other, other ≠ child →
            (cache.treeTokens.insert child tokens).get? other = cache.treeTokens.get? other := by
          intro other differs
          rw [Dict.get?_insert, if_neg differs]
        simp only
        split
        · exact ⟨by rintro ⟨_, ⟨⟩⟩, inserted⟩
        · refine ⟨fun _ => ?_, inserted⟩
          rw [Dict.get?_insert, if_pos rfl]

/-- A fork that returns has made one tree, under the id that it has chosen. -/
theorem forkBranch_tree {parentId : String} {childId : Option String} {tid : TreeId}
    (forked : (cache.forkBranch parentId childId).1 = .ok tid) :
    childName parentId childId cache.childSeq ∉ cache.trees ∧
      (cache.forkBranch parentId childId).2.trees =
        cache.trees.insert (childName parentId childId cache.childSeq) tid := by
  unfold forkBranch at forked ⊢
  cases parentFound : cache.trees.get? parentId with
  | none =>
    rw [parentFound] at forked
    cases forked
  | some parent =>
    simp only [parentFound] at forked ⊢
    split at forked
    · cases forked
    · next absent =>
      simp only [if_neg absent]
      cases tokensFound : cache.treeTokens.get? parentId with
      | none =>
        rw [tokensFound] at forked
        cases forked
      | some tokens =>
        simp only [tokensFound] at forked ⊢
        cases rootFound : cache.root.get? parent.ns with
        | none =>
          rw [rootFound] at forked
          cases forked
        | some tree =>
          simp only [rootFound] at forked ⊢
          cases forked
          exact ⟨absent, rfl⟩

theorem childName_ne_empty (parentId : String) (childId : Option String) (seq : Nat) : childName parentId childId seq ≠ "" := by
  have minted : s!"{parentId}/{seq}" ≠ "" := by
    intro empty
    have lengths := congrArg String.length empty
    simp at lengths
  unfold childName
  split
  · split
    · exact minted
    · next nonempty => exact nonempty
  · exact minted

/-- What a method may change of the trees, told for one of them. -/
def Keeps (before after : TreeKVCache τ) (treeId : String) : Prop :=
  after.trees.get? treeId = before.trees.get? treeId ∧ after.treeTokens.get? treeId = before.treeTokens.get? treeId

theorem kill_elsewhere (treeId : String) {other : String} (differs : other ≠ treeId) :
    cache.Keeps (cache.kill treeId).2 other := by
  unfold kill
  split
  · exact ⟨rfl, rfl⟩
  · split
    · exact ⟨rfl, rfl⟩
    · exact ⟨rfl, rfl⟩
    · unfold Keeps
      rw [Dict.get?_erase, if_neg differs, Dict.get?_erase, if_neg differs]
      exact ⟨rfl, rfl⟩

theorem forkBranch_elsewhere (parentId : String) {child other : String} (nonempty : child ≠ "") (differs : other ≠ child) :
    cache.Keeps (cache.forkBranch parentId (some child)).2 other := by
  refine ⟨?_, (forkBranch_sequence parentId nonempty).2 other differs⟩
  simp only [forkBranch, childName_given nonempty]
  repeat' split
  all_goals first | rfl | rw [Dict.get?_insert, if_neg differs]

/-- A method leaves the trees that it is not about. -/
theorem perform_elsewhere {op : Op τ} (named : op.named = true) {other : String} (notSubject : op.subject? ≠ some other) :
    cache.Keeps (cache.perform op) other := by
  cases op with
  | createTree treeId =>
    have differs : other ≠ treeId := fun same => notSubject (congrArg some same.symm)
    simp only [perform, apply, Prod.map_snd, id, createTree]
    unfold Keeps
    split
    · exact ⟨rfl, rfl⟩
    · simp only [Dict.get?_insert, if_neg differs, and_self]
  | forkBranch parentId childId =>
    obtain ⟨child, rfl, nonempty⟩ := Op.named_fork named
    exact forkBranch_elsewhere parentId nonempty fun same => notSubject (congrArg some same.symm)
  | extend now treeId tokens =>
    obtain ⟨trees, ⟨_, _, _, _, inserted⟩ | ⟨_, same⟩⟩ := cache.extend_sequence now treeId tokens
    · refine ⟨congrArg (Dict.get? · other) trees, (congrArg (Dict.get? · other) inserted).trans ?_⟩
      rw [Dict.get?_insert, if_neg fun same => notSubject (congrArg some same.symm)]
    · exact ⟨congrArg (Dict.get? · other) trees, congrArg (Dict.get? · other) same⟩
  | kill treeId => exact kill_elsewhere treeId fun same => notSubject (congrArg some same.symm)
  | matchPrefix now tokens => exact ⟨rfl, rfl⟩
  | matchTreePrefix now treeId tokens =>
    simp only [perform, apply, Prod.map_snd, id, matchTreePrefix]
    split
    · exact ⟨rfl, rfl⟩
    · split <;> exact ⟨rfl, rfl⟩

end TreeKVCache

end Agentfork.Kv

import Agentfork.Library.LockCounts

/-! # Eviction in the order of age

A client that unlocks a sequence marks the nodes it has freed as the oldest ones
and asks for as many tokens as they have. If every node below a marked one is
marked, eviction takes the marked nodes and no other. -/

namespace Agentfork.LockTree

variable {ν τ : Type} [DecidableEq ν] [DecidableEq τ] {before after tree unlocked : LockTree ν τ}
  {held rest : Multiset (ν × List τ)} {space : ν} {tokens path : List τ} {ref : NodeRef} {id : Nat}

/-- No node is marked as oldest. -/
def Dated (tree : LockTree ν τ) : Prop := ∀ id, tree.outline id ≠ none → tree.lastAccess id ≠ ⊥

/-- The marked nodes have no locks, are the oldest ones, and so are all nodes below them. -/
structure Ripe (tree : LockTree ν τ) (marked : Finset Nat) : Prop where
  unlocked : ∀ id ∈ marked, tree.outline id ≠ none ∧ tree.lockRef id = 0
  below : ∀ id ∈ marked, ∀ other space path longer, tree.outline id = some (space, path) →
    tree.outline other = some (space, longer) → path <+: longer → other ∈ marked
  oldest : ∀ id, tree.outline id ≠ none → (tree.lastAccess id = ⊥ ↔ id ∈ marked)

namespace Ripe

variable {marked : Finset Nat}

omit [DecidableEq ν] [DecidableEq τ] in
/-- The deepest marked node is a leaf. -/
theorem exists_leaf (ripe : Ripe tree marked) (nonempty : marked.Nonempty) : ∃ leaf ∈ marked, tree.Leaf leaf := by
  obtain ⟨leaf, member, deepest⟩ := marked.exists_max_image (fun id => tree.depth (.node id)) nonempty
  refine ⟨leaf, member, fun other space path below present otherPresent isPrefix => ?_⟩
  have bound := deepest other (ripe.below leaf member other space path below present otherPresent isPrefix)
  have leafSpells : tree.Spells (.node leaf) space path := present
  have otherSpells : tree.Spells (.node other) space below := otherPresent
  rw [depth_of_spells leafSpells, depth_of_spells otherSpells] at bound
  rw [← isPrefix.eq_of_length (le_antisymm isPrefix.length_le bound)] at otherPresent
  exact tree.distinct otherPresent present

omit [DecidableEq ν] [DecidableEq τ] in
theorem shed (ripe : Ripe before marked) (sheds : Sheds before after id) : Ripe after (marked.erase id) := by
  refine ⟨fun other member => ?_, fun other member third space path longer => ?_, fun other => ?_⟩
  · obtain ⟨differs, member⟩ := Finset.mem_erase.1 member
    rw [sheds.outline, if_neg differs, sheds.lockRef differs]
    exact ripe.unlocked other member
  · obtain ⟨differs, member⟩ := Finset.mem_erase.1 member
    rw [sheds.outline, sheds.outline, if_neg differs]
    intro present thirdPresent isPrefix
    split at thirdPresent
    next => cases thirdPresent
    next stays =>
      exact Finset.mem_erase.2 ⟨stays, ripe.below other member third space path longer present thirdPresent isPrefix⟩
  · rw [sheds.outline]
    split
    next => exact fun impossible => absurd rfl impossible
    next stays =>
      intro present
      rw [Finset.mem_erase, and_iff_right stays, ← ripe.oldest other present, sheds.lastAccess stays]

end Ripe

/-- An eviction of the tokens of the marked nodes takes them and nothing else. -/
theorem Evicts.marked {count : Nat} (evicts : Evicts count before after) {marked : Finset Nat}
    (ripe : Ripe before marked) (amount : ∑ id ∈ marked, (before.key id).length = count) :
    (∀ id, after.outline id = if id ∈ marked then none else before.outline id) ∧
      ∀ id, id ∉ marked → after.lastAccess id = before.lastAccess id := by
  induction evicts generalizing marked with
  | enough =>
    have empty : ∀ id, id ∉ marked := by
      intro id member
      obtain ⟨⟨space, path⟩, present⟩ := Option.ne_none_iff_exists'.1 (ripe.unlocked id member).1
      have none := Finset.sum_eq_zero_iff.1 amount id member
      have some := key_length_pos present
      omega
    exact ⟨fun id => (if_neg (empty id)).symm, fun _ _ => rfl⟩
  | spent locked =>
    have empty : ∀ id, id ∉ marked := by
      intro id member
      obtain ⟨leaf, leafMember, isLeaf⟩ := ripe.exists_leaf ⟨id, member⟩
      obtain ⟨present, free⟩ := ripe.unlocked leaf leafMember
      exact locked leaf present isLeaf free
    exact ⟨fun id => (if_neg (empty id)).symm, fun _ _ => rfl⟩
  | @evict count id before middle after sheds least rest inductionHypothesis =>
    have nonempty : marked.Nonempty := by
      by_contra none
      rw [Finset.not_nonempty_iff_eq_empty.1 none, Finset.sum_empty] at amount
      omega
    -- the leaf that goes is at least as old as a marked one
    have member : id ∈ marked := by
      obtain ⟨leaf, leafMember, isLeaf⟩ := ripe.exists_leaf nonempty
      obtain ⟨present, free⟩ := ripe.unlocked leaf leafMember
      have older := least leaf present isLeaf free
      rw [(ripe.oldest leaf present).2 leafMember, le_bot_iff] at older
      exact (ripe.oldest id sheds.present).1 older
    have taken := sheds.sum_keys member fun other otherMember => (ripe.unlocked other otherMember).1
    obtain ⟨outlines, dates⟩ := inductionHypothesis (ripe.shed sheds) (by omega)
    refine ⟨fun other => ?_, fun other unmarked => ?_⟩
    · simp only [outlines, sheds.outline, Finset.mem_erase]
      by_cases same : other = id
      · rw [if_pos same, ite_self, if_pos (same ▸ member)]
      · simp only [same, if_false, ne_eq, not_false_eq_true, true_and]
    · have differs : other ≠ id := fun same => unmarked (same ▸ member)
      rw [dates other fun inRest => unmarked (Finset.mem_of_mem_erase inRest), sheds.lastAccess differs]

/-! ## The nodes a sequence frees -/

namespace Counts

/-- A node above a locked one is locked. -/
theorem locked_above (counts : Counts tree held) {above : Nat} {shorter : List τ}
    (present : tree.outline id = some (space, path)) (abovePresent : tree.outline above = some (space, shorter))
    (isPrefix : shorter <+: path) (locked : tree.lockRef id ≠ 0) : tree.lockRef above ≠ 0 := by
  rw [counts.counted id space path present, Nat.cast_ne_zero, ← Nat.pos_iff_ne_zero, Multiset.countP_pos] at locked
  rw [counts.counted above space shorter abovePresent, Nat.cast_ne_zero, ← Nat.pos_iff_ne_zero, Multiset.countP_pos]
  obtain ⟨entry, member, sameSpace, passes⟩ := locked
  exact ⟨entry, member, sameSpace, isPrefix.trans passes⟩

/-- The way up to the first locked node is all of the way that has no locks. -/
theorem mem_takeWhile_climb (counts : Counts tree held) {fuel : Nat} (spells : tree.Spells ref space tokens)
    (enough : tokens.length ≤ fuel) :
    id ∈ (tree.climb fuel ref).takeWhile (fun id => tree.lockRef id = 0) ↔
      id ∈ tree.climb fuel ref ∧ tree.lockRef id = 0 := by
  -- induction on the fuel as for the members of the way
  induction fuel generalizing ref tokens with
  | zero => simp [climb]
  | succ fuel inductionHypothesis =>
    cases ref with
    | root => simp [climb]
    | node start =>
      change tree.outline start = some (space, tokens) at spells
      obtain ⟨above, aboveSpells, aboveBelow, shorterAbove, others⟩ := parent_spells spells
      by_cases free : tree.lockRef start = 0
      · rw [climb, List.takeWhile_cons_of_pos (by simpa using free), List.mem_cons, List.mem_cons,
          inductionHypothesis aboveSpells (by omega)]
        constructor
        · rintro (rfl | ⟨onWay, alsoFree⟩)
          · exact ⟨.inl rfl, free⟩
          · exact ⟨.inr onWay, alsoFree⟩
        · rintro ⟨rfl | onWay, alsoFree⟩
          · exact .inl rfl
          · exact .inr ⟨onWay, alsoFree⟩
      · have startSpells : tree.Spells (.node start) space tokens := spells
        refine iff_of_false ?_ ?_
        · rw [climb, List.takeWhile_cons_of_neg (by simpa using free)]
          exact List.not_mem_nil
        · rintro ⟨onWay, alsoFree⟩
          obtain ⟨shorter, present, isPrefix⟩ := (mem_climb startSpells enough).1 onWay
          exact counts.locked_above spells present isPrefix free alsoFree

theorem mem_takeWhile_upward (counts : Counts tree held) (spells : tree.Spells ref space tokens) :
    id ∈ (tree.upward ref).takeWhile (fun id => tree.lockRef id = 0) ↔
      id ∈ tree.upward ref ∧ tree.lockRef id = 0 :=
  counts.mem_takeWhile_climb spells (depth_of_spells spells).ge

end Counts

/-- The nodes on the way that only the sequence itself holds. -/
def freed (tree : LockTree ν τ) (ref : NodeRef) : Finset Nat :=
  (tree.upward ref).toFinset.filter fun id => tree.lockRef id = 1

theorem mem_freed (spells : tree.Spells ref space tokens) :
    id ∈ tree.freed ref ↔ (∃ path, tree.outline id = some (space, path) ∧ path <+: tokens) ∧ tree.lockRef id = 1 := by
  rw [freed, Finset.mem_filter, List.mem_toFinset, mem_upward spells]

theorem Counts.mem_freed_iff (counts : Counts tree ((space, tokens) ::ₘ rest)) (spells : tree.Spells ref space tokens)
    (present : tree.outline id = some (space, path)) :
    id ∈ tree.freed ref ↔ path <+: tokens ∧ path ∉ carried rest space := by
  rw [freed, Finset.mem_filter, List.mem_toFinset, mem_upward_of_outline spells present]
  refine and_congr_right fun isPrefix => ?_
  rw [counts.locked_once present isPrefix, mem_carried]
  constructor
  · rintro none ⟨other, member, below⟩
    exact none other member (mem_prefixes.1 below).2
  · intro none other member below
    exact none ⟨other, member, mem_prefixes.2 ⟨path_ne_nil present, below⟩⟩

/-- The freed nodes are those that the prioritized way consists of. -/
theorem Counts.mem_prioritized (counts : Counts tree ((space, tokens) ::ₘ rest))
    (spells : tree.Spells ref space tokens) (unlocks : Relocks tree unlocked fun id => -tree.along ref id) :
    id ∈ (unlocked.upward ref).takeWhile (fun id => unlocked.lockRef id = 0) ↔ id ∈ tree.freed ref := by
  have remaining := counts.unlock spells unlocks
  rw [remaining.mem_takeWhile_upward (unlocks.spells spells), unlocks.mem_upward spells, freed, Finset.mem_filter,
    List.mem_toFinset]
  refine and_congr_right fun onWay => ?_
  have moved := unlocks.lockRef id
  rw [along, if_pos onWay] at moved
  omega

/-- What a sequence frees is evicted, if nothing else hangs below it. -/
theorem Counts.evict_freed (counts : Counts tree ((space, tokens) ::ₘ rest)) (spells : tree.Spells ref space tokens)
    (unlocks : Relocks tree unlocked fun id => -tree.along ref id) (dated : Dated unlocked)
    (alone : ∀ id path other longer, id ∈ tree.freed ref → tree.outline id = some (space, path) →
      tree.outline other = some (space, longer) → path <+: longer → longer <+: tokens)
    (evicts : Evicts (∑ id ∈ tree.freed ref, (tree.key id).length)
      (unlocked.backdate ((unlocked.upward ref).takeWhile fun id => unlocked.lockRef id = 0)) after) :
    (∀ id, after.outline id = if id ∈ tree.freed ref then none else tree.outline id) ∧ Dated after := by
  have remaining := counts.unlock spells unlocks
  let prioritized := unlocked.backdate ((unlocked.upward ref).takeWhile fun id => unlocked.lockRef id = 0)
  have touches : Relocks unlocked prioritized fun _ => 0 := redate_touches _ _ ⊥
  have outlines : ∀ id, prioritized.outline id = tree.outline id := fun id =>
    (touches.outline id).trans (unlocks.outline id)
  have locks : ∀ id, prioritized.lockRef id = unlocked.lockRef id := fun id => by
    rw [touches.lockRef, add_zero]
  have free : ∀ id ∈ tree.freed ref, unlocked.lockRef id = 0 := fun id member =>
    ((remaining.mem_takeWhile_upward (unlocks.spells spells)).1
      ((counts.mem_prioritized spells unlocks).2 member)).2
  have dates : ∀ id, tree.outline id ≠ none → (prioritized.lastAccess id = ⊥ ↔ id ∈ tree.freed ref) := by
    intro id present
    rw [← unlocks.outline] at present
    have accessed := lastAccess_redate unlocked
      ((unlocked.upward ref).takeWhile fun id => unlocked.lockRef id = 0) ⊥ present
    change prioritized.lastAccess id = _ at accessed
    rw [accessed, ← counts.mem_prioritized spells unlocks]
    split
    next marked => exact iff_of_true rfl marked
    next unmarked => exact iff_of_false (dated id present) unmarked
  have ripe : Ripe prioritized (tree.freed ref) := by
    refine ⟨fun id member => ?_, fun id member other nodeSpace path longer present otherPresent isPrefix => ?_,
      fun id present => ?_⟩
    · obtain ⟨⟨path, present, _⟩, _⟩ := (mem_freed spells).1 member
      rw [outlines, locks, present]
      exact ⟨Option.some_ne_none _, free id member⟩
    · rw [outlines] at present otherPresent
      obtain ⟨⟨_, alsoPresent, _⟩, _⟩ := (mem_freed spells).1 member
      have sameSpace := alsoPresent.symm.trans present
      cases sameSpace
      have onWay := alone id path other longer member present otherPresent isPrefix
      rw [counts.mem_freed_iff spells otherPresent]
      refine ⟨onWay, fun carriedBelow => ?_⟩
      -- who passes the lower node passes the upper one too
      obtain ⟨holder, holds, below⟩ := mem_carried.1 carriedBelow
      have carriedHere : path ∈ carried rest space :=
        mem_carried.2 ⟨holder, holds, mem_prefixes.2 ⟨path_ne_nil present, isPrefix.trans (mem_prefixes.1 below).2⟩⟩
      exact ((counts.mem_freed_iff spells present).1 member).2 carriedHere
    · rw [outlines] at present
      exact dates id present
  have amount : ∑ id ∈ tree.freed ref, (prioritized.key id).length = ∑ id ∈ tree.freed ref, (tree.key id).length := by
    refine Finset.sum_congr rfl fun id member => ?_
    obtain ⟨⟨path, present, _⟩, _⟩ := (mem_freed spells).1 member
    exact key_length_congr present ((outlines id).trans present) fun other shorter _ => by rw [outlines]
  obtain ⟨gone, kept⟩ := evicts.marked ripe amount
  refine ⟨fun id => by rw [gone, outlines], fun id present => ?_⟩
  rw [gone] at present
  split at present
  next => exact absurd rfl present
  next unmarked =>
    rw [kept id unmarked]
    rw [outlines] at present
    exact fun marked => unmarked ((dates id present).1 marked)

end Agentfork.LockTree

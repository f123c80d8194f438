import Mathlib.Data.Multiset.Count
import Mathlib.Data.Multiset.Filter
import Mathlib.Data.Finset.Max
import Mathlib.Data.Finset.Union
import Mathlib.Tactic.Ring
import Agentfork.Library.LockEdits

/-! # The balance of locks

The locks of a node are the held sequences that pass through it. A client that
holds sequences adds one when it locks its way and takes it away when it unlocks
it; splits, new leaves and evictions in between change nothing for the balance.
From the balance follow the sums: what unlocking a sequence frees are the
prefixes that no other one carries. -/

namespace Agentfork.LockTree

variable {ν τ : Type} [DecidableEq ν] [DecidableEq τ]

/-- The locks of a node are the held sequences that pass through it. -/
structure Counts (tree : LockTree ν τ) (held : Multiset (ν × List τ)) : Prop where
  anchored : ∀ space tokens, (space, tokens) ∈ held →
    tokens = [] ∨ ∃ id, tree.outline id = some (space, tokens)
  counted : ∀ id space path, tree.outline id = some (space, path) →
    tree.lockRef id = held.countP fun entry => entry.1 = space ∧ path <+: entry.2

/-- The prefixes of the held sequences of a space. -/
def carried (held : Multiset (ν × List τ)) (space : ν) : Finset (List τ) :=
  ((held.filter fun entry => entry.1 = space).map Prod.snd).toFinset.biUnion prefixes

variable {before after tree : LockTree ν τ} {held rest : Multiset (ν × List τ)}
  {space : ν} {tokens path shared : List τ} {ref : NodeRef} {id : Nat}

/-! ## Held prefixes -/

theorem mem_carried : shared ∈ carried held space ↔ ∃ tokens, (space, tokens) ∈ held ∧ shared ∈ prefixes tokens := by
  simp only [carried, Finset.mem_biUnion, Multiset.mem_toFinset, Multiset.mem_map, Multiset.mem_filter,
    Prod.exists]
  constructor
  · rintro ⟨tokens, ⟨other, _, ⟨member, rfl⟩, rfl⟩, belongs⟩
    exact ⟨_, member, belongs⟩
  · rintro ⟨tokens, member, belongs⟩
    exact ⟨tokens, ⟨space, tokens, ⟨member, rfl⟩, rfl⟩, belongs⟩

theorem carried_cons (held : Multiset (ν × List τ)) (space : ν) (tokens : List τ) :
    carried ((space, tokens) ::ₘ held) space = prefixes tokens ∪ carried held space := by
  ext shared
  simp only [Finset.mem_union, mem_carried, Multiset.mem_cons, Prod.mk.injEq, true_and]
  constructor
  · rintro ⟨other, rfl | member, belongs⟩
    · exact .inl belongs
    · exact .inr ⟨other, member, belongs⟩
  · rintro (belongs | ⟨other, member, belongs⟩)
    · exact ⟨tokens, .inl rfl, belongs⟩
    · exact ⟨other, .inr member, belongs⟩

theorem carried_cons_of_ne {other : ν} (differs : other ≠ space) :
    carried ((other, tokens) ::ₘ held) space = carried held space := by
  ext shared
  simp only [mem_carried, Multiset.mem_cons, Prod.mk.injEq, Ne.symm differs, false_and, false_or]

/-- A node that owns a prefix of a held sequence lies on the way of the sequence. -/
theorem segment_carries {other : Nat} (present : tree.outline id = some (space, path))
    (otherPresent : tree.outline other = some (space, tokens)) (belongs : shared ∈ tree.segment id)
    (isPrefix : shared <+: tokens) : path <+: tokens := by
  rw [mem_segment present] at belongs
  obtain ⟨middle, between, middlePresent, carries, onHere, onThere⟩ :=
    tree.meet present otherPresent belongs.1 belongs.2.1 isPrefix
  have same := belongs.2.2 middle between middlePresent onHere carries
  rw [same] at middlePresent
  rw [LockTree.outline] at present
  rw [present] at middlePresent
  cases middlePresent
  exact onThere

/-! ## Edits keep the balance -/

namespace Counts

/-- The root is on every way and holds no lock. -/
theorem cons_nil : Counts tree ((space, []) ::ₘ held) ↔ Counts tree held := by
  have same : ∀ id other path, tree.outline id = some (other, path) →
      ((space, []) ::ₘ held).countP (fun entry => entry.1 = other ∧ path <+: entry.2) =
        held.countP fun entry => entry.1 = other ∧ path <+: entry.2 := by
    intro id other path present
    rw [Multiset.countP_cons_of_neg]
    rintro ⟨_, isPrefix⟩
    exact path_ne_nil present (List.prefix_nil.1 isPrefix)
  constructor
  · intro counts
    refine ⟨fun other tokens member => ?_, fun id other path present => ?_⟩
    · exact counts.anchored other tokens (Multiset.mem_cons_of_mem member)
    · rw [counts.counted id other path present, same id other path present]
  · intro counts
    refine ⟨fun other tokens member => ?_, fun id other path present => ?_⟩
    · obtain isNil | member := Multiset.mem_cons.1 member
      · cases isNil
        exact .inl rfl
      · exact counts.anchored other tokens member
    · rw [counts.counted id other path present, same id other path present]

theorem edit {room : ν → List τ → Prop} (counts : Counts before held) (edit : Edit room before after) :
    Counts after held := by
  refine ⟨fun space tokens member => ?_, fun id space path present => ?_⟩
  · refine (counts.anchored space tokens member).imp_right ?_
    rintro ⟨id, present⟩
    exact ⟨id, (edit.keeps present).1⟩
  · cases edit with
    | touch touches =>
      rw [touches.lockRef, add_zero]
      exact counts.counted id space path ((touches.outline id).symm.trans present)
    | split splits =>
      rw [splits.outline] at present
      rw [splits.lockRef]
      split at present
      next isUpper =>
        cases present
        rw [if_pos isUpper, counts.counted _ _ _ splits.present]
        refine congrArg Nat.cast (Multiset.countP_congr rfl fun entry member => ?_)
        obtain ⟨other, tokens⟩ := entry
        simp only [eq_iff_iff, and_congr_right_iff]
        rintro rfl
        exact (splits.passes (counts.anchored _ _ member)).symm
      next notUpper =>
        rw [if_neg notUpper]
        exact counts.counted id space path present
    | grow _ grows =>
      rw [grows.outline] at present
      rw [grows.lockRef]
      split at present
      next isLeaf =>
        have nonempty := path_ne_nil ((grows.outline id).trans (if_pos isLeaf))
        cases present
        rw [if_pos isLeaf, eq_comm, Nat.cast_eq_zero, Multiset.countP_eq_zero]
        rintro ⟨other, tokens⟩ member ⟨rfl, isPrefix⟩
        obtain rfl | ⟨holder, holderPresent⟩ := counts.anchored _ _ member
        · exact nonempty (List.prefix_nil.1 isPrefix)
        · exact grows.bare ⟨holder, tokens, holderPresent, isPrefix⟩
      next notLeaf =>
        rw [if_neg notLeaf]
        exact counts.counted id space path present

theorem edits {room : ν → List τ → Prop} (counts : Counts before held)
    (edits : Relation.ReflTransGen (Edit room) before after) : Counts after held := by
  induction edits with
  | refl => exact counts
  | tail _ edit inductionHypothesis => exact inductionHypothesis.edit edit

/-- The node of a held sequence is locked, so it is not shed. -/
theorem not_sheds (counts : Counts before held) (member : (space, tokens) ∈ held)
    (present : before.outline id = some (space, tokens)) : ¬ Sheds before after id := by
  intro sheds
  have unlocked := counts.counted id space tokens present
  rw [sheds.unlocked, eq_comm, Nat.cast_eq_zero, Multiset.countP_eq_zero] at unlocked
  exact unlocked _ member ⟨rfl, List.prefix_rfl⟩

theorem shed (counts : Counts before held) (sheds : Sheds before after id) : Counts after held := by
  refine ⟨fun space tokens member => ?_, fun other space path present => ?_⟩
  · refine (counts.anchored space tokens member).imp_right ?_
    rintro ⟨holder, present⟩
    refine ⟨holder, ?_⟩
    rw [sheds.outline, if_neg, present]
    rintro rfl
    exact counts.not_sheds member present sheds
  · rw [sheds.outline] at present
    split at present
    next => cases present
    next differs =>
      rw [sheds.lockRef differs]
      exact counts.counted other space path present

theorem shrink (counts : Counts before held) (shrinks : Shrinks before after) : Counts after held := by
  induction shrinks with
  | refl => exact counts
  | tail _ sheds inductionHypothesis =>
    obtain ⟨id, sheds⟩ := sheds
    exact inductionHypothesis.shed sheds

/-- The node of a held sequence outlives every eviction. -/
theorem spells_shrink (counts : Counts before held) (shrinks : Shrinks before after)
    (member : (space, tokens) ∈ held) (spells : before.Spells ref space tokens) :
    after.Spells ref space tokens := by
  cases ref with
  | root => exact spells
  | node holder =>
    change after.outline holder = some (space, tokens)
    induction shrinks with
    | refl => exact spells
    | tail shrinks sheds inductionHypothesis =>
      obtain ⟨id, sheds⟩ := sheds
      rw [sheds.outline, if_neg, inductionHypothesis]
      rintro rfl
      exact (counts.shrink shrinks).not_sheds member inductionHypothesis sheds

/-! ## Locking and unlocking -/

theorem along_eq (spells : tree.Spells ref space tokens) {other : ν}
    (present : tree.outline id = some (other, path)) :
    tree.along ref id = if space = other ∧ path <+: tokens then 1 else 0 := by
  have onWay : id ∈ tree.upward ref ↔ space = other ∧ path <+: tokens := by
    rw [mem_upward spells, present]
    constructor
    · rintro ⟨shorter, same, isPrefix⟩
      cases same
      exact ⟨rfl, isPrefix⟩
    · rintro ⟨rfl, isPrefix⟩
      exact ⟨path, rfl, isPrefix⟩
  simp only [along, onWay]

theorem lock (counts : Counts before held) (spells : before.Spells ref space tokens)
    (locks : Relocks before after (before.along ref)) : Counts after ((space, tokens) ::ₘ held) := by
  refine ⟨fun other otherTokens member => ?_, fun id other path present => ?_⟩
  · simp only [locks.outline]
    obtain isNew | member := Multiset.mem_cons.1 member
    · cases isNew
      cases ref with
      | root => exact .inl spells
      | node id => exact .inr ⟨id, spells⟩
    · exact counts.anchored other otherTokens member
  · rw [locks.outline] at present
    rw [locks.lockRef, counts.counted id other path present, along_eq spells present, Multiset.countP_cons]
    push_cast
    rfl

theorem unlock (counts : Counts before ((space, tokens) ::ₘ held)) (spells : before.Spells ref space tokens)
    (unlocks : Relocks before after fun id => -before.along ref id) : Counts after held := by
  refine ⟨fun other otherTokens member => ?_, fun id other path present => ?_⟩
  · simp only [unlocks.outline]
    exact counts.anchored other otherTokens (Multiset.mem_cons_of_mem member)
  · rw [unlocks.outline] at present
    rw [unlocks.lockRef, counts.counted id other path present, along_eq spells present, Multiset.countP_cons]
    push_cast
    ring

/-- A node on the way of a sequence is locked once where no other one passes. -/
theorem locked_once (counts : Counts tree ((space, tokens) ::ₘ rest))
    (present : tree.outline id = some (space, path)) (isPrefix : path <+: tokens) :
    tree.lockRef id = 1 ↔ ∀ other, (space, other) ∈ rest → ¬ path <+: other := by
  rw [counts.counted id space path present, Multiset.countP_cons_of_pos _ ⟨rfl, isPrefix⟩]
  -- the locks beyond the sequence's own are those of the rest
  have noOther : rest.countP (fun entry => entry.1 = space ∧ path <+: entry.2) = 0 ↔
      ∀ other, (space, other) ∈ rest → ¬ path <+: other := by
    rw [Multiset.countP_eq_zero]
    constructor
    · intro none other member below
      exact none _ member ⟨rfl, below⟩
    · rintro none ⟨_, other⟩ member ⟨rfl, below⟩
      exact none other member below
  rw [← noOther]
  omega

/-- Unlocking a sequence frees the nodes that it alone locks, and they have as
many tokens as the sequence has prefixes that no other one carries. -/
theorem sum_freed (counts : Counts tree ((space, tokens) ::ₘ rest)) (spells : tree.Spells ref space tokens) :
    ∑ id ∈ (tree.upward ref).toFinset with tree.lockRef id = 1, (tree.key id).length =
      (prefixes tokens \ carried rest space).card := by
  rw [sum_key_length]
  · refine congrArg Finset.card (Finset.ext fun shared => ?_)
    simp only [Finset.mem_biUnion, Finset.mem_filter, List.mem_toFinset, Finset.mem_sdiff,
      ← exists_mem_upward spells]
    constructor
    · rintro ⟨id, ⟨onWay, single⟩, belongs⟩
      refine ⟨⟨id, onWay, belongs⟩, fun isCarried => ?_⟩
      obtain ⟨path, present, isPrefix⟩ := (mem_upward spells).1 onWay
      obtain ⟨other, member, below⟩ := mem_carried.1 isCarried
      obtain ⟨nonempty, below⟩ := mem_prefixes.1 below
      obtain rfl | ⟨holder, holderPresent⟩ := counts.anchored _ _ (Multiset.mem_cons_of_mem member)
      · exact nonempty (List.prefix_nil.1 below)
      · exact (counts.locked_once present isPrefix).1 single other member
          (segment_carries present holderPresent belongs below)
    · rintro ⟨⟨id, onWay, belongs⟩, notCarried⟩
      obtain ⟨path, present, isPrefix⟩ := (mem_upward spells).1 onWay
      refine ⟨id, ⟨onWay, (counts.locked_once present isPrefix).2 fun other member below => ?_⟩, belongs⟩
      obtain ⟨nonempty, shares, _⟩ := (mem_segment present).1 belongs
      exact notCarried (mem_carried.2 ⟨other, member, mem_prefixes.2 ⟨nonempty, shares.trans below⟩⟩)
  · intro id member
    rw [Finset.mem_filter, List.mem_toFinset] at member
    obtain ⟨path, present, _⟩ := (mem_upward spells).1 member.1
    exact ⟨path, present⟩

end Counts

/-- The nodes on the ways of some sequences of a space have as many tokens as
the sequences have prefixes. -/
theorem sum_pinned {refs : List (NodeRef × List τ)}
    (spelled : ∀ entry ∈ refs, tree.Spells entry.1 space entry.2) :
    ∑ id ∈ (refs.flatMap fun entry => tree.upward entry.1).toFinset, (tree.key id).length =
      ((refs.map Prod.snd).toFinset.biUnion prefixes).card := by
  rw [sum_key_length]
  · refine congrArg Finset.card (Finset.ext fun shared => ?_)
    simp only [Finset.mem_biUnion, List.mem_toFinset, List.mem_flatMap, List.mem_map]
    constructor
    · rintro ⟨id, ⟨entry, member, onWay⟩, belongs⟩
      exact ⟨entry.2, ⟨entry, member, rfl⟩, (exists_mem_upward (spelled entry member)).1 ⟨id, onWay, belongs⟩⟩
    · rintro ⟨_, ⟨entry, member, rfl⟩, belongs⟩
      obtain ⟨id, onWay, belongs⟩ := (exists_mem_upward (spelled entry member)).2 belongs
      exact ⟨id, ⟨entry, member, onWay⟩, belongs⟩
  · intro id member
    rw [List.mem_toFinset, List.mem_flatMap] at member
    obtain ⟨entry, member, onWay⟩ := member
    obtain ⟨path, present, _⟩ := (mem_upward (spelled entry member)).1 onWay
    exact ⟨path, present⟩

/-! ## Eviction of all that is unlocked -/

/-- The nodes without locks. -/
def unlocked (tree : LockTree ν τ) : Finset Nat :=
  tree.nodes.keys.toFinset.filter fun id => tree.lockRef id = 0

/-- The tokens of the nodes without locks. -/
def evictable (tree : LockTree ν τ) : Nat := ∑ id ∈ tree.unlocked, (tree.key id).length

omit [DecidableEq ν] [DecidableEq τ] in
theorem mem_unlocked : id ∈ tree.unlocked ↔ tree.outline id ≠ none ∧ tree.lockRef id = 0 := by
  rw [unlocked, Finset.mem_filter, List.mem_toFinset, Dict.mem_keys, outline, outlineOf, ne_eq,
    Option.map_eq_none_iff, Dict.get?_eq_none, not_not]

theorem key_length_pos (present : tree.outline id = some (space, path)) : 0 < (tree.key id).length := by
  obtain ⟨above, spells, _, shorter, _⟩ := parent_spells present
  simp only [key, present, List.length_drop, depth_of_spells spells]
  omega

/-- Keys depend on where the nodes lie on the way to the root only. -/
theorem key_length_congr (present : before.outline id = some (space, path))
    (kept : after.outline id = some (space, path))
    (same : ∀ other shorter, shorter <+: path →
      (after.outline other = some (space, shorter) ↔ before.outline other = some (space, shorter))) :
    (after.key id).length = (before.key id).length := by
  rw [← card_segment, ← card_segment]
  refine congrArg Finset.card (Finset.ext fun shared => ?_)
  rw [mem_segment present, mem_segment kept]
  refine and_congr_right fun _ => and_congr_right fun _ => ?_
  constructor
  · intro first other shorter otherPresent below
    exact first other shorter ((same other shorter below).2 otherPresent) below
  · intro first other shorter otherPresent below
    exact first other shorter ((same other shorter below).1 otherPresent) below

/-- A shed leaf lies on no other node's way, so the keys of the others stay. -/
theorem Sheds.key_length (sheds : Sheds before after id) {other : Nat} (differs : other ≠ id)
    (present : before.outline other = some (space, path)) :
    (after.key other).length = (before.key other).length := by
  refine key_length_congr present ?_ fun third shorter below => ?_
  · rw [sheds.outline, if_neg differs, present]
  · rw [sheds.outline]
    split
    next isShed =>
      refine iff_of_false nofun fun shedPresent => ?_
      rw [isShed] at shedPresent
      exact differs (sheds.leaf other space shorter path shedPresent present below)
    next => rfl

/-- A shed leaf takes its own tokens with it. -/
theorem Sheds.sum_keys (sheds : Sheds before after id) {ids : Finset Nat} (member : id ∈ ids)
    (present : ∀ other ∈ ids, before.outline other ≠ none) :
    ∑ other ∈ ids.erase id, (after.key other).length + (before.key id).length =
      ∑ other ∈ ids, (before.key other).length := by
  rw [← Finset.sum_erase_add _ _ member]
  refine congrArg (· + _) (Finset.sum_congr rfl fun other otherMember => ?_)
  obtain ⟨differs, otherMember⟩ := Finset.mem_erase.1 otherMember
  obtain ⟨⟨space, path⟩, isOutline⟩ := Option.ne_none_iff_exists'.1 (present other otherMember)
  exact sheds.key_length differs isOutline

theorem Sheds.evictable (sheds : Sheds before after id) :
    after.evictable + (before.key id).length = before.evictable := by
  have member : id ∈ before.unlocked := mem_unlocked.2 ⟨sheds.present, sheds.unlocked⟩
  have remaining : after.unlocked = before.unlocked.erase id := by
    ext other
    rw [Finset.mem_erase, mem_unlocked, mem_unlocked, sheds.outline]
    by_cases same : other = id
    · simp [same]
    · rw [if_neg same, sheds.lockRef same]
      simp [same]
  rw [LockTree.evictable, LockTree.evictable, remaining]
  exact sheds.sum_keys member fun other otherMember => (mem_unlocked.1 otherMember).1

theorem Evicts.shrinks {count : Nat} (evicts : Evicts count before after) :
    Shrinks before after := by
  induction evicts with
  | enough => exact .refl
  | spent => exact .refl
  | evict sheds _ _ inductionHypothesis => exact .head ⟨_, sheds⟩ inductionHypothesis

namespace Counts

/-- Below a node without locks lies a leaf without locks. -/
theorem exists_unlocked_leaf (counts : Counts tree held) (member : id ∈ tree.unlocked) :
    ∃ leaf ∈ tree.unlocked, tree.Leaf leaf := by
  obtain ⟨leaf, leafMember, deepest⟩ := tree.unlocked.exists_max_image (fun id => tree.depth (.node id))
    ⟨id, member⟩
  refine ⟨leaf, leafMember, fun other space path below present otherPresent isPrefix => ?_⟩
  have free := (mem_unlocked.1 leafMember).2
  rw [counts.counted leaf space path present, Nat.cast_eq_zero, Multiset.countP_eq_zero] at free
  have otherFree : tree.lockRef other = 0 := by
    rw [counts.counted other space below otherPresent, Nat.cast_eq_zero, Multiset.countP_eq_zero]
    rintro entry entryMember ⟨sameSpace, passes⟩
    exact free entry entryMember ⟨sameSpace, isPrefix.trans passes⟩
  have otherPresent' : tree.outline other ≠ none := by
    rw [otherPresent]
    nofun
  have bound := deepest other (mem_unlocked.2 ⟨otherPresent', otherFree⟩)
  have leafSpells : tree.Spells (.node leaf) space path := present
  have otherSpells : tree.Spells (.node other) space below := otherPresent
  rw [depth_of_spells leafSpells, depth_of_spells otherSpells] at bound
  rw [← isPrefix.eq_of_length (le_antisymm isPrefix.length_le bound)] at otherPresent
  exact tree.distinct otherPresent present

/-- An eviction of as many tokens as are unlocked leaves no node without locks. -/
theorem evicts_all {count : Nat} (evicts : Evicts count before after) (counts : Counts before held)
    (enough : before.evictable ≤ count) : after.unlocked = ∅ := by
  induction evicts with
  | enough =>
    rw [Finset.eq_empty_iff_forall_notMem]
    intro id member
    obtain ⟨⟨space, path⟩, present⟩ := Option.ne_none_iff_exists'.1 (mem_unlocked.1 member).1
    have none := (Finset.sum_eq_zero_iff.1 (Nat.le_zero.1 enough)) id member
    have some := key_length_pos present
    omega
  | @spent _ tree locked =>
    rw [Finset.eq_empty_iff_forall_notMem]
    intro id member
    obtain ⟨leaf, leafMember, isLeaf⟩ := counts.exists_unlocked_leaf member
    exact locked leaf (mem_unlocked.1 leafMember).1 isLeaf (mem_unlocked.1 leafMember).2
  | evict sheds _ _ inductionHypothesis =>
    have taken := sheds.evictable
    exact inductionHypothesis (counts.shed sheds) (by omega)

end Counts

/-! ## Trees without free nodes -/

/-- Every node lies on the way of a held sequence. -/
def Covered (tree : LockTree ν τ) (held : Multiset (ν × List τ)) : Prop :=
  ∀ id space path, tree.outline id = some (space, path) → ∃ tokens, (space, tokens) ∈ held ∧ path <+: tokens

namespace Covered

omit [DecidableEq ν] [DecidableEq τ] in
theorem edits {room : ν → List τ → Prop} (covered : Covered before held)
    (allowed : ∀ space path, room space path → ∃ tokens, (space, tokens) ∈ held ∧ path <+: tokens)
    (edits : Relation.ReflTransGen (Edit room) before after) : Covered after held := by
  induction edits with
  | refl => exact covered
  | tail _ edit inductionHypothesis =>
    intro id space path present
    obtain ⟨old, below, oldPresent, isPrefix⟩ | ⟨room, isAllowed, isPrefix⟩ :=
      edit.cached ⟨id, path, present, List.prefix_rfl⟩
    · obtain ⟨tokens, member, onWay⟩ := inductionHypothesis old space below oldPresent
      exact ⟨tokens, member, isPrefix.trans onWay⟩
    · obtain ⟨tokens, member, onWay⟩ := allowed space room isAllowed
      exact ⟨tokens, member, isPrefix.trans onWay⟩

omit [DecidableEq ν] [DecidableEq τ] in
theorem reshapes (covered : Covered before held) (reshapes : Reshapes before after) : Covered after held :=
  covered.edits (fun _ _ => False.elim) reshapes

omit [DecidableEq ν] [DecidableEq τ] in
theorem relocks {change : Nat → Int} (covered : Covered before held) (relocks : Relocks before after change) :
    Covered after held := fun id space path present =>
  covered id space path ((relocks.outline id).symm.trans present)

omit [DecidableEq ν] [DecidableEq τ] in
theorem mono (covered : Covered tree rest)
    (above : ∀ space tokens, (space, tokens) ∈ rest → ∃ longer, (space, longer) ∈ held ∧ tokens <+: longer) :
    Covered tree held := by
  intro id space path present
  obtain ⟨tokens, member, onWay⟩ := covered id space path present
  obtain ⟨longer, longerMember, isPrefix⟩ := above space tokens member
  exact ⟨longer, longerMember, onWay.trans isPrefix⟩

/-- What is cached is what is held. -/
theorem cached_iff (covered : Covered tree held) (counts : Counts tree held) (nonempty : shared ≠ []) :
    tree.Cached space shared ↔ shared ∈ carried held space := by
  rw [mem_carried]
  constructor
  · rintro ⟨id, path, present, isPrefix⟩
    obtain ⟨tokens, member, onWay⟩ := covered id space path present
    exact ⟨tokens, member, mem_prefixes.2 ⟨nonempty, isPrefix.trans onWay⟩⟩
  · rintro ⟨tokens, member, belongs⟩
    obtain ⟨_, isPrefix⟩ := mem_prefixes.1 belongs
    obtain rfl | ⟨id, present⟩ := counts.anchored space tokens member
    · exact absurd (List.prefix_nil.1 isPrefix) nonempty
    · exact ⟨id, tokens, present, isPrefix⟩

end Covered

namespace Counts

/-- A node without locks is one that no held sequence passes. -/
theorem unlocked_iff (counts : Counts tree held) (present : tree.outline id = some (space, path)) :
    id ∈ tree.unlocked ↔ ∀ tokens, (space, tokens) ∈ held → ¬ path <+: tokens := by
  rw [mem_unlocked, counts.counted id space path present, Nat.cast_eq_zero, Multiset.countP_eq_zero, present]
  constructor
  · rintro ⟨_, none⟩ tokens member onWay
    exact none _ member ⟨rfl, onWay⟩
  · intro none
    refine ⟨nofun, ?_⟩
    rintro ⟨_, tokens⟩ member ⟨rfl, onWay⟩
    exact none tokens member onWay

theorem covered (counts : Counts tree held) (empty : tree.unlocked = ∅) : Covered tree held := by
  intro id space path present
  by_contra none
  have member : id ∈ tree.unlocked :=
    (counts.unlocked_iff present).2 fun tokens member onWay => none ⟨tokens, member, onWay⟩
  rw [empty] at member
  exact Finset.notMem_empty id member

/-- In a covered tree unlocking a sequence makes evictable what it frees. -/
theorem evictable_unlock (counts : Counts before ((space, tokens) ::ₘ rest))
    (covered : Covered before ((space, tokens) ::ₘ rest)) (spells : before.Spells ref space tokens)
    (unlocks : Relocks before after fun id => -before.along ref id) :
    after.evictable = ∑ id ∈ (before.upward ref).toFinset with before.lockRef id = 1, (before.key id).length := by
  have remaining := counts.unlock spells unlocks
  have freed : after.unlocked = (before.upward ref).toFinset.filter fun id => before.lockRef id = 1 := by
    ext id
    cases isOutline : before.outline id with
    | none =>
      have gone := (unlocks.outline id).trans isOutline
      refine iff_of_false (fun member => (mem_unlocked.1 member).1 gone) fun member => ?_
      rw [Finset.mem_filter, List.mem_toFinset, mem_upward spells] at member
      obtain ⟨⟨_, present, _⟩, _⟩ := member
      rw [isOutline] at present
      cases present
    | some outline =>
      obtain ⟨nodeSpace, path⟩ := outline
      have kept := (unlocks.outline id).trans isOutline
      have moved := unlocks.lockRef id
      rw [along_eq spells isOutline] at moved
      rw [mem_unlocked, Finset.mem_filter, List.mem_toFinset, moved, kept, mem_upward spells, isOutline]
      by_cases onWay : space = nodeSpace ∧ path <+: tokens
      · obtain ⟨rfl, isPrefix⟩ := onWay
        rw [if_pos ⟨rfl, isPrefix⟩]
        constructor
        · rintro ⟨_, zero⟩
          exact ⟨⟨path, rfl, isPrefix⟩, by omega⟩
        · rintro ⟨_, one⟩
          exact ⟨nofun, by omega⟩
      · rw [if_neg onWay] at moved ⊢
        refine iff_of_false ?_ ?_
        · -- a node off the way was locked by another sequence and still is
          rintro ⟨_, zero⟩
          have free := (remaining.unlocked_iff kept).1 (mem_unlocked.2 ⟨by rw [kept]; nofun, by omega⟩)
          obtain ⟨other, member, otherWay⟩ := covered id nodeSpace path isOutline
          obtain isFreed | member := Multiset.mem_cons.1 member
          · cases isFreed
            exact onWay ⟨rfl, otherWay⟩
          · exact free other member otherWay
        · rintro ⟨⟨shorter, same, isPrefix⟩, _⟩
          cases same
          exact onWay ⟨rfl, isPrefix⟩
  rw [evictable, freed]
  refine Finset.sum_congr rfl fun id member => ?_
  rw [Finset.mem_filter, List.mem_toFinset, mem_upward spells] at member
  obtain ⟨⟨path, present, _⟩, _⟩ := member
  exact key_length_congr present ((unlocks.outline id).trans present) fun other shorter _ => by
    rw [unlocks.outline]

end Counts

/-- Access times are no matter of eviction's amount. -/
theorem Relocks.evictable (touches : Relocks before after fun _ => 0) : after.evictable = before.evictable := by
  have same : after.unlocked = before.unlocked := by
    ext id
    rw [mem_unlocked, mem_unlocked, touches.outline, touches.lockRef, add_zero]
  rw [LockTree.evictable, same]
  refine Finset.sum_congr rfl fun id member => ?_
  obtain ⟨⟨space, path⟩, present⟩ := Option.ne_none_iff_exists'.1 (mem_unlocked.1 member).1
  exact key_length_congr present ((touches.outline id).trans present) fun other shorter _ => by
    rw [touches.outline]

end Agentfork.LockTree

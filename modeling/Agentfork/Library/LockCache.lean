import Mathlib.Data.List.MinMax
import Agentfork.Library.LockEvictions

/-! # A cache on a lock tree

Match, insert, lock, unlock and evict as a radix cache performs them: a match
stamps what it meets and splits the key where it ends, an insertion hangs the
rest of the tokens below it, an eviction takes unlocked leaves in the order of
their stamps. Each operation is shown to be a sequence of edits. -/

namespace Agentfork.LockTree

variable {ν τ : Type} [DecidableEq ν] [DecidableEq τ]

section Operations

def freshId (tree : LockTree ν τ) : Nat := tree.nodes.keys.foldr max 0 + 1

/-- A node whose common prefixes with the others are spelled may be added. -/
structure Fits (tree : LockTree ν τ) (space : ν) (path : List τ) : Prop where
  nonempty : path ≠ []
  absent : ∀ id, tree.outline id ≠ some (space, path)
  meets : ∀ {other otherPath shared}, tree.outline other = some (space, otherPath) → shared ≠ [] →
    shared <+: path → shared <+: otherPath → path <+: otherPath ∨
      ∃ middle between, tree.outline middle = some (space, between) ∧ shared <+: between ∧
        between <+: path ∧ between <+: otherPath

omit [DecidableEq ν] [DecidableEq τ] in
theorem freshId_absent (tree : LockTree ν τ) : tree.outline tree.freshId = none := by
  rw [outline, outlineOf, Option.map_eq_none_iff, Dict.get?_eq_none, ← Dict.mem_keys]
  intro member
  have bound : ∀ ids : List Nat, ∀ id ∈ ids, id ≤ ids.foldr max 0 := by
    intro ids
    induction ids with
    | nil => exact fun id member => absurd member List.not_mem_nil
    | cons first rest inductionHypothesis =>
      intro id member
      obtain rfl | member := List.mem_cons.1 member
      · exact le_max_left _ _
      · exact (inductionHypothesis id member).trans (le_max_right _ _)
  have := bound _ _ member
  rw [freshId] at this
  omega

omit [DecidableEq ν] [DecidableEq τ] in
theorem outlineOf_insert (nodes : Dict Nat (LockNode ν τ)) (id other : Nat) (node : LockNode ν τ) :
    outlineOf (nodes.insert id node) other =
      if other = id then some (node.space, node.path) else outlineOf nodes other := by
  rw [outlineOf, Dict.get?_insert]
  split <;> rfl

/-- Add a node that fits under a new name. -/
def add (tree : LockTree ν τ) (space : ν) (path : List τ) (lockRef : Int) (fits : tree.Fits space path) :
    LockTree ν τ where
  nodes := tree.nodes.insert tree.freshId ⟨space, path, lockRef, tree.clock⟩
  clock := tree.clock
  nonempty := by
    intro id space isEmpty
    rw [outlineOf_insert] at isEmpty
    split at isEmpty
    next =>
      cases isEmpty
      exact fits.nonempty rfl
    next => exact tree.nonempty isEmpty
  distinct := by
    intro first second outline firstIs secondIs
    rw [outlineOf_insert] at firstIs secondIs
    split at firstIs <;> split at secondIs
    next firstNew secondNew => rw [firstNew, secondNew]
    next => cases firstIs; exact absurd secondIs (fits.absent second)
    next => cases secondIs; exact absurd firstIs (fits.absent first)
    next => exact tree.distinct firstIs secondIs
  meet := by
    intro first second other firstPath secondPath shared firstIs secondIs nonempty onFirst onSecond
    have old : ∀ id, tree.outline id ≠ none → id ≠ tree.freshId := by
      intro id present same
      exact present (same ▸ tree.freshId_absent)
    have kept : ∀ {id between}, outlineOf tree.nodes id = some (other, between) →
        outlineOf (tree.nodes.insert tree.freshId ⟨space, path, lockRef, tree.clock⟩) id =
          some (other, between) := by
      intro id between present
      rw [outlineOf_insert, if_neg (old id (by rw [outline, present]; nofun)), present]
    have new : outlineOf (tree.nodes.insert tree.freshId ⟨space, path, lockRef, tree.clock⟩)
        tree.freshId = some (space, path) := by
      rw [outlineOf_insert, if_pos rfl]
    rw [outlineOf_insert] at firstIs secondIs
    split at firstIs <;> split at secondIs
    next firstNew secondNew =>
      cases firstIs
      cases secondIs
      exact ⟨_, path, new, onFirst, List.prefix_rfl, List.prefix_rfl⟩
    next =>
      cases firstIs
      obtain above | ⟨middle, between, present, carries, onPath, onOther⟩ :=
        fits.meets secondIs nonempty onFirst onSecond
      · exact ⟨_, path, new, onFirst, List.prefix_rfl, above⟩
      · exact ⟨middle, between, kept present, carries, onPath, onOther⟩
    next =>
      cases secondIs
      obtain above | ⟨middle, between, present, carries, onPath, onOther⟩ :=
        fits.meets firstIs nonempty onSecond onFirst
      · exact ⟨_, path, new, onSecond, above, List.prefix_rfl⟩
      · exact ⟨middle, between, kept present, carries, onOther, onPath⟩
    next =>
      obtain ⟨middle, between, present, carries⟩ := tree.meet firstIs secondIs nonempty onFirst onSecond
      exact ⟨middle, between, kept present, carries⟩

/-- Take a leaf off. -/
def remove (tree : LockTree ν τ) (id : Nat) (leaf : tree.Leaf id) : LockTree ν τ :=
  have erased : ∀ other outline, outlineOf (tree.nodes.erase id) other = some outline →
      other ≠ id ∧ outlineOf tree.nodes other = some outline := by
    intro other outline present
    rw [outlineOf, Dict.get?_erase] at present
    split at present
    next => cases present
    next differs => exact ⟨differs, present⟩
  { nodes := tree.nodes.erase id
    clock := tree.clock
    nonempty := fun present => tree.nonempty (erased _ _ present).2
    distinct := fun firstIs secondIs => tree.distinct (erased _ _ firstIs).2 (erased _ _ secondIs).2
    meet := by
      intro first second space path other shared firstIs secondIs nonempty onFirst onSecond
      obtain ⟨firstDiffers, firstKept⟩ := erased _ _ firstIs
      obtain ⟨_, secondKept⟩ := erased _ _ secondIs
      obtain ⟨middle, between, present, carries, onPath, onOther⟩ :=
        tree.meet firstKept secondKept nonempty onFirst onSecond
      refine ⟨middle, between, ?_, carries, onPath, onOther⟩
      rw [outlineOf, Dict.get?_erase, if_neg, ← outlineOf, present]
      -- a meeting point lies above both nodes, so it is not the leaf
      rintro rfl
      exact firstDiffers (leaf first space between path present firstKept onPath) }

/-- The first node to carry the tokens. -/
def owner (tree : LockTree ν τ) (space : ν) (tokens : List τ) : Option Nat :=
  (tree.nodes.keys.filter fun id => (tree.outline id).any fun outline =>
    outline.1 = space && tokens.isPrefixOf outline.2).argmin fun id => tree.depth (.node id)

/-- The longest cached prefix of at most `bound` tokens. -/
def longest (tree : LockTree ν τ) (space : ν) (tokens : List τ) : Nat → Nat
  | 0 => 0
  | bound + 1 =>
    if (tree.owner space (tokens.take (bound + 1))).isSome then bound + 1
    else tree.longest space tokens bound

/-- Stamp nodes with the clock, which goes on. -/
def stamp (tree : LockTree ν τ) (ids : List Nat) : LockTree ν τ :=
  { tree.redate ids tree.clock with clock := tree.clock + 1 }

end Operations

/-! ## Splitting -/

variable {before after tree : LockTree ν τ} {space : ν} {tokens path shared : List τ} {ref : NodeRef}
  {id : Nat}

theorem owner_spec (found : tree.owner space tokens = some id) :
    ∃ path, tree.outline id = some (space, path) ∧ tokens <+: path ∧
      ∀ other otherPath, tree.outline other = some (space, otherPath) → tokens <+: otherPath →
        path.length ≤ otherPath.length := by
  have carries : ∀ other, other ∈ tree.nodes.keys.filter (fun id => (tree.outline id).any fun outline =>
      outline.1 = space && tokens.isPrefixOf outline.2) ↔
        ∃ path, tree.outline other = some (space, path) ∧ tokens <+: path := by
    intro other
    rw [List.mem_filter]
    constructor
    · rintro ⟨_, holds⟩
      rw [Option.any_eq_true] at holds
      obtain ⟨⟨otherSpace, path⟩, present, holds⟩ := holds
      simp only [Bool.and_eq_true, decide_eq_true_eq, List.isPrefixOf_iff_prefix] at holds
      exact ⟨path, holds.1 ▸ present, holds.2⟩
    · rintro ⟨path, present, isPrefix⟩
      refine ⟨mem_keys_of_outline present, ?_⟩
      simp [present, isPrefix]
  obtain ⟨path, present, isPrefix⟩ := (carries id).1 (List.argmin_mem found)
  refine ⟨path, present, isPrefix, fun other otherPath otherPresent otherPrefix => ?_⟩
  have least := List.le_of_mem_argmin ((carries other).2 ⟨otherPath, otherPresent, otherPrefix⟩) found
  have here : tree.Spells (.node id) space path := present
  have there : tree.Spells (.node other) space otherPath := otherPresent
  rwa [depth_of_spells here, depth_of_spells there] at least

theorem owner_isSome : (tree.owner space tokens).isSome ↔ tree.Cached space tokens := by
  rw [Option.isSome_iff_ne_none, ne_eq, owner, List.argmin_eq_none, List.filter_eq_nil_iff]
  simp only [not_forall, not_not]
  constructor
  · rintro ⟨id, _, holds⟩
    rw [Option.any_eq_true] at holds
    obtain ⟨⟨otherSpace, path⟩, present, holds⟩ := holds
    simp only [Bool.and_eq_true, decide_eq_true_eq, List.isPrefixOf_iff_prefix] at holds
    exact ⟨id, path, holds.1 ▸ present, holds.2⟩
  · rintro ⟨id, path, present, isPrefix⟩
    exact ⟨id, mem_keys_of_outline present, by simp [present, isPrefix]⟩

/-- Between the owner of some tokens and its parent there is room for a node. -/
theorem fits_cut {cut : List τ} (found : tree.owner space cut = some id) (nonempty : cut ≠ [])
    (vacant : tree.nodeAt space cut = none) : tree.Fits space cut := by
  obtain ⟨path, present, isPrefix, _⟩ := owner_spec found
  refine ⟨nonempty, nodeAt_eq_none.1 vacant, fun otherPresent sharedNonempty onCut onOther => ?_⟩
  obtain ⟨middle, between, middlePresent, carries, onPath, onOther⟩ :=
    tree.meet present otherPresent sharedNonempty (onCut.trans isPrefix) onOther
  obtain above | below := List.prefix_or_prefix_of_prefix isPrefix onPath
  · exact .inl (above.trans onOther)
  · exact .inr ⟨middle, between, middlePresent, carries, below, onOther⟩

/-- Put a node where the tokens end, if there is none. -/
def splitAt (tree : LockTree ν τ) (space : ν) (cut : List τ) : LockTree ν τ :=
  match found : tree.owner space cut with
  | none => tree
  | some lower =>
    if vacant : cut ≠ [] ∧ tree.nodeAt space cut = none then
      tree.add space cut (tree.lockRef lower) (fits_cut found vacant.1 vacant.2)
    else tree

omit [DecidableEq ν] [DecidableEq τ] in
theorem outline_add {lockRef : Int} {fits : tree.Fits space path} (other : Nat) :
    (tree.add space path lockRef fits).outline other =
      if other = tree.freshId then some (space, path) else tree.outline other :=
  outlineOf_insert _ _ _ _

omit [DecidableEq ν] [DecidableEq τ] in
theorem lockRef_add {lockRef : Int} {fits : tree.Fits space path} (other : Nat) :
    (tree.add space path lockRef fits).lockRef other =
      if other = tree.freshId then lockRef else tree.lockRef other := by
  rw [LockTree.lockRef, add, Dict.get?_insert]
  split <;> rfl

theorem splitAt_edits {room : ν → List τ → Prop} (tree : LockTree ν τ) (space : ν) (cut : List τ) :
    Relation.ReflTransGen (Edit room) tree (tree.splitAt space cut) := by
  rw [splitAt]
  split
  next => exact .refl
  next lower found =>
    split
    next vacant =>
      obtain ⟨path, present, isPrefix, first⟩ := owner_spec found
      have splits : Splits tree (tree.add space cut (tree.lockRef lower)
          (fits_cut found vacant.1 vacant.2)) tree.freshId lower space cut path := by
        refine ⟨tree.freshId_absent, present, isPrefix, fun other otherPath otherPresent onPath => ?_,
          outline_add, lockRef_add⟩
        obtain above | below := List.prefix_or_prefix_of_prefix isPrefix onPath
        · -- the owner is the first one to carry the cut
          have same := onPath.eq_of_length (le_antisymm onPath.length_le (first other otherPath otherPresent above))
          rw [same] at otherPresent
          exact .inl (tree.distinct otherPresent present)
        · exact .inr below
      exact .single (.split splits)
    next => exact .refl

theorem splitAt_spells {cut : List τ} (cached : tree.Cached space cut) (nonempty : cut ≠ []) :
    ∃ id, (tree.splitAt space cut).nodeAt space cut = some id := by
  obtain ⟨lower, found⟩ := Option.isSome_iff_exists.1 (owner_isSome.2 cached)
  rw [splitAt]
  split
  next missing =>
    rw [found] at missing
    cases missing
  next =>
    split
    next => exact ⟨tree.freshId, nodeAt_eq_some.2 ((outline_add _).trans (if_pos rfl))⟩
    next taken =>
      have notVacant := fun vacant => taken ⟨nonempty, vacant⟩
      exact Option.ne_none_iff_exists'.1 notVacant

/-! ## Matching -/

theorem longest_le (tree : LockTree ν τ) (space : ν) (tokens : List τ) (bound : Nat) :
    tree.longest space tokens bound ≤ bound := by
  induction bound with
  | zero => exact le_rfl
  | succ bound inductionHypothesis =>
    rw [longest]
    split <;> omega

omit [DecidableEq ν] [DecidableEq τ] in
theorem Cached.shorten (cached : tree.Cached space tokens) (isPrefix : shared <+: tokens) :
    tree.Cached space shared := by
  obtain ⟨id, path, present, carries⟩ := cached
  exact ⟨id, path, present, isPrefix.trans carries⟩

theorem longest_spec {bound length : Nat} (positive : 0 < length) (inside : length ≤ bound) :
    tree.Cached space (tokens.take length) ↔ length ≤ tree.longest space tokens bound := by
  induction bound with
  | zero => omega
  | succ bound inductionHypothesis =>
    rw [longest]
    split
    next isSome =>
      refine iff_of_true ?_ inside
      exact (owner_isSome.1 isSome).shorten (List.take_prefix_take_left inside)
    next isNone =>
      obtain same | shorter := Nat.eq_or_lt_of_le inside
      · subst same
        refine iff_of_false (fun cached => isNone (owner_isSome.2 cached)) ?_
        have := tree.longest_le space tokens bound
        omega
      · exact inductionHypothesis (Nat.le_of_lt_succ shorter)

/-- The tree, the length and the node that a lookup leaves and finds. -/
def matchPrefix (tree : LockTree ν τ) (space : ν) (tokens : List τ) : LockTree ν τ × Nat × NodeRef :=
  let hit := tree.longest space tokens tokens.length
  let cut := tokens.take hit
  let split := tree.splitAt space cut
  let way := if hit = 0 then [] else ((tree.owner space cut).map fun id => tree.upward (.node id)).getD []
  (split.stamp way, hit, ((split.nodeAt space cut).map NodeRef.node).getD .root)

omit [DecidableEq ν] [DecidableEq τ] in
theorem stamp_touches (tree : LockTree ν τ) (ids : List Nat) : Relocks tree (tree.stamp ids) fun _ => 0 :=
  have touches := redate_touches tree ids tree.clock
  ⟨touches.outline, touches.lockRef⟩

theorem matchPrefix_edits {room : ν → List τ → Prop} (tree : LockTree ν τ) (space : ν) (tokens : List τ) :
    Relation.ReflTransGen (Edit room) tree (tree.matchPrefix space tokens).1 :=
  (tree.splitAt_edits space _).tail (.touch (stamp_touches _ _))

theorem matchPrefix_spells (tree : LockTree ν τ) (space : ν) (tokens : List τ) :
    (tree.matchPrefix space tokens).1.Spells (tree.matchPrefix space tokens).2.2 space
      (tokens.take (tree.matchPrefix space tokens).2.1) := by
  let hit := tree.longest space tokens tokens.length
  change Spells _ (((tree.splitAt space (tokens.take hit)).nodeAt space (tokens.take hit)).map NodeRef.node |>.getD .root)
    space (tokens.take hit)
  by_cases empty : tokens.take hit = []
  · have absent : (tree.splitAt space (tokens.take hit)).nodeAt space (tokens.take hit) = none := by
      rw [empty]
      exact nodeAt_eq_none.2 fun id present => path_ne_nil present rfl
    rw [absent]
    exact empty
  · have positive : 0 < hit := by
      rw [Nat.pos_iff_ne_zero]
      intro zero
      exact empty (by rw [zero, List.take_zero])
    have cached : tree.Cached space (tokens.take hit) :=
      (longest_spec positive (tree.longest_le space tokens _)).2 le_rfl
    obtain ⟨id, found⟩ := splitAt_spells cached empty
    rw [found]
    exact ((stamp_touches _ _).outline id).trans (nodeAt_eq_some.1 found)

/-! ## Insertion -/

/-- Below the longest match there is room for the rest of the tokens. -/
theorem fits_rest (short : (tree.matchPrefix space tokens).2.1 < tokens.length) :
    (tree.matchPrefix space tokens).1.Fits space tokens := by
  let matched := (tree.matchPrefix space tokens).1
  let hit := (tree.matchPrefix space tokens).2.1
  have reached : ∀ {shared}, matched.Cached space shared → shared <+: tokens → shared <+: tokens.take hit := by
    intro shared cached isPrefix
    by_cases empty : shared = []
    · rw [empty]
      exact List.nil_prefix
    · have cut := List.prefix_iff_eq_take.1 isPrefix
      have before := (Reshapes.cached_iff (matchPrefix_edits tree space tokens)).1 cached
      rw [cut] at before
      have bound := (longest_spec (List.length_pos_of_ne_nil empty) isPrefix.length_le).1 before
      rw [cut]
      exact List.take_prefix_take_left bound
  refine ⟨?_, fun id present => ?_, fun {other otherPath shared} otherPresent nonempty onTokens onOther => ?_⟩
  · rintro rfl
    exact absurd short (Nat.not_lt_zero _)
  · have whole := (reached ⟨id, tokens, present, List.prefix_rfl⟩ List.prefix_rfl).length_le
    rw [List.length_take] at whole
    change hit < _ at short
    omega
  · have onCut := reached ⟨other, otherPath, otherPresent, onOther⟩ onTokens
    have spells := tree.matchPrefix_spells space tokens
    cases isNode : (tree.matchPrefix space tokens).2.2 with
    | root =>
      rw [isNode] at spells
      rw [show tokens.take hit = [] from spells] at onCut
      exact absurd (List.prefix_nil.1 onCut) nonempty
    | node lower =>
      rw [isNode] at spells
      obtain ⟨middle, between, present, carries, onPath, onOther⟩ :=
        matched.meet spells otherPresent nonempty onCut onOther
      exact .inr ⟨middle, between, present, carries, onPath.trans (List.take_prefix _ _), onOther⟩

def insertTokens (tree : LockTree ν τ) (space : ν) (tokens : List τ) : LockTree ν τ :=
  if short : (tree.matchPrefix space tokens).2.1 < tokens.length then
    (tree.matchPrefix space tokens).1.add space tokens 0 (fits_rest short)
  else (tree.matchPrefix space tokens).1

theorem insertTokens_fills (tree : LockTree ν τ) (space : ν) (tokens : List τ) :
    Fills space tokens tree (tree.insertTokens space tokens) := by
  rw [insertTokens]
  split
  next short =>
    have grows : Grows (tree.matchPrefix space tokens).1
        ((tree.matchPrefix space tokens).1.add space tokens 0 (fits_rest short))
        (tree.matchPrefix space tokens).1.freshId space tokens := by
      refine ⟨freshId_absent _, fun cached => ?_, outline_add, lockRef_add⟩
      have before := (Reshapes.cached_iff (matchPrefix_edits tree space tokens)).1 cached
      rw [← List.take_length (l := tokens)] at before
      have whole := (longest_spec (Nat.zero_lt_of_lt short) le_rfl).1 before
      exact absurd short (Nat.not_lt.2 whole)
    exact (matchPrefix_edits tree space tokens).tail (.grow ⟨rfl, List.prefix_rfl⟩ grows)
  next => exact matchPrefix_edits tree space tokens

theorem insertTokens_cached (nonempty : tokens ≠ []) : (tree.insertTokens space tokens).Cached space tokens := by
  rw [insertTokens]
  split
  next short => exact ⟨_, tokens, (outline_add _).trans (if_pos rfl), List.prefix_rfl⟩
  next long =>
    have spells := tree.matchPrefix_spells space tokens
    rw [List.take_of_length_le (Nat.not_lt.1 long)] at spells
    cases isNode : (tree.matchPrefix space tokens).2.2 with
    | root =>
      rw [isNode] at spells
      exact absurd spells nonempty
    | node id =>
      rw [isNode] at spells
      exact ⟨id, tokens, spells, List.prefix_rfl⟩

/-! ## Locks -/

/-- Change the locks on the way from a reference to the root. -/
def relock (tree : LockTree ν τ) (ref : NodeRef) (amount : Int) : LockTree ν τ :=
  tree.mapNodes (fun id node =>
      if id ∈ tree.upward ref then { node with lockRef := node.lockRef + amount } else node)
    fun id node => by split <;> exact ⟨rfl, rfl⟩

theorem relock_relocks (spells : tree.Spells ref space tokens) (amount : Int) :
    Relocks tree (tree.relock ref amount) fun id => tree.along ref id * amount := by
  refine ⟨outline_mapNodes, fun id => ?_⟩
  by_cases present : tree.outline id = none
  · have stillAbsent : (tree.relock ref amount).outline id = none := (outline_mapNodes id).trans present
    have offWay : id ∉ tree.upward ref := by
      intro onWay
      obtain ⟨_, isPresent, _⟩ := (mem_upward spells).1 onWay
      rw [present] at isPresent
      cases isPresent
    rw [lockRef_of_absent present, lockRef_of_absent stillAbsent, along, if_neg offWay, zero_mul, add_zero]
  · refine lockRef_mapNodes id present fun node => ?_
    rw [along]
    split <;> simp

/-- The tokens on the way that have one lock left. -/
def lastLocked (tree : LockTree ν τ) (ref : NodeRef) : Nat :=
  ∑ id ∈ (tree.upward ref).toFinset with tree.lockRef id = 1, (tree.key id).length

/-! ## Access times -/

omit [DecidableEq ν] [DecidableEq τ] in
theorem lastAccess_add {lockRef : Int} {fits : tree.Fits space path} (other : Nat) :
    (tree.add space path lockRef fits).lastAccess other =
      if other = tree.freshId then (tree.clock : WithBot Nat) else tree.lastAccess other := by
  rw [LockTree.lastAccess, add, Dict.get?_insert]
  split <;> rfl

omit [DecidableEq ν] [DecidableEq τ] in
theorem add_dated {lockRef : Int} {fits : tree.Fits space path} (dated : Dated tree) :
    Dated (tree.add space path lockRef fits) := by
  intro id present
  rw [outline_add] at present
  rw [lastAccess_add]
  split
  next => exact WithBot.coe_ne_bot
  next old =>
    rw [if_neg old] at present
    exact dated id present

theorem splitAt_dated (dated : Dated tree) (space : ν) (cut : List τ) : Dated (tree.splitAt space cut) := by
  rw [splitAt]
  split
  next => exact dated
  next =>
    split
    next => exact add_dated dated
    next => exact dated

omit [DecidableEq ν] [DecidableEq τ] in
theorem stamp_dated (dated : Dated tree) (ids : List Nat) : Dated (tree.stamp ids) := by
  intro id present
  have kept : tree.outline id ≠ none := by
    rwa [(stamp_touches tree ids).outline] at present
  have accessed := lastAccess_redate tree ids (tree.clock : WithBot Nat) kept
  change (tree.stamp ids).lastAccess id = _ at accessed
  rw [accessed]
  split
  next => exact WithBot.coe_ne_bot
  next => exact dated id kept

theorem matchPrefix_dated (dated : Dated tree) (space : ν) (tokens : List τ) :
    Dated (tree.matchPrefix space tokens).1 := stamp_dated (splitAt_dated dated space _) _

theorem insertTokens_dated (dated : Dated tree) (space : ν) (tokens : List τ) :
    Dated (tree.insertTokens space tokens) := by
  rw [insertTokens]
  split
  next => exact add_dated (matchPrefix_dated dated space tokens)
  next => exact matchPrefix_dated dated space tokens

theorem relock_dated (dated : Dated tree) (ref : NodeRef) (amount : Int) : Dated (tree.relock ref amount) := by
  intro id present
  have kept : tree.outline id ≠ none := by
    rwa [relock, outline_mapNodes] at present
  have accessed := dated id kept
  rw [lastAccess, relock, mapNodes, Dict.get?_mapRows, Option.map_map]
  simp only [outline, outlineOf, ne_eq, Option.map_eq_none_iff] at kept
  obtain ⟨node, found⟩ := Option.ne_none_iff_exists'.1 kept
  rw [lastAccess, found] at accessed
  rw [found, Option.map_some, Function.comp_apply]
  split <;> exact accessed

/-! ## Eviction -/

instance (tree : LockTree ν τ) (id : Nat) : Decidable (tree.Leaf id) :=
  decidable_of_iff (∀ other ∈ tree.nodes.keys, ∀ here ∈ tree.outline id, ∀ there ∈ tree.outline other,
      here.1 = there.1 → here.2 <+: there.2 → other = id) <| by
    constructor
    · intro holds other space path below present otherPresent isPrefix
      exact holds other (mem_keys_of_outline otherPresent) _ present _ otherPresent rfl isPrefix
    · rintro leaf other _ ⟨space, path⟩ present ⟨otherSpace, below⟩ otherPresent rfl isPrefix
      exact leaf other _ path below present otherPresent isPrefix

/-- The unlocked leaf with the smallest access time. -/
def oldest (tree : LockTree ν τ) : Option Nat :=
  (tree.nodes.keys.filter fun id => tree.lockRef id = 0 ∧ tree.Leaf id).argmin tree.lastAccess

theorem oldest_spec (found : tree.oldest = some id) :
    tree.outline id ≠ none ∧ tree.lockRef id = 0 ∧ tree.Leaf id := by
  have member := List.argmin_mem found
  rw [List.mem_filter, decide_eq_true_eq, Dict.mem_keys] at member
  refine ⟨?_, member.2⟩
  rw [outline, outlineOf, ne_eq, Option.map_eq_none_iff, Dict.get?_eq_none, not_not]
  exact member.1

/-- Each round takes one node, so their number is fuel enough. -/
def evictRounds : Nat → LockTree ν τ → Nat → LockTree ν τ
  | 0, tree, _ => tree
  | _ + 1, tree, 0 => tree
  | fuel + 1, tree, count + 1 =>
    match found : tree.oldest with
    | none => tree
    | some id => evictRounds fuel (tree.remove id (oldest_spec found).2.2) (count + 1 - (tree.key id).length)

def evictTokens (tree : LockTree ν τ) (count : Nat) : LockTree ν τ :=
  evictRounds tree.nodes.values.length tree count

theorem evictRounds_evicts (fuel : Nat) : ∀ (tree : LockTree ν τ) (count : Nat),
    tree.nodes.values.length ≤ fuel → Evicts count tree (evictRounds fuel tree count) := by
  induction fuel with
  | zero =>
    intro tree count bound
    refine .spent fun id present => absurd ?_ present
    rw [outline, outlineOf, Option.map_eq_none_iff]
    cases found : tree.nodes.get? id with
    | none => rfl
    | some node =>
      have member := Dict.mem_values.2 ⟨id, found⟩
      rw [List.eq_nil_of_length_eq_zero (Nat.le_zero.1 bound)] at member
      cases member
  | succ fuel inductionHypothesis =>
    intro tree count bound
    cases count with
    | zero => exact .enough
    | succ count =>
      rw [evictRounds]
      split
      next none =>
        refine .spent fun id present leaf unlocked => ?_
        rw [oldest, List.argmin_eq_none, List.filter_eq_nil_iff] at none
        obtain ⟨outline, present⟩ := Option.ne_none_iff_exists'.1 present
        exact none id (mem_keys_of_outline present) (decide_eq_true ⟨unlocked, leaf⟩)
      next id found =>
        obtain ⟨present, unlocked, leaf⟩ := oldest_spec found
        have sheds : Sheds tree (tree.remove id leaf) id := ⟨present, unlocked, leaf, rfl⟩
        refine .evict sheds ?_ (inductionHypothesis _ _ ?_)
        · intro other otherPresent otherLeaf otherUnlocked
          obtain ⟨outline, otherPresent⟩ := Option.ne_none_iff_exists'.1 otherPresent
          refine List.le_of_mem_argmin ?_ found
          rw [List.mem_filter, decide_eq_true_eq]
          exact ⟨mem_keys_of_outline otherPresent, otherUnlocked, otherLeaf⟩
        · rw [ne_eq, outline, outlineOf, Option.map_eq_none_iff] at present
          obtain ⟨node, isNode⟩ := Option.ne_none_iff_exists'.1 present
          have fewer := congrArg Multiset.card (Dict.values_of_get? isNode)
          simp only [Multiset.coe_card, Multiset.card_cons] at fewer
          change (tree.nodes.erase id).values.length ≤ fuel
          omega

theorem evictTokens_evicts (tree : LockTree ν τ) (count : Nat) : Evicts count tree (tree.evictTokens count) :=
  evictRounds_evicts _ tree count le_rfl

end Agentfork.LockTree

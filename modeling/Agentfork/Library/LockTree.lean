import Mathlib.Algebra.BigOperators.Group.Finset.Basic
import Mathlib.Algebra.Order.BigOperators.Group.Finset
import Mathlib.Order.WithBot
import Agentfork.Library.Dict
import Agentfork.Library.PrefixSet

/-! # Path trees with lock counts

A radix tree seen from its nodes. A node spells the tokens from the root down to
its own last one, so its parent is the node with the next shorter prefix and its
key is what it adds to the parent. Several trees share the nodes; the space of a
node says which one it belongs to. Nodes are named by identities that a client
may hold on to: a split puts a new node above an old one, which keeps its name.

Two nodes that share a nonempty prefix meet in a node that carries it. This is
all that is left of the edges: children of one node differ in their first token.
-/

namespace Agentfork

structure LockNode (ν τ : Type) where
  space : ν
  path : List τ
  lockRef : Int
  /-- `⊥` comes before every reading of the clock. -/
  lastAccess : WithBot Nat

/-- Where a node lies: its space and the tokens it spells. -/
def outlineOf {ν τ : Type} (nodes : Dict Nat (LockNode ν τ)) (id : Nat) : Option (ν × List τ) :=
  (nodes.get? id).map fun node => (node.space, node.path)

structure LockTree (ν τ : Type) where
  nodes : Dict Nat (LockNode ν τ)
  clock : Nat
  nonempty : ∀ {id space}, outlineOf nodes id ≠ some (space, [])
  distinct : ∀ {first second outline}, outlineOf nodes first = some outline →
    outlineOf nodes second = some outline → first = second
  meet : ∀ {first second space path other shared}, outlineOf nodes first = some (space, path) →
    outlineOf nodes second = some (space, other) → shared ≠ [] → shared <+: path → shared <+: other →
    ∃ id between, outlineOf nodes id = some (space, between) ∧ shared <+: between ∧
      between <+: path ∧ between <+: other

/-- A reference to the root or to a node below it. -/
inductive NodeRef where
  | root
  | node (id : Nat)
  deriving DecidableEq, Repr

namespace LockTree

variable {ν τ : Type} [DecidableEq ν] [DecidableEq τ]

section Accessors

def outline (tree : LockTree ν τ) (id : Nat) : Option (ν × List τ) := outlineOf tree.nodes id

def lockRef (tree : LockTree ν τ) (id : Nat) : Int := ((tree.nodes.get? id).map LockNode.lockRef).getD 0

def lastAccess (tree : LockTree ν τ) (id : Nat) : WithBot Nat :=
  ((tree.nodes.get? id).map LockNode.lastAccess).getD ⊥

/-- How many tokens a reference spells. -/
def depth (tree : LockTree ν τ) : NodeRef → Nat
  | .root => 0
  | .node id => ((tree.outline id).map fun outline => outline.2.length).getD 0

/-- The reference spells the tokens in the space. -/
def Spells (tree : LockTree ν τ) (ref : NodeRef) (space : ν) (tokens : List τ) : Prop :=
  match ref with
  | .root => tokens = []
  | .node id => tree.outline id = some (space, tokens)

/-- Some node carries the tokens. -/
def Cached (tree : LockTree ν τ) (space : ν) (tokens : List τ) : Prop :=
  ∃ id path, tree.outline id = some (space, path) ∧ tokens <+: path

/-- No other node lies below. -/
def Leaf (tree : LockTree ν τ) (id : Nat) : Prop :=
  ∀ other space path below, tree.outline id = some (space, path) →
    tree.outline other = some (space, below) → path <+: below → other = id

/-- The node that spells exactly the tokens. -/
def nodeAt (tree : LockTree ν τ) (space : ν) (path : List τ) : Option Nat :=
  tree.nodes.keys.find? fun id => tree.outline id = some (space, path)

/-- The node with the longest prefix of the path that is shorter than `length`. -/
def nearest (tree : LockTree ν τ) (space : ν) (path : List τ) : Nat → NodeRef
  | 0 => .root
  | length + 1 =>
    match tree.nodeAt space (path.take length) with
    | some id => .node id
    | none => tree.nearest space path length

def parent (tree : LockTree ν τ) (id : Nat) : NodeRef :=
  match tree.outline id with
  | none => .root
  | some (space, path) => tree.nearest space path path.length

/-- The tokens a node adds to those of its parent. -/
def key (tree : LockTree ν τ) (id : Nat) : List τ :=
  match tree.outline id with
  | none => []
  | some (_, path) => path.drop (tree.depth (tree.parent id))

/-- The nodes met on the way from a reference to the root, which is left out. -/
def climb (tree : LockTree ν τ) : Nat → NodeRef → List Nat
  | 0, _ => []
  | _ + 1, .root => []
  | fuel + 1, .node id => id :: tree.climb fuel (tree.parent id)

/-- A step upwards loses a token at least, so the depth is fuel enough. -/
def upward (tree : LockTree ν τ) (ref : NodeRef) : List Nat := tree.climb (tree.depth ref) ref

/-- Update locks and access times, the nodes staying where they are. -/
def mapNodes (tree : LockTree ν τ) (update : Nat → LockNode ν τ → LockNode ν τ)
    (kept : ∀ id node, (update id node).space = node.space ∧ (update id node).path = node.path) :
    LockTree ν τ :=
  have same : ∀ id, outlineOf (tree.nodes.mapRows update) id = outlineOf tree.nodes id := by
    intro id
    simp only [outlineOf, Dict.get?_mapRows, Option.map_map, Function.comp_def, kept]
  { nodes := tree.nodes.mapRows update
    clock := tree.clock
    nonempty := by simp only [same]; exact tree.nonempty
    distinct := by simp only [same]; exact tree.distinct
    meet := by simp only [same]; exact tree.meet }

/-- Set the access time of some nodes. -/
def redate (tree : LockTree ν τ) (ids : List Nat) (access : WithBot Nat) : LockTree ν τ :=
  tree.mapNodes (fun id node => if id ∈ ids then { node with lastAccess := access } else node)
    fun id node => by split <;> exact ⟨rfl, rfl⟩

/-- Make some nodes the oldest ones. -/
def backdate (tree : LockTree ν τ) (ids : List Nat) : LockTree ν τ := tree.redate ids ⊥

end Accessors

/-- The tree with the root alone. -/
def empty : LockTree ν τ where
  nodes := .empty
  clock := 0
  nonempty := nofun
  distinct := nofun
  meet := nofun

variable {tree : LockTree ν τ} {id : Nat} {space : ν} {path : List τ}

omit [DecidableEq ν] [DecidableEq τ] in
@[simp] theorem outline_mapNodes {update : Nat → LockNode ν τ → LockNode ν τ} {kept} (id : Nat) :
    (tree.mapNodes update kept).outline id = tree.outline id := by
  simp only [outline, outlineOf, mapNodes, Dict.get?_mapRows, Option.map_map, Function.comp_def, kept]

omit [DecidableEq ν] [DecidableEq τ] in
theorem lockRef_mapNodes {update : Nat → LockNode ν τ → LockNode ν τ} {kept} {change : Int} (id : Nat)
    (present : tree.outline id ≠ none)
    (changed : ∀ node, (update id node).lockRef = node.lockRef + change) :
    (tree.mapNodes update kept).lockRef id = tree.lockRef id + change := by
  simp only [outline, outlineOf, ne_eq, Option.map_eq_none_iff] at present
  obtain ⟨node, found⟩ := Option.ne_none_iff_exists'.1 present
  simp only [lockRef, mapNodes, Dict.get?_mapRows, found, Option.map_some, Option.getD_some, changed]

/-! ## Parents -/

omit [DecidableEq ν] [DecidableEq τ] in
theorem path_ne_nil (present : tree.outline id = some (space, path)) : path ≠ [] := by
  rintro rfl
  exact tree.nonempty present

omit [DecidableEq ν] [DecidableEq τ] in
theorem lockRef_of_absent (absent : tree.outline id = none) : tree.lockRef id = 0 := by
  simp only [outline, outlineOf, Option.map_eq_none_iff] at absent
  simp only [lockRef, absent, Option.map_none, Option.getD_none]

omit [DecidableEq ν] [DecidableEq τ] in
theorem mem_keys_of_outline {outline : ν × List τ} (present : tree.outline id = some outline) :
    id ∈ tree.nodes.keys := by
  rw [Dict.mem_keys, ← not_not (a := id ∈ tree.nodes), ← Dict.get?_eq_none]
  intro absent
  rw [LockTree.outline, outlineOf, absent] at present
  cases present

theorem nodeAt_eq_some : tree.nodeAt space path = some id ↔ tree.outline id = some (space, path) := by
  constructor
  · intro found
    simpa using List.find?_some found
  · intro present
    have isSome : (tree.nodeAt space path).isSome = true := by
      rw [nodeAt, List.find?_isSome]
      exact ⟨id, mem_keys_of_outline present, by simpa using present⟩
    obtain ⟨other, found⟩ := Option.isSome_iff_exists.1 isSome
    have otherPresent : tree.outline other = some (space, path) := by
      simpa using List.find?_some found
    rw [found, tree.distinct otherPresent present]

theorem nodeAt_eq_none :
    tree.nodeAt space path = none ↔ ∀ id, tree.outline id ≠ some (space, path) := by
  constructor
  · intro absent id present
    rw [nodeAt_eq_some.2 present] at absent
    cases absent
  · intro absent
    cases found : tree.nodeAt space path with
    | none => rfl
    | some id => exact absurd (nodeAt_eq_some.1 found) (absent id)

/-- The nearest node above is above every other one. -/
theorem nearest_spells (tree : LockTree ν τ) (space : ν) (path : List τ) (length : Nat) :
    ∃ above, tree.Spells (tree.nearest space path length) space above ∧ above <+: path ∧
      (0 < length → above.length < length) ∧
      ∀ id other, tree.outline id = some (space, other) → other <+: path → other.length < length →
        other <+: above := by
  induction length with
  | zero => exact ⟨[], rfl, List.nil_prefix, nofun, nofun⟩
  | succ length inductionHypothesis =>
    cases found : tree.nodeAt space (path.take length) with
    | some id =>
      simp only [nearest, found]
      refine ⟨path.take length, nodeAt_eq_some.1 found, List.take_prefix _ _, fun _ => ?_, ?_⟩
      · exact Nat.lt_succ_of_le (List.length_take_le _ _)
      · intro other shorter _ isPrefix bound
        rw [List.prefix_iff_eq_take.1 isPrefix]
        exact List.take_prefix_take_left (Nat.le_of_lt_succ bound)
    | none =>
      obtain ⟨above, spells, isPrefix, bound, highest⟩ := inductionHypothesis
      simp only [nearest, found]
      refine ⟨above, spells, isPrefix, fun _ => ?_, fun id other present below shorter => ?_⟩
      · cases length with
        | zero => cases spells; exact Nat.zero_lt_one
        | succ length => exact Nat.lt_succ_of_lt (bound (Nat.succ_pos _))
      · refine highest id other present below (lt_of_le_of_ne (Nat.le_of_lt_succ shorter) fun same => ?_)
        have cut := List.prefix_iff_eq_take.1 below
        rw [same] at cut
        exact nodeAt_eq_none.1 found id (cut ▸ present)

/-- What a parent is: it spells a proper prefix, and every other node on the way
to the root lies on the parent's own way. -/
theorem parent_spells (present : tree.outline id = some (space, path)) :
    ∃ above, tree.Spells (tree.parent id) space above ∧ above <+: path ∧ above.length < path.length ∧
      ∀ other shorter, tree.outline other = some (space, shorter) → shorter <+: path →
        other = id ∨ shorter <+: above := by
  obtain ⟨above, spells, isPrefix, bound, highest⟩ := tree.nearest_spells space path path.length
  refine ⟨above, ?_, isPrefix, bound (List.length_pos_of_ne_nil (path_ne_nil present)), ?_⟩
  · simpa only [parent, present] using spells
  · intro other shorter otherPresent below
    obtain same | shorterLength := Nat.eq_or_lt_of_le below.length_le
    · rw [below.eq_of_length same] at otherPresent
      exact .inl (tree.distinct otherPresent present)
    · exact .inr (highest other shorter otherPresent below shorterLength)

omit [DecidableEq ν] [DecidableEq τ] in
theorem depth_of_spells {ref : NodeRef} {tokens : List τ} (spells : tree.Spells ref space tokens) :
    tree.depth ref = tokens.length := by
  cases ref with
  | root => cases spells; rfl
  | node id =>
    change tree.outline id = some (space, tokens) at spells
    simp only [depth, spells, Option.map_some, Option.getD_some]

/-! ## The way to the root -/

theorem mem_climb {fuel : Nat} {ref : NodeRef} {tokens : List τ}
    (spells : tree.Spells ref space tokens) (enough : tokens.length ≤ fuel) :
    id ∈ tree.climb fuel ref ↔ ∃ shorter, tree.outline id = some (space, shorter) ∧ shorter <+: tokens := by
  -- induction on the fuel: the parent of a node is fed with one unit less
  induction fuel generalizing ref tokens with
  | zero =>
    have empty := List.eq_nil_of_length_eq_zero (Nat.le_zero.1 enough)
    subst empty
    refine iff_of_false (by simp [climb]) ?_
    rintro ⟨shorter, present, isPrefix⟩
    exact path_ne_nil present (List.prefix_nil.1 isPrefix)
  | succ fuel inductionHypothesis =>
    cases ref with
    | root =>
      cases spells
      refine iff_of_false (by simp [climb]) ?_
      rintro ⟨shorter, present, isPrefix⟩
      exact path_ne_nil present (List.prefix_nil.1 isPrefix)
    | node start =>
      change tree.outline start = some (space, tokens) at spells
      obtain ⟨above, aboveSpells, aboveBelow, shorterAbove, others⟩ := parent_spells spells
      rw [climb, List.mem_cons, inductionHypothesis aboveSpells (by omega)]
      constructor
      · rintro (rfl | ⟨shorter, present, isPrefix⟩)
        · exact ⟨tokens, spells, List.prefix_rfl⟩
        · exact ⟨shorter, present, isPrefix.trans aboveBelow⟩
      · rintro ⟨shorter, present, isPrefix⟩
        exact (others id shorter present isPrefix).imp_right fun below => ⟨shorter, present, below⟩

@[simp] theorem upward_root (tree : LockTree ν τ) : tree.upward .root = [] := rfl

/-- The way to the root meets the nodes that spell a prefix. -/
theorem mem_upward {ref : NodeRef} {tokens : List τ} (spells : tree.Spells ref space tokens) :
    id ∈ tree.upward ref ↔ ∃ shorter, tree.outline id = some (space, shorter) ∧ shorter <+: tokens :=
  mem_climb spells (depth_of_spells spells).ge

theorem mem_upward_of_outline {ref : NodeRef} {tokens : List τ} (spells : tree.Spells ref space tokens)
    (present : tree.outline id = some (space, path)) : id ∈ tree.upward ref ↔ path <+: tokens := by
  rw [mem_upward spells]
  constructor
  · rintro ⟨shorter, alsoPresent, isPrefix⟩
    rw [present] at alsoPresent
    cases alsoPresent
    exact isPrefix
  · intro isPrefix
    exact ⟨path, present, isPrefix⟩

/-! ## The tokens of a node -/

/-- The prefixes whose last token belongs to the node's key. -/
def segment (tree : LockTree ν τ) (id : Nat) : Finset (List τ) :=
  match tree.outline id with
  | none => ∅
  | some (_, path) => prefixes path \ prefixes (path.take (tree.depth (tree.parent id)))

theorem card_segment (tree : LockTree ν τ) (id : Nat) : (tree.segment id).card = (tree.key id).length := by
  simp only [segment, key]
  cases tree.outline id with
  | none => rfl
  | some outline =>
    simp only
    rw [Finset.card_sdiff_of_subset (prefixes_subset (List.take_prefix _ _)), card_prefixes, card_prefixes,
      List.length_take, List.length_drop]
    omega

/-- A prefix belongs to a node if the node is the first one to carry it. -/
theorem mem_segment (present : tree.outline id = some (space, path)) {shared : List τ} :
    shared ∈ tree.segment id ↔ shared ≠ [] ∧ shared <+: path ∧
      ∀ other shorter, tree.outline other = some (space, shorter) → shorter <+: path →
        shared <+: shorter → other = id := by
  obtain ⟨above, spells, aboveBelow, shorterAbove, others⟩ := parent_spells present
  have cut : path.take (tree.depth (tree.parent id)) = above := by
    rw [depth_of_spells spells]
    exact (List.prefix_iff_eq_take.1 aboveBelow).symm
  simp only [segment, present, Finset.mem_sdiff, mem_prefixes, cut, not_and]
  constructor
  · rintro ⟨⟨nonempty, isPrefix⟩, beyond⟩
    refine ⟨nonempty, isPrefix, fun other shorter otherPresent below carries => ?_⟩
    exact (others other shorter otherPresent below).resolve_right fun onWay =>
      beyond nonempty (carries.trans onWay)
  · rintro ⟨nonempty, isPrefix, first⟩
    refine ⟨⟨nonempty, isPrefix⟩, fun _ carried => ?_⟩
    cases isParent : tree.parent id with
    | root =>
      rw [isParent] at spells
      cases spells
      exact nonempty (List.prefix_nil.1 carried)
    | node up =>
      rw [isParent] at spells
      have same := first up above spells aboveBelow carried
      rw [same] at spells
      rw [LockTree.Spells, present] at spells
      cases spells
      exact absurd shorterAbove (lt_irrefl _)

/-- A prefix belongs to one node only. -/
theorem segment_unique {other : Nat} {shared otherPath : List τ}
    (present : tree.outline id = some (space, path)) (otherPresent : tree.outline other = some (space, otherPath))
    (here : shared ∈ tree.segment id) (there : shared ∈ tree.segment other) : id = other := by
  rw [mem_segment present] at here
  rw [mem_segment otherPresent] at there
  obtain ⟨nonempty, isPrefix, first⟩ := here
  obtain ⟨middle, between, middlePresent, carries, onHere, onThere⟩ :=
    tree.meet present otherPresent nonempty isPrefix there.2.1
  have atHere := first middle between middlePresent onHere carries
  have atThere := there.2.2 middle between middlePresent onThere carries
  exact atHere.symm.trans atThere

/-- Every prefix of a node belongs to a node on the way to the root. -/
theorem exists_segment {shared : List τ} (present : tree.outline id = some (space, path))
    (nonempty : shared ≠ []) (isPrefix : shared <+: path) :
    ∃ owner ownerPath, tree.outline owner = some (space, ownerPath) ∧ ownerPath <+: path ∧
      shared ∈ tree.segment owner := by
  -- induction on the length of the path: either the node itself is the first, or its parent carries the prefix
  induction bound : path.length using Nat.strong_induction_on generalizing id path with
  | _ length inductionHypothesis =>
    obtain ⟨above, spells, aboveBelow, shorterAbove, others⟩ := parent_spells present
    by_cases carried : shared <+: above
    · cases isParent : tree.parent id with
      | root =>
        rw [isParent] at spells
        cases spells
        exact absurd (List.prefix_nil.1 carried) nonempty
      | node up =>
        rw [isParent] at spells
        obtain ⟨owner, ownerPath, ownerPresent, below, belongs⟩ :=
          inductionHypothesis above.length (by omega) spells carried rfl
        exact ⟨owner, ownerPath, ownerPresent, below.trans aboveBelow, belongs⟩
    · refine ⟨id, path, present, List.prefix_rfl, (mem_segment present).2 ⟨nonempty, isPrefix, ?_⟩⟩
      intro other shorter otherPresent below carries
      exact (others other shorter otherPresent below).resolve_right fun onWay => carried (carries.trans onWay)

/-- The keys of distinct nodes of a space have as many tokens as their segments
have members. -/
theorem sum_key_length {ids : Finset Nat}
    (present : ∀ id ∈ ids, ∃ path, tree.outline id = some (space, path)) :
    ∑ id ∈ ids, (tree.key id).length = (ids.biUnion tree.segment).card := by
  rw [Finset.card_biUnion]
  · exact Finset.sum_congr rfl fun id _ => (card_segment tree id).symm
  · intro first firstMember second secondMember differ
    obtain ⟨firstPath, firstPresent⟩ := present first firstMember
    obtain ⟨secondPath, secondPresent⟩ := present second secondMember
    rw [Function.onFun, Finset.disjoint_left]
    intro shared here there
    exact differ (segment_unique firstPresent secondPresent here there)

/-- The segments met on the way to the root are the prefixes. -/
theorem exists_mem_upward {ref : NodeRef} {tokens shared : List τ}
    (spells : tree.Spells ref space tokens) :
    (∃ id ∈ tree.upward ref, shared ∈ tree.segment id) ↔ shared ∈ prefixes tokens := by
  constructor
  · rintro ⟨id, onWay, belongs⟩
    obtain ⟨shorter, present, below⟩ := (mem_upward spells).1 onWay
    obtain ⟨nonempty, isPrefix, _⟩ := (mem_segment present).1 belongs
    exact mem_prefixes.2 ⟨nonempty, isPrefix.trans below⟩
  · intro member
    obtain ⟨nonempty, isPrefix⟩ := mem_prefixes.1 member
    cases ref with
    | root =>
      cases spells
      exact absurd (List.prefix_nil.1 isPrefix) nonempty
    | node start =>
      obtain ⟨owner, ownerPath, present, below, belongs⟩ := exists_segment spells nonempty isPrefix
      exact ⟨owner, (mem_upward_of_outline spells present).2 below, belongs⟩

end LockTree

end Agentfork

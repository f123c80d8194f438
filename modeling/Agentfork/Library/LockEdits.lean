import Mathlib.Logic.Relation
import Agentfork.Library.LockTree

/-! # Edits of a lock tree

What the operations of a cache may do to a lock tree, one relation for each:
lock and touch, split a key, grow a leaf, shed a leaf. -/

namespace Agentfork.LockTree

variable {ν τ : Type} [DecidableEq ν] [DecidableEq τ]

section Relations

/-- Nothing but locks and access times changes. -/
structure Relocks (before after : LockTree ν τ) (change : Nat → Int) : Prop where
  outline : ∀ id, after.outline id = before.outline id
  lockRef : ∀ id, after.lockRef id = before.lockRef id + change id

/-- One for each node on the way from the reference to the root. -/
def along (tree : LockTree ν τ) (ref : NodeRef) (id : Nat) : Int :=
  if id ∈ tree.upward ref then 1 else 0

/-- A new node takes the upper part of a key and copies its locks. -/
structure Splits (before after : LockTree ν τ) (upper lower : Nat) (space : ν) (cut path : List τ) :
    Prop where
  fresh : before.outline upper = none
  present : before.outline lower = some (space, path)
  isPrefix : cut <+: path
  above : ∀ id other, before.outline id = some (space, other) → other <+: path →
    id = lower ∨ other <+: cut
  outline : ∀ id, after.outline id = if id = upper then some (space, cut) else before.outline id
  lockRef : ∀ id, after.lockRef id = if id = upper then before.lockRef lower else before.lockRef id

/-- A new leaf without locks. -/
structure Grows (before after : LockTree ν τ) (leaf : Nat) (space : ν) (path : List τ) : Prop where
  fresh : before.outline leaf = none
  bare : ¬ before.Cached space path
  outline : ∀ id, after.outline id = if id = leaf then some (space, path) else before.outline id
  lockRef : ∀ id, after.lockRef id = if id = leaf then 0 else before.lockRef id

/-- A leaf without locks goes. -/
structure Sheds (before after : LockTree ν τ) (id : Nat) : Prop where
  present : before.outline id ≠ none
  unlocked : before.lockRef id = 0
  leaf : before.Leaf id
  nodes : after.nodes = before.nodes.erase id

/-- One edit of a cache that may grow leaves where `room` allows it. -/
inductive Edit (room : ν → List τ → Prop) (before after : LockTree ν τ) : Prop where
  | touch (touches : Relocks before after fun _ => 0)
  | split {upper lower : Nat} {space : ν} {cut path : List τ}
      (splits : Splits before after upper lower space cut path)
  | grow {leaf : Nat} {space : ν} {path : List τ} (allowed : room space path)
      (grows : Grows before after leaf space path)

/-- Touches and splits. -/
def Reshapes : LockTree ν τ → LockTree ν τ → Prop := Relation.ReflTransGen (Edit fun _ _ => False)

/-- Touches, splits and new leaves for prefixes of the tokens. -/
def Fills (space : ν) (tokens : List τ) : LockTree ν τ → LockTree ν τ → Prop :=
  Relation.ReflTransGen (Edit fun other path => other = space ∧ path <+: tokens)

/-- Unlocked leaves go one after the other. -/
def Shrinks : LockTree ν τ → LockTree ν τ → Prop :=
  Relation.ReflTransGen fun before after => ∃ id, Sheds before after id

/-- Unlocked leaves go, the least recently accessed one first, until `count`
tokens are gone or none is left. -/
inductive Evicts : Nat → LockTree ν τ → LockTree ν τ → Prop where
  | enough {tree : LockTree ν τ} : Evicts 0 tree tree
  | spent {count : Nat} {tree : LockTree ν τ}
      (locked : ∀ id, tree.outline id ≠ none → tree.Leaf id → tree.lockRef id ≠ 0) : Evicts count tree tree
  | evict {count id : Nat} {before middle after : LockTree ν τ} (sheds : Sheds before middle id)
      (least : ∀ other, before.outline other ≠ none → before.Leaf other → before.lockRef other = 0 →
        before.lastAccess id ≤ before.lastAccess other)
      (rest : Evicts (count + 1 - (before.key id).length) middle after) : Evicts (count + 1) before after

end Relations

variable {before after tree : LockTree ν τ} {held rest : Multiset (ν × List τ)}
  {space : ν} {tokens path shared : List τ} {ref : NodeRef} {id : Nat}

omit [DecidableEq ν] [DecidableEq τ] in
theorem lastAccess_redate (tree : LockTree ν τ) (ids : List Nat) (access : WithBot Nat)
    (present : tree.outline id ≠ none) :
    (tree.redate ids access).lastAccess id = if id ∈ ids then access else tree.lastAccess id := by
  simp only [outline, outlineOf, ne_eq, Option.map_eq_none_iff] at present
  obtain ⟨node, found⟩ := Option.ne_none_iff_exists'.1 present
  simp only [lastAccess, redate, mapNodes, Dict.get?_mapRows, found, Option.map_some, Option.getD_some]
  split <;> rfl

omit [DecidableEq ν] [DecidableEq τ] in
theorem redate_touches (tree : LockTree ν τ) (ids : List Nat) (access : WithBot Nat) :
    Relocks tree (tree.redate ids access) fun _ => 0 := by
  refine ⟨outline_mapNodes, fun id => ?_⟩
  by_cases present : tree.outline id = none
  · have stillAbsent : (tree.redate ids access).outline id = none := (outline_mapNodes id).trans present
    rw [lockRef_of_absent present, lockRef_of_absent stillAbsent, add_zero]
  · refine lockRef_mapNodes id present fun node => ?_
    split <;> simp

namespace Relocks

variable {change : Nat → Int}

omit [DecidableEq ν] [DecidableEq τ] in
theorem spells (relocks : Relocks before after change) (spells : before.Spells ref space tokens) :
    after.Spells ref space tokens := by
  cases ref with
  | root => exact spells
  | node id => exact (relocks.outline id).trans spells

theorem mem_upward (relocks : Relocks before after change) (spells : before.Spells ref space tokens) :
    id ∈ after.upward ref ↔ id ∈ before.upward ref := by
  rw [LockTree.mem_upward spells, LockTree.mem_upward (relocks.spells spells), relocks.outline]

end Relocks

/-! ## What an edit keeps -/

section Edits

variable {room : ν → List τ → Prop}

omit [DecidableEq ν] [DecidableEq τ] in
theorem Splits.cut_ne_nil {upper lower : Nat} {cut : List τ}
    (splits : Splits before after upper lower space cut path) : cut ≠ [] := by
  have here := splits.outline upper
  rw [if_pos rfl] at here
  exact path_ne_nil here

omit [DecidableEq ν] [DecidableEq τ] in
/-- The nodes that were there stay where they were, with their locks. -/
theorem Edit.keeps (edit : Edit room before after) {outline : ν × List τ}
    (present : before.outline id = some outline) :
    after.outline id = some outline ∧ after.lockRef id = before.lockRef id := by
  cases edit with
  | touch touches =>
    refine ⟨(touches.outline id).trans present, ?_⟩
    rw [touches.lockRef, add_zero]
  | @split upper _ _ _ _ splits =>
    have differs : id ≠ upper := by
      rintro rfl
      rw [splits.fresh] at present
      cases present
    rw [splits.outline, splits.lockRef, if_neg differs, if_neg differs]
    exact ⟨present, rfl⟩
  | @grow leaf _ _ _ grows =>
    have differs : id ≠ leaf := by
      rintro rfl
      rw [grows.fresh] at present
      cases present
    rw [grows.outline, grows.lockRef, if_neg differs, if_neg differs]
    exact ⟨present, rfl⟩

omit [DecidableEq ν] [DecidableEq τ] in
theorem Edit.spells (edit : Edit room before after) (spells : before.Spells ref space tokens) :
    after.Spells ref space tokens := by
  cases ref with
  | root => exact spells
  | node id => exact (edit.keeps spells).1

omit [DecidableEq ν] [DecidableEq τ] in
/-- Only what `room` allows becomes cached. -/
theorem Edit.cached (edit : Edit room before after) (cached : after.Cached space shared) :
    before.Cached space shared ∨ ∃ path, room space path ∧ shared <+: path := by
  obtain ⟨id, path, present, isPrefix⟩ := cached
  cases edit with
  | touch touches => exact .inl ⟨id, path, (touches.outline id).symm.trans present, isPrefix⟩
  | split splits =>
    rw [splits.outline] at present
    split at present
    next isUpper =>
      cases present
      exact .inl ⟨_, _, splits.present, isPrefix.trans splits.isPrefix⟩
    next => exact .inl ⟨id, path, present, isPrefix⟩
  | grow allowed grows =>
    rw [grows.outline] at present
    split at present
    next isLeaf =>
      cases present
      exact .inr ⟨path, allowed, isPrefix⟩
    next => exact .inl ⟨id, path, present, isPrefix⟩

omit [DecidableEq ν] [DecidableEq τ] in
theorem Relocks.cached_iff {change : Nat → Int} (relocks : Relocks before after change) :
    after.Cached space shared ↔ before.Cached space shared := by
  simp only [Cached, relocks.outline]

omit [DecidableEq ν] [DecidableEq τ] in
/-- Edits uncache nothing. -/
theorem cached_of_edits (edits : Relation.ReflTransGen (Edit room) before after)
    (cached : before.Cached space shared) : after.Cached space shared := by
  induction edits with
  | refl => exact cached
  | tail _ edit inductionHypothesis =>
    obtain ⟨id, path, present, isPrefix⟩ := inductionHypothesis
    exact ⟨id, path, (edit.keeps present).1, isPrefix⟩

omit [DecidableEq ν] [DecidableEq τ] in
/-- Touches and splits cache nothing either. -/
theorem Reshapes.cached_iff (reshapes : Reshapes before after) :
    after.Cached space shared ↔ before.Cached space shared := by
  refine ⟨fun cached => ?_, cached_of_edits reshapes⟩
  induction reshapes with
  | refl => exact cached
  | tail _ edit inductionHypothesis =>
    exact inductionHypothesis ((edit.cached cached).resolve_right fun ⟨_, impossible, _⟩ => impossible)

omit [DecidableEq ν] [DecidableEq τ] in
/-- A held sequence passes through both parts of a split key or through none. -/
theorem Splits.passes {upper lower : Nat} {cut : List τ}
    (splits : Splits before after upper lower space cut path)
    (anchored : tokens = [] ∨ ∃ id, before.outline id = some (space, tokens)) :
    cut <+: tokens ↔ path <+: tokens := by
  constructor
  · intro carried
    obtain rfl | ⟨id, present⟩ := anchored
    · exact absurd (List.prefix_nil.1 carried) splits.cut_ne_nil
    · obtain ⟨middle, between, middlePresent, carries, onPath, onTokens⟩ :=
        before.meet splits.present present splits.cut_ne_nil splits.isPrefix carried
      obtain rfl | atCut := splits.above middle between middlePresent onPath
      · have same := splits.present.symm.trans middlePresent
        cases same
        exact onTokens
      · -- a node that spells the cut would make the new one a second
        have same := atCut.eq_of_length (Nat.le_antisymm atCut.length_le carries.length_le)
        subst same
        have kept := (Edit.split splits : Edit (fun _ _ => False) before after).keeps middlePresent
        have here := splits.outline upper
        rw [if_pos rfl] at here
        have isUpper := after.distinct kept.1 here
        subst isUpper
        have missing := splits.fresh.symm.trans middlePresent
        cases missing
  · exact splits.isPrefix.trans

end Edits

/-! ## Eviction -/

omit [DecidableEq ν] [DecidableEq τ] in
theorem Sheds.outline (sheds : Sheds before after id) (other : Nat) :
    after.outline other = if other = id then none else before.outline other := by
  rw [LockTree.outline, outlineOf, sheds.nodes, Dict.get?_erase]
  split <;> rfl

omit [DecidableEq ν] [DecidableEq τ] in
theorem Sheds.lockRef (sheds : Sheds before after id) {other : Nat} (differs : other ≠ id) :
    after.lockRef other = before.lockRef other := by
  rw [LockTree.lockRef, LockTree.lockRef, sheds.nodes, Dict.get?_erase, if_neg differs]

omit [DecidableEq ν] [DecidableEq τ] in
theorem Sheds.lastAccess (sheds : Sheds before after id) {other : Nat} (differs : other ≠ id) :
    after.lastAccess other = before.lastAccess other := by
  rw [LockTree.lastAccess, LockTree.lastAccess, sheds.nodes, Dict.get?_erase, if_neg differs]

end Agentfork.LockTree

import Agentfork.Library.LockEvictions

/-! # The radix cache that the patch extends

SGLang's `RadixCache` is not part of the repository. Its operations are a
parameter of the model; what the patch relies on are the laws below, one for
each operation. A law speaks of references into the tree only: what an operation
does with a node that has been evicted is not promised. -/

namespace Agentfork.Sglang

/-- The nodes of the cache: the namespace is the `extra_key` of their tree. -/
abbrev Tree (τ : Type) := LockTree String τ

structure RadixKey (τ : Type) where
  tokenIds : List τ
  extraKey : String

/-- What `match_prefix` returns: the number of device indices and the node that
holds the last of them. -/
structure MatchResult where
  deviceIndices : Nat
  lastDeviceNode : NodeRef

structure RadixCache (τ : Type) where
  /-- `RadixKey.page_aligned`: the whole pages of the tokens -/
  pageAligned : Nat → List τ → List τ
  matchPrefix : Tree τ → RadixKey τ → Tree τ × MatchResult
  insert : Tree τ → RadixKey τ → Tree τ
  incLockRef : Tree τ → NodeRef → Tree τ
  /-- The second component is the `delta` of the result. -/
  decLockRef : Tree τ → NodeRef → Tree τ × Nat
  evict : Tree τ → Nat → Tree τ

namespace RadixCache

variable {τ : Type} [DecidableEq τ]

/-- What the patch relies on. With pages of one token, the only size that the patch is
run with, a match can end at any token: `match_longest` and `insert_caches` hold of
SGLang's cache at this page size, and not at a larger one. -/
structure Laws (radix : RadixCache τ) : Prop where
  /-- A lookup splits a key where the match ends and touches what it meets. -/
  match_reshapes : ∀ tree key, LockTree.Reshapes tree (radix.matchPrefix tree key).1
  match_bound : ∀ tree key, (radix.matchPrefix tree key).2.deviceIndices ≤ key.tokenIds.length
  /-- The match is the longest cached prefix. -/
  match_longest : ∀ tree key length, 0 < length → length ≤ key.tokenIds.length →
    (tree.Cached key.extraKey (key.tokenIds.take length) ↔
      length ≤ (radix.matchPrefix tree key).2.deviceIndices)
  match_node : ∀ tree key, (radix.matchPrefix tree key).1.Spells
    (radix.matchPrefix tree key).2.lastDeviceNode key.extraKey
    (key.tokenIds.take (radix.matchPrefix tree key).2.deviceIndices)
  /-- An insertion splits, and adds nodes without locks for the rest of the key. -/
  insert_fills : ∀ tree key, LockTree.Fills key.extraKey key.tokenIds tree (radix.insert tree key)
  insert_caches : ∀ tree key, key.tokenIds ≠ [] →
    (radix.insert tree key).Cached key.extraKey key.tokenIds
  /-- One lock more on each node from the given one up to below the root. -/
  inc_relocks : ∀ tree ref space tokens, tree.Spells ref space tokens →
    LockTree.Relocks tree (radix.incLockRef tree ref) (tree.along ref)
  dec_relocks : ∀ tree ref space tokens, tree.Spells ref space tokens →
    LockTree.Relocks tree (radix.decLockRef tree ref).1 fun id => -tree.along ref id
  /-- The tokens whose last lock goes. -/
  dec_delta : ∀ tree ref space tokens, tree.Spells ref space tokens →
    (radix.decLockRef tree ref).2 =
      ∑ id ∈ (tree.upward ref).toFinset with tree.lockRef id = 1, (tree.key id).length
  /-- An eviction takes leaves without locks only. -/
  evict_shrinks : ∀ tree count, LockTree.Shrinks tree (radix.evict tree count)

/-- Eviction takes the least recently accessed leaf first, until the tokens asked
for are gone. -/
def EvictsInOrder (radix : RadixCache τ) : Prop :=
  ∀ tree count, LockTree.Evicts count tree (radix.evict tree count)

/-- Access times are readings of the clock: no operation puts a node before all others. -/
structure Stamps (radix : RadixCache τ) : Prop where
  match_dated : ∀ tree key, LockTree.Dated tree → LockTree.Dated (radix.matchPrefix tree key).1
  insert_dated : ∀ tree key, LockTree.Dated tree → LockTree.Dated (radix.insert tree key)
  inc_dated : ∀ tree ref, LockTree.Dated tree → LockTree.Dated (radix.incLockRef tree ref)
  dec_dated : ∀ tree ref, LockTree.Dated tree → LockTree.Dated (radix.decLockRef tree ref).1

end RadixCache

end Agentfork.Sglang

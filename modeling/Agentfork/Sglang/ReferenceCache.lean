import Agentfork.Library.LockCache
import Agentfork.Sglang.TreeRadixCache

/-! # A radix cache that meets the laws

The operations of the lock-tree library, put together to the interface that the
patch extends. They stamp, split, lock and evict in the order of the radix cache,
so runs on them are runs of the real one. -/

namespace Agentfork.Sglang

open LockTree

variable {τ : Type} [DecidableEq τ]

def referenceCache : RadixCache τ where
  pageAligned pageSize tokens :=
    if pageSize = 1 then tokens else tokens.take (tokens.length / pageSize * pageSize)
  matchPrefix tree key :=
    let found := tree.matchPrefix key.extraKey key.tokenIds
    (found.1, ⟨found.2.1, found.2.2⟩)
  insert tree key := tree.insertTokens key.extraKey key.tokenIds
  incLockRef tree node := tree.relock node 1
  decLockRef tree node := (tree.relock node (-1), tree.lastLocked node)
  evict := LockTree.evictTokens

theorem referenceCache_evicts : (referenceCache : RadixCache τ).EvictsInOrder :=
  LockTree.evictTokens_evicts

theorem referenceCache_stamps : (referenceCache : RadixCache τ).Stamps where
  match_dated _ _ dated := matchPrefix_dated dated _ _
  insert_dated _ _ dated := insertTokens_dated dated _ _
  inc_dated _ _ dated := relock_dated dated _ _
  dec_dated _ _ dated := relock_dated dated _ _

theorem referenceCache_laws : (referenceCache : RadixCache τ).Laws where
  match_reshapes tree key := tree.matchPrefix_edits key.extraKey key.tokenIds
  match_bound tree key := tree.longest_le key.extraKey key.tokenIds _
  match_longest _ _ _ positive inside := longest_spec positive inside
  match_node tree key := tree.matchPrefix_spells key.extraKey key.tokenIds
  insert_fills tree key := tree.insertTokens_fills key.extraKey key.tokenIds
  insert_caches _ _ nonempty := insertTokens_cached nonempty
  inc_relocks tree node ns tokens spells := by
    have locks := relock_relocks spells 1
    simp only [mul_one] at locks
    exact locks
  dec_relocks tree node ns tokens spells := by
    have unlocks := relock_relocks spells (-1)
    simp only [mul_neg, mul_one] at unlocks
    exact unlocks
  dec_delta _ _ _ _ _ := rfl
  evict_shrinks tree count := (tree.evictTokens_evicts count).shrinks

end Agentfork.Sglang

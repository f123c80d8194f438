import Agentfork.Sglang.TreeRadixCache

/-! # The balance of pins

A live branch that is not demoted holds its committed tokens; a demoted one
holds nothing, whatever node it still names. `Synced` says that the locks of the
tree are those of the held sequences and that each holder's node spells its
tokens. Every method takes its locks from one synced state to the next, so the
stale node of a demoted branch is never followed. -/

namespace Agentfork.Sglang

open LockTree

/-! ## What is held -/

variable {τ : Type} {branches : Dict String (AgentBranch τ)} {branchId ns : String} {br : AgentBranch τ}

/-- What a branch holds. -/
def stake (br : AgentBranch τ) : Multiset (String × List τ) :=
  if br.speculative then 0 else {(br.ns, br.tokenIds)}

/-- What all branches hold. -/
def held (branches : Dict String (AgentBranch τ)) : Multiset (String × List τ) :=
  (branches.values : Multiset (AgentBranch τ)).bind stake

theorem stake_of_pinned (pinned : br.speculative = false) : stake br = {(br.ns, br.tokenIds)} := by
  simp [stake, pinned]

theorem stake_of_demoted (demoted : br.speculative = true) : stake br = 0 := by
  simp [stake, demoted]

theorem held_insert (branches : Dict String (AgentBranch τ)) (branchId : String) (br : AgentBranch τ) :
    held (branches.insert branchId br) = stake br + held (branches.erase branchId) := by
  rw [held, Dict.values_insert, Multiset.cons_bind]
  rfl

theorem held_of_get? (found : branches.get? branchId = some br) :
    held branches = stake br + held (branches.erase branchId) := by
  rw [held, Dict.values_of_get? found, Multiset.cons_bind]
  rfl

theorem held_erase_of_absent (absent : branches.get? branchId = none) :
    held (branches.erase branchId) = held branches := by
  rw [held, held, Dict.values_erase_of_absent absent]

theorem held_erase_insert (branches : Dict String (AgentBranch τ)) (branchId : String) (br : AgentBranch τ) :
    held ((branches.insert branchId br).erase branchId) = held (branches.erase branchId) := by
  rw [held, held, Dict.values, Dict.erase_insert]
  rfl

theorem mem_held {entry : String × List τ} : entry ∈ held branches ↔
    ∃ branchId br, branches.get? branchId = some br ∧ br.speculative = false ∧
      entry = (br.ns, br.tokenIds) := by
  simp only [held, Multiset.mem_bind, Multiset.mem_coe, Dict.mem_values]
  constructor
  · rintro ⟨br, ⟨branchId, found⟩, member⟩
    cases flag : br.speculative with
    | true => simp [stake, flag] at member
    | false => exact ⟨branchId, br, found, flag, by simpa [stake, flag] using member⟩
  · rintro ⟨branchId, br, found, pinned, rfl⟩
    exact ⟨br, ⟨branchId, found⟩, by simp [stake, pinned]⟩

variable [DecidableEq τ] {tree after : Tree τ} {rest others : Multiset (String × List τ)} {radix : RadixCache τ}

/-- A namespace carries what its own branches hold. -/
theorem carried_stake_of_ne (differs : br.ns ≠ ns) :
    carried (stake br + rest) ns = carried rest ns := by
  cases flag : br.speculative with
  | true => rw [stake_of_demoted flag, zero_add]
  | false => rw [stake_of_pinned flag, Multiset.singleton_add, carried_cons_of_ne differs]

/-- The locked node of the branch spells its tokens. -/
def Anchored (tree : Tree τ) (br : AgentBranch τ) : Prop :=
  match br.lockedNode with
  | none => br.tokenIds = []
  | some node => tree.Spells node br.ns br.tokenIds

/-- `others` are the sequences that SGLang itself has locked, for the requests it runs. -/
structure Synced (others : Multiset (String × List τ)) (tree : Tree τ) (branches : Dict String (AgentBranch τ)) : Prop where
  anchored : ∀ branchId br, branches.get? branchId = some br → br.speculative = false → Anchored tree br
  counts : tree.Counts (held branches + others)

/-! ## The steps of a method -/

namespace Synced

/-- Without requests the branches hold all locks. -/
theorem counts_alone (synced : Synced 0 tree branches) : tree.Counts (held branches) := by
  simpa using synced.counts

theorem edits {room : String → List τ → Prop} (synced : Synced others tree branches)
    (edits : Relation.ReflTransGen (Edit room) tree after) : Synced others after branches := by
  refine ⟨fun branchId br found pinned => ?_, synced.counts.edits edits⟩
  have anchored := synced.anchored branchId br found pinned
  rw [Anchored] at anchored ⊢
  cases locked : br.lockedNode with
  | none => rwa [locked] at anchored
  | some node =>
    rw [locked] at anchored
    simp only at anchored ⊢
    clear synced
    induction edits with
    | refl => exact anchored
    | tail _ edit inductionHypothesis => exact edit.spells inductionHypothesis

theorem shrinks (synced : Synced others tree branches) (shrinks : Shrinks tree after) :
    Synced others after branches := by
  refine ⟨fun branchId br found pinned => ?_, synced.counts.shrink shrinks⟩
  have anchored := synced.anchored branchId br found pinned
  have member : (br.ns, br.tokenIds) ∈ held branches + others :=
    Multiset.mem_add.2 (.inl (mem_held.2 ⟨branchId, br, found, pinned, rfl⟩))
  rw [Anchored] at anchored ⊢
  cases locked : br.lockedNode with
  | none => rwa [locked] at anchored
  | some node =>
    rw [locked] at anchored
    exact synced.counts.spells_shrink shrinks member anchored

omit [DecidableEq τ] in
theorem anchored_relocks {change : Nat → Int} (anchored : Anchored tree br)
    (relocks : Relocks tree after change) : Anchored after br := by
  rw [Anchored] at anchored ⊢
  cases locked : br.lockedNode with
  | none => rwa [locked] at anchored
  | some node =>
    rw [locked] at anchored
    exact relocks.spells anchored

/-- Replace one branch after its locks have been moved. -/
theorem insert (synced : Synced others tree branches)
    (kept : ∀ other, Anchored tree other → Anchored after other)
    (anchored : br.speculative = false → Anchored after br)
    (counts : after.Counts (stake br + held (branches.erase branchId) + others)) :
    Synced others after (branches.insert branchId br) := by
  refine ⟨fun other otherBr found pinned => ?_, held_insert branches branchId br ▸ counts⟩
  rw [Dict.get?_insert] at found
  split at found
  next =>
    cases found
    exact anchored pinned
  next => exact kept otherBr (synced.anchored other otherBr found pinned)

/-- Take one branch away after its locks have gone. -/
theorem erase (synced : Synced others tree branches)
    (kept : ∀ other, Anchored tree other → Anchored after other)
    (counts : after.Counts (held (branches.erase branchId) + others)) :
    Synced others after (branches.erase branchId) := by
  refine ⟨fun other otherBr found pinned => ?_, counts⟩
  rw [Dict.get?_erase] at found
  split at found
  next => cases found
  next => exact kept otherBr (synced.anchored other otherBr found pinned)

end Synced

omit [DecidableEq τ] in
/-- A pinned branch without a node stands at the root. -/
theorem anchored_spells (anchored : Anchored tree br) :
    tree.Spells (br.lockedNode.getD .root) br.ns br.tokenIds := by
  rw [Anchored] at anchored
  cases locked : br.lockedNode with
  | none => rwa [locked] at anchored
  | some node => rwa [locked] at anchored

/-- Unlocking moves no node and returns what loses its last lock. -/
theorem unlock_spec (laws : radix.Laws) (anchored : Anchored tree br) :
    Relocks tree (TreeRadixCache.unlock radix tree br.lockedNode).1
        (fun id => -tree.along (br.lockedNode.getD .root) id) ∧
      (TreeRadixCache.unlock radix tree br.lockedNode).2 =
        ∑ id ∈ (tree.upward (br.lockedNode.getD .root)).toFinset with tree.lockRef id = 1, (tree.key id).length := by
  have spells := anchored_spells anchored
  cases locked : br.lockedNode with
  | none => exact ⟨⟨fun _ => rfl, fun _ => by simp [TreeRadixCache.unlock, along]⟩, rfl⟩
  | some node =>
    rw [locked] at spells
    exact ⟨laws.dec_relocks tree node br.ns br.tokenIds spells, laws.dec_delta tree node br.ns br.tokenIds spells⟩

/-- Unlocking the node of a holder takes its stake away. -/
theorem counts_unlock (laws : radix.Laws) (anchored : Anchored tree br)
    (counts : tree.Counts ((br.ns, br.tokenIds) ::ₘ rest)) :
    (TreeRadixCache.unlock radix tree br.lockedNode).1.Counts rest ∧
      ∃ change, Relocks tree (TreeRadixCache.unlock radix tree br.lockedNode).1 change := by
  have unlocks := (unlock_spec laws anchored).1
  exact ⟨counts.unlock (anchored_spells anchored) unlocks, _, unlocks⟩

/-- What is released leaves the holders alone. -/
theorem Synced.release (laws : radix.Laws) (synced : Synced others tree branches) (node : Option NodeRef)
    (released : Nat) : Synced others (TreeRadixCache.release radix tree node released) branches := by
  rw [TreeRadixCache.release]
  split
  next =>
    have prioritized : Synced others (TreeRadixCache.prioritizeUnpinnedPath tree node) branches := by
      cases node with
      | none => exact synced
      | some node =>
        have touched : Reshapes tree (TreeRadixCache.prioritizeUnpinnedPath tree (some node)) :=
          .single (.touch (redate_touches tree _ ⊥))
        exact synced.edits touched
    exact prioritized.shrinks (laws.evict_shrinks _ _)
  next => exact synced

/-! ## The telemetry of pins -/

namespace TreeRadixCache

variable {cache : TreeRadixCache τ} {update : TreeTelemetry → TreeTelemetry}

omit [DecidableEq τ] in
theorem treeTelemetry_updateTelemetry (cache : TreeRadixCache τ) (ns other : String)
    (update : TreeTelemetry → TreeTelemetry) : (cache.updateTelemetry ns update).treeTelemetry other =
      if other = ns then update (cache.treeTelemetry ns) else cache.treeTelemetry other := by
  simp only [treeTelemetry, updateTelemetry, Dict.get?_insert]
  split <;> rfl

omit [DecidableEq τ] in
/-- An update shows in the fields it changes only. -/
theorem field_updateTelemetry {φ : Type} (field : TreeTelemetry → φ)
    (kept : ∀ tel, field (update tel) = field tel) (other : String) :
    field ((cache.updateTelemetry ns update).treeTelemetry other) = field (cache.treeTelemetry other) := by
  rw [treeTelemetry_updateTelemetry]
  split
  next same => rw [kept, same]
  next => rfl

/-- The pinned tokens of a namespace, read off its telemetry. -/
def pinnedTokens (cache : TreeRadixCache τ) (ns : String) : Int := (cache.treeTelemetry ns).pinnedTokens

def chargedTokens (cache : TreeRadixCache τ) (ns : String) : Int := (cache.treeTelemetry ns).chargedTokens

omit [DecidableEq τ] in
theorem chargedTokens_updateTelemetry (kept : ∀ tel, (update tel).chargedTokens = tel.chargedTokens)
    (other : String) : (cache.updateTelemetry ns update).chargedTokens other = cache.chargedTokens other :=
  field_updateTelemetry TreeTelemetry.chargedTokens kept other

theorem chargedTokens_refreshPinnedTokens (other : String) :
    (cache.refreshPinnedTokens ns).chargedTokens other = cache.chargedTokens other := by
  rw [refreshPinnedTokens, chargedTokens_updateTelemetry]
  exact fun _ => rfl

/-- The nodes on the locked ways of a namespace have as many tokens as its
holders have prefixes. -/
theorem sum_pinnedNodes (synced : Synced others cache.tree cache.branches) (ns : String) :
    ∑ id ∈ cache.pinnedNodes ns, (cache.tree.key id).length = (carried (held cache.branches) ns).card := by
  let holders := cache.branches.values.filter fun branch => branch.ns = ns && !branch.speculative
  let refs := holders.map fun branch => (branch.lockedNode.getD .root, branch.tokenIds)
  have holder : ∀ branch, branch ∈ holders ↔
      (∃ branchId, cache.branches.get? branchId = some branch) ∧ branch.ns = ns ∧ branch.speculative = false := by
    intro branch
    simp only [holders, List.mem_filter, Dict.mem_values, Bool.and_eq_true, decide_eq_true_eq,
      Bool.not_eq_true']
  have spelled : ∀ entry ∈ refs, cache.tree.Spells entry.1 ns entry.2 := by
    intro entry member
    obtain ⟨branch, isHolder, rfl⟩ := List.mem_map.1 member
    obtain ⟨⟨branchId, found⟩, rfl, pinned⟩ := (holder branch).1 isHolder
    have anchored := synced.anchored branchId branch found pinned
    rw [Anchored] at anchored
    cases locked : branch.lockedNode with
    | none => rwa [locked] at anchored
    | some node => rwa [locked] at anchored
  have nodes : cache.pinnedNodes ns = (refs.flatMap fun entry => cache.tree.upward entry.1).toFinset := by
    refine congrArg List.toFinset ?_
    rw [List.flatMap_map]
    refine List.flatMap_congr fun branch _ => ?_
    cases branch.lockedNode with
    | none => exact (upward_root _).symm
    | some node => rfl
  rw [nodes, sum_pinned spelled]
  refine congrArg Finset.card (Finset.ext fun shared => ?_)
  simp only [Finset.mem_biUnion, List.mem_toFinset, mem_carried, refs, List.map_map, List.mem_map,
    Function.comp_apply, mem_held]
  constructor
  · rintro ⟨_, ⟨branch, isHolder, rfl⟩, belongs⟩
    obtain ⟨⟨branchId, found⟩, rfl, pinned⟩ := (holder branch).1 isHolder
    exact ⟨branch.tokenIds, ⟨branchId, branch, found, pinned, rfl⟩, belongs⟩
  · rintro ⟨tokens, ⟨branchId, branch, found, pinned, same⟩, belongs⟩
    cases same
    exact ⟨_, ⟨branch, (holder branch).2 ⟨⟨branchId, found⟩, rfl, pinned⟩, rfl⟩, belongs⟩

/-- The tree is synced and the telemetry counts what is held. -/
structure Balanced (others : Multiset (String × List τ)) (cache : TreeRadixCache τ) : Prop where
  synced : Synced others cache.tree cache.branches
  pinned : ∀ ns, cache.pinnedTokens ns = (carried (held cache.branches) ns).card

/-- A method that changes one namespace and refreshes it at the end. -/
theorem Balanced.refresh (balanced : Balanced others cache) (synced : Synced others tree branches)
    (elsewhere : ∀ other, other ≠ ns → carried (held branches) other = carried (held cache.branches) other) :
    Balanced others (({ cache with tree := tree, branches := branches }).refreshPinnedTokens ns) := by
  refine ⟨synced, fun other => ?_⟩
  rw [pinnedTokens, refreshPinnedTokens, treeTelemetry_updateTelemetry]
  split
  next same =>
    rw [same]
    exact congrArg Nat.cast (sum_pinnedNodes synced ns)
  next differs =>
    refine (balanced.pinned other).trans ?_
    rw [← elsewhere other differs]
    rfl

theorem Balanced.updateTelemetry (balanced : Balanced others cache) (ns : String)
    (update : TreeTelemetry → TreeTelemetry) (kept : ∀ tel, (update tel).pinnedTokens = tel.pinnedTokens) :
    Balanced others (cache.updateTelemetry ns update) :=
  ⟨balanced.synced, fun other => (field_updateTelemetry TreeTelemetry.pinnedTokens kept other).trans (balanced.pinned other)⟩

/-- A change of the tree that keeps it synced. -/
theorem Balanced.setTree (balanced : Balanced others cache) (synced : Synced others tree cache.branches) :
    Balanced others { cache with tree := tree } := ⟨synced, balanced.pinned⟩

end TreeRadixCache

theorem carried_insert_of_ne (differs : ns ≠ br.ns)
    (same : ∀ old, branches.get? branchId = some old → old.ns = br.ns) :
    carried (held (branches.insert branchId br)) ns = carried (held branches) ns := by
  rw [held_insert, carried_stake_of_ne (Ne.symm differs)]
  cases found : branches.get? branchId with
  | none => rw [held_erase_of_absent found]
  | some old =>
    rw [held_of_get? found, carried_stake_of_ne]
    rw [same old found]
    exact Ne.symm differs

theorem carried_erase_of_ne (found : branches.get? branchId = some br) (differs : ns ≠ br.ns) :
    carried (held (branches.erase branchId)) ns = carried (held branches) ns := by
  rw [held_of_get? found, carried_stake_of_ne (Ne.symm differs)]

end Agentfork.Sglang

import Mathlib.Tactic.Ring
import Agentfork.Library.RadixLeaves
import Agentfork.Library.RadixUpdate

/-! # The stock radix cache

`StockRadixCache`: one namespace, nothing pinned, and the leaf that was used the
longest ago goes first. The clock is a counter, so the order of evictions is told
by the requests. -/

namespace Agentfork.Bench

open RadixForest (leaves)

/-- A leaf as eviction sees it: its place, its tokens and `last_access`. -/
structure StockLeaf where
  path : List Nat
  tokens : List Nat
  lastAccess : Nat
  deriving DecidableEq, Repr

structure StockRadixCache where
  capacity : Nat
  /-- the children of the root, with `last_access` -/
  root : RadixForest Nat Nat
  resident : Int
  prefillCharged : Nat
  clock : Nat
  deriving DecidableEq, Repr

namespace StockRadixCache

/-- A new cache; the constructor refuses a capacity that is not positive. -/
def fresh (capacity : Nat) : StockRadixCache := ⟨capacity, .nil, 0, 0, 1⟩

/-- The longest cached prefix; the order of evictions stays as it is. -/
def matchPrefix (cache : StockRadixCache) (tokens : List Nat) : Nat := (cache.root.walk id tokens).2

/-- A node without children. -/
def leafOf : List Nat × List Nat × Nat × Bool → Option StockLeaf
  | (path, tokens, lastAccess, true) => some ⟨path, tokens, lastAccess⟩
  | (_, _, _, false) => none

def allLeaves (cache : StockRadixCache) : List StockLeaf := (cache.root.nodes []).filterMap leafOf

/-- One round of `_evict`: the first one of the oldest leaves goes. -/
def evictLeaf (cache : StockRadixCache) : Option StockRadixCache :=
  (cache.allLeaves.argmin StockLeaf.lastAccess).map fun victim =>
    { cache with root := cache.root.removeAt victim.path, resident := cache.resident - victim.tokens.length }

/-- Every round deletes a node, so there are no more rounds than nodes. -/
def evictRounds (need : Nat) : Nat → StockRadixCache → StockRadixCache
  | 0, cache => cache
  | rounds + 1, cache =>
    if cache.resident + need ≤ cache.capacity then cache
    else
      match cache.evictLeaf with
      | none => cache
      | some after => evictRounds need rounds after

def evict (cache : StockRadixCache) (need : Nat) : StockRadixCache :=
  evictRounds need (cache.root.nodes []).length cache

/-- The end of `_insert_and_touch`: room is made before the new leaf is hung up. -/
def insertSuffix (cache : StockRadixCache) (now matched : Nat) (tokens : List Nat) : StockRadixCache :=
  if matched < tokens.length then
    let cache := cache.evict (tokens.length - matched)
    { cache with
      root := cache.root.attach (tokens.drop matched) now (tokens.take matched)
      resident := cache.resident + (tokens.drop matched).length }
  else cache

def insertAndTouch (cache : StockRadixCache) (tokens : List Nat) : Nat × StockRadixCache :=
  let now := cache.clock
  -- a walk that stops inside an edge splits it and touches the upper half
  let walked := cache.root.walk (fun _ => now) tokens
  (walked.2, insertSuffix { cache with root := walked.1, clock := now + 1 } now walked.2 tokens)

def runRequest (cache : StockRadixCache) (tokens : List Nat) : (Nat × Nat) × StockRadixCache :=
  let (matched, cache) := cache.insertAndTouch tokens
  let charged := tokens.length - matched
  ((matched, charged), { cache with prefillCharged := cache.prefillCharged + charged })

/-! ## A prefix with its suffixes beside unrelated leaves -/

/-- The tokens of some leaves. -/
def total (entries : List (List Nat × Nat)) : Nat := (entries.map fun entry => entry.1.length).sum

/-- The first tokens of the edges have been handed out. -/
def Issued (next : Nat) (entries : List (List Nat × Nat)) : Prop :=
  ∀ entry ∈ entries, ∀ token, entry.1.head? = some token → token < next

/-- The cache has the prefix as a node of the root, suffixes as the leaves below it
and other leaves beside it. -/
structure Shape (tokens : List Nat) (used next : Nat) (suffixes noises : List (List Nat × Nat))
    (cache : StockRadixCache) : Prop where
  root : cache.root = .node tokens used (leaves suffixes) (leaves noises)
  resident : cache.resident = (tokens.length + total suffixes + total noises : Nat)
  below : RadixForest.Apart suffixes
  beside : RadixForest.Apart ((tokens, used) :: noises)
  dated : ∀ entry ∈ (tokens, used) :: noises, entry.2 < cache.clock
  issued : Issued next (((tokens, used) :: noises) ++ suffixes)

/-- The prefix was used after all leaves beside it. -/
structure Holds (tokens : List Nat) (used next : Nat) (suffixes noises : List (List Nat × Nat))
    (cache : StockRadixCache) : Prop extends Shape tokens used next suffixes noises cache where
  older : ∀ noise ∈ noises, noise.2 < used

/-- An eviction changes the tree and its size only. -/
def Evicts (before after : StockRadixCache) : Prop :=
  after.capacity = before.capacity ∧ after.clock = before.clock ∧ after.prefillCharged = before.prefillCharged

variable {cache after : StockRadixCache} {tokens : List Nat} {used next need : Nat}
  {suffixes noises : List (List Nat × Nat)}

/-- What outlasts the deletion of any leaf outlasts the rounds. -/
theorem evictRounds_keeps {motive : StockRadixCache → Prop} (taken : ∀ (cache : StockRadixCache) (victim : StockLeaf),
      motive cache → motive { cache with
        root := cache.root.removeAt victim.path
        resident := cache.resident - victim.tokens.length })
    (rounds : Nat) (holds : motive cache) : motive (evictRounds need rounds cache) := by
  induction rounds generalizing cache with
  | zero => exact holds
  | succ rounds inductionHypothesis =>
    rw [evictRounds]
    split
    · exact holds
    · cases evicted : cache.evictLeaf with
      | none => exact holds
      | some after =>
        rw [evictLeaf, Option.map_eq_some_iff] at evicted
        obtain ⟨victim, _, rfl⟩ := evicted
        exact inductionHypothesis (taken cache victim holds)

theorem total_perm {first second : List (List Nat × Nat)} (permuted : first.Perm second) : total first = total second :=
  (permuted.map _).sum_nat

theorem total_cons (entry : List Nat × Nat) (rest : List (List Nat × Nat)) :
    total (entry :: rest) = entry.1.length + total rest := by
  rw [total, List.map_cons, List.sum_cons, total]

def leafAt (above : List Nat) (entry : List Nat × Nat) : StockLeaf := ⟨above ++ entry.1, entry.1, entry.2⟩

theorem filterMap_leaves (above : List Nat) (entries : List (List Nat × Nat)) :
    ((leaves entries).nodes above).filterMap leafOf = (entries.map (leafAt above)).reverse := by
  rw [RadixForest.nodes_leaves, List.filterMap_reverse, List.filterMap_map]
  exact congrArg List.reverse (congrFun List.filterMap_eq_map entries)

theorem Holds.mem_allLeaves (holds : Holds tokens used next suffixes noises cache) {leaf : StockLeaf} :
    leaf ∈ cache.allLeaves ↔ leaf ∈ noises.map (leafAt []) ∨ leaf ∈ suffixes.map (leafAt tokens) ∨
      (suffixes = [] ∧ leaf = ⟨tokens, tokens, used⟩) := by
  unfold allLeaves
  rw [holds.root]
  cases suffixes with
  | nil =>
    rw [leaves, RadixForest.nodes, List.filterMap_append, filterMap_leaves, List.mem_append, List.mem_reverse]
    refine or_congr Iff.rfl ?_
    rw [List.map_nil, List.nil_append]
    simp [leafOf]
  | cons suffix rest =>
    have below := filterMap_leaves tokens (suffix :: rest)
    have children : leaves (suffix :: rest) = .node suffix.1 suffix.2 .nil (leaves rest) := rfl
    rw [children] at below ⊢
    rw [RadixForest.nodes, List.filterMap_append, filterMap_leaves, List.filterMap_cons_none rfl, List.nil_append, below,
      List.mem_append, List.mem_reverse, List.mem_reverse]
    · simp
    · intro empty
      cases empty

/-- An unrelated leaf is taken off. -/
theorem Holds.withoutNoise (holds : Holds tokens used next suffixes noises cache) {noise : List Nat × Nat}
    (member : noise ∈ noises) : ∃ fewer, noises.Perm (noise :: fewer) ∧
      Holds tokens used next suffixes fewer { cache with
        root := cache.root.removeAt noise.1
        resident := cache.resident - noise.1.length } := by
  have otherHead : tokens.head? ≠ noise.1.head? := (List.pairwise_cons.1 holds.beside.2).1 noise member
  have notHere : tokens ≠ noise.1 := fun same => otherHead (congrArg List.head? same)
  obtain ⟨fewer, sublist, permuted, removed⟩ := RadixForest.removeAt_leaves
    (holds.beside.sublist (List.sublist_cons_self _ _)) member
  refine ⟨fewer, permuted, ⟨?_, ?_, holds.below, holds.beside.sublist (sublist.cons_cons _), fun entry isEntry =>
    holds.dated entry ((sublist.cons_cons _).subset isEntry), fun entry isEntry => holds.issued entry ?_⟩,
    fun other isOther => holds.older other (sublist.subset isOther)⟩
  · rw [holds.root]
    change RadixForest.removeAt _ _ = _
    rw [RadixForest.removeAt, if_neg notHere, if_neg otherHead, removed]
  · change cache.resident - _ = _
    rw [holds.resident, total_perm permuted, total_cons]
    push_cast
    ring
  · exact ((sublist.cons_cons _).append_right suffixes).subset isEntry

/-- A suffix is taken off. -/
theorem Holds.withoutSuffix (holds : Holds tokens used next suffixes noises cache) {suffix : List Nat × Nat}
    (member : suffix ∈ suffixes) : ∃ fewer, suffixes.Perm (suffix :: fewer) ∧
      Holds tokens used next fewer noises { cache with
        root := cache.root.removeAt (tokens ++ suffix.1)
        resident := cache.resident - suffix.1.length } := by
  have nonempty : tokens ≠ [] := holds.beside.1 (tokens, used) List.mem_cons_self
  have notHere : tokens ≠ tokens ++ suffix.1 := by
    intro same
    rw [List.self_eq_append_right] at same
    exact holds.below.1 suffix member same
  obtain ⟨fewer, sublist, permuted, removed⟩ := RadixForest.removeAt_leaves holds.below member
  refine ⟨fewer, permuted, ⟨?_, ?_, holds.below.sublist sublist, holds.beside, holds.dated,
    fun entry isEntry => holds.issued entry ?_⟩, holds.older⟩
  · rw [holds.root]
    change RadixForest.removeAt _ _ = _
    rw [RadixForest.removeAt, if_neg notHere, if_pos (RadixForest.head?_append_ne nonempty).symm,
      if_pos (List.prefix_append _ _), List.drop_left, removed]
  · change cache.resident - _ = _
    rw [holds.resident, total_perm permuted, total_cons]
    push_cast
    ring
  · exact (sublist.append_left ((tokens, used) :: noises)).subset isEntry

/-- While the prefix is not all that there is, another leaf goes first. -/
theorem Holds.evictLeaf_spec (holds : Holds tokens used next suffixes noises cache) (more : suffixes ≠ [] ∨ noises ≠ []) :
    ∃ after fewerSuffixes fewerNoises, cache.evictLeaf = some after ∧
      Holds tokens used next fewerSuffixes fewerNoises after ∧
      fewerSuffixes.length + fewerNoises.length < suffixes.length + noises.length ∧
      Evicts cache after := by
  unfold evictLeaf
  cases oldest : cache.allLeaves.argmin StockLeaf.lastAccess with
  | none =>
    rw [List.argmin_eq_none] at oldest
    have noLeaf : ∀ leaf, leaf ∉ cache.allLeaves := fun leaf => oldest ▸ List.not_mem_nil
    cases suffixes with
    | nil => exact absurd (holds.mem_allLeaves.2 (.inr (.inr ⟨rfl, rfl⟩))) (noLeaf _)
    | cons suffix rest =>
      exact absurd (holds.mem_allLeaves.2 (.inr (.inl (List.mem_map_of_mem List.mem_cons_self)))) (noLeaf _)
  | some victim =>
    obtain beside | below | ⟨noSuffix, isPrefix⟩ := holds.mem_allLeaves.1 (List.argmin_mem oldest)
    · obtain ⟨noise, member, rfl⟩ := List.mem_map.1 beside
      obtain ⟨fewer, permuted, stillHolds⟩ := holds.withoutNoise member
      refine ⟨_, suffixes, fewer, rfl, stillHolds, ?_, rfl, rfl, rfl⟩
      rw [permuted.length_eq, List.length_cons]
      omega
    · obtain ⟨suffix, member, rfl⟩ := List.mem_map.1 below
      obtain ⟨fewer, permuted, stillHolds⟩ := holds.withoutSuffix member
      refine ⟨_, fewer, noises, rfl, stillHolds, ?_, rfl, rfl, rfl⟩
      rw [permuted.length_eq, List.length_cons]
      omega
    · -- the prefix was used after all other leaves
      obtain ⟨noise, member⟩ := List.exists_mem_of_ne_nil noises (more.resolve_left (not_not.2 noSuffix))
      have isLeaf : leafAt [] noise ∈ cache.allLeaves := holds.mem_allLeaves.2 (.inl (List.mem_map_of_mem member))
      have notNewer := List.le_of_mem_argmin isLeaf oldest
      rw [isPrefix] at notNewer
      exact absurd notNewer (Nat.not_le_of_lt (holds.older noise member))

/-- With room for what is needed beside the prefix, the rounds end with the prefix in the cache. -/
theorem Holds.evictRounds_spec (holds : Holds tokens used next suffixes noises cache)
    (fits : tokens.length + need ≤ cache.capacity) {rounds : Nat} (enough : suffixes.length + noises.length ≤ rounds) :
    ∃ fewerSuffixes fewerNoises, Holds tokens used next fewerSuffixes fewerNoises (evictRounds need rounds cache) ∧
      Evicts cache (evictRounds need rounds cache) := by
  induction rounds generalizing cache suffixes noises with
  | zero => exact ⟨suffixes, noises, holds, rfl, rfl, rfl⟩
  | succ rounds inductionHypothesis =>
    unfold evictRounds
    split
    · exact ⟨suffixes, noises, holds, rfl, rfl, rfl⟩
    · next full =>
      have more : suffixes ≠ [] ∨ noises ≠ [] := by
        by_contra nothing
        rw [not_or, not_not, not_not] at nothing
        obtain ⟨rfl, rfl⟩ := nothing
        have resident := holds.resident
        change _ = ((tokens.length + 0 + 0 : Nat) : Int) at resident
        omega
      obtain ⟨after, fewerSuffixes, fewerNoises, evicted, stillHolds, fewer, same⟩ := holds.evictLeaf_spec more
      rw [evicted]
      obtain ⟨finalSuffixes, finalNoises, finallyHolds, sameAfter⟩ :=
        inductionHypothesis stillHolds (same.1 ▸ fits) (by omega)
      exact ⟨finalSuffixes, finalNoises, finallyHolds, sameAfter.1.trans same.1, sameAfter.2.1.trans same.2.1,
        sameAfter.2.2.trans same.2.2⟩

theorem Holds.evict_spec (holds : Holds tokens used next suffixes noises cache)
    (fits : tokens.length + need ≤ cache.capacity) : ∃ fewerSuffixes fewerNoises,
      Holds tokens used next fewerSuffixes fewerNoises (cache.evict need) ∧ Evicts cache (cache.evict need) := by
  refine holds.evictRounds_spec fits ?_
  rw [holds.root]
  cases suffixes with
  | nil =>
    rw [leaves, RadixForest.nodes, RadixForest.nodes_leaves]
    simp
  | cons suffix rest =>
    have below : ((leaves (suffix :: rest)).nodes tokens).length = rest.length + 1 := by
      rw [RadixForest.nodes_leaves, List.length_reverse, List.length_map, List.length_cons]
    have children : leaves (suffix :: rest) = .node suffix.1 suffix.2 .nil (leaves rest) := rfl
    rw [children] at below ⊢
    rw [RadixForest.nodes, RadixForest.nodes_leaves, List.nil_append]
    · simp only [List.length_append, List.length_reverse, List.length_map, List.length_cons, below]
      omega
    · intro empty
      cases empty

/-! ## Requests beside the prefix and below it -/

theorem Issued.weaken {entries : List (List Nat × Nat)} (issued : Issued next entries) (count : Nat) :
    Issued (next + count) entries := fun entry member token isHead =>
  Nat.lt_add_right count (issued entry member token isHead)

theorem Issued.head_ne {entries : List (List Nat × Nat)} (issued : Issued next entries) {block : List Nat}
    (isNew : block = [] ∨ block.head? = some next) (apart : RadixForest.Apart entries) :
    ∀ entry ∈ entries, entry.1.head? ≠ block.head? := by
  intro entry member same
  obtain rfl | isNew := isNew
  · exact apart.1 entry member (List.head?_eq_none_iff.1 same)
  · exact Nat.lt_irrefl next (issued entry member next (same.trans isNew))

theorem total_append (entries : List (List Nat × Nat)) (entry : List Nat × Nat) :
    total (entries ++ [entry]) = total entries + entry.1.length := by
  rw [total_perm List.perm_append_comm, List.singleton_append, total_cons, Nat.add_comm]

/-- A leaf hung up beside the prefix. -/
theorem Shape.addNoise (shape : Shape tokens used next suffixes noises cache) {block : List Nat}
    (isNew : block.head? = some next) {now : Nat} (dated : now < cache.clock) :
    Shape tokens used (next + block.length) suffixes (noises ++ [(block, now)]) { cache with
      root := cache.root.attach block now []
      resident := cache.resident + block.length } := by
  have besideIssued : Issued next ((tokens, used) :: noises) := fun entry member =>
    shape.issued entry (List.mem_append_left _ member)
  have missing := besideIssued.head_ne (.inr isNew) shape.beside
  have nonempty : block ≠ [] := by
    rintro rfl
    cases isNew
  rw [List.forall_mem_cons] at missing
  refine ⟨?_, ?_, shape.below, ?_, ?_, ?_⟩
  · rw [shape.root]
    change RadixForest.attach _ _ _ _ = _
    rw [RadixForest.attach, RadixForest.setLeaf, if_neg missing.1, RadixForest.setLeaf_leaves missing.2]
  · change cache.resident + _ = _
    rw [shape.resident, total_append]
    push_cast
    ring
  · exact shape.beside.append now nonempty (List.forall_mem_cons.2 missing)
  · intro entry member
    rw [← List.cons_append, List.mem_append, List.mem_singleton] at member
    obtain before | rfl := member
    · exact shape.dated entry before
    · exact dated
  · intro entry member token isHead
    rw [← List.cons_append, List.mem_append, List.mem_append, List.mem_singleton] at member
    obtain (before | rfl) | inSuffixes := member
    · exact shape.issued.weaken _ entry (List.mem_append_left _ before) token isHead
    · rw [isNew] at isHead
      cases isHead
      exact Nat.lt_add_of_pos_right (List.length_pos_of_ne_nil nonempty)
    · exact shape.issued.weaken _ entry (List.mem_append_right _ inSuffixes) token isHead

/-- A leaf hung up below the prefix. -/
theorem Holds.addSuffix (holds : Holds tokens used next suffixes noises cache) {block : List Nat}
    (isNew : block.head? = some next) (now : Nat) :
    Holds tokens used (next + block.length) (suffixes ++ [(block, now)]) noises { cache with
      root := cache.root.attach block now tokens
      resident := cache.resident + block.length } := by
  have belowIssued : Issued next suffixes := fun entry member => holds.issued entry (List.mem_append_right _ member)
  have missing := belowIssued.head_ne (.inr isNew) holds.below
  have nonempty : block ≠ [] := by
    rintro rfl
    cases isNew
  refine ⟨⟨?_, ?_, holds.below.append now nonempty missing, holds.beside, holds.dated, ?_⟩, holds.older⟩
  · rw [holds.root]
    have nonemptyTokens : tokens ≠ [] := holds.beside.1 (tokens, used) List.mem_cons_self
    change RadixForest.attach _ _ _ _ = _
    rw [RadixForest.attach_node nonemptyTokens, if_pos rfl, if_pos (List.prefix_refl tokens), List.drop_length,
      RadixForest.attach, RadixForest.setLeaf_leaves missing]
  · change cache.resident + _ = _
    rw [holds.resident, total_append]
    push_cast
    ring
  · intro entry member token isHead
    rw [← List.append_assoc, List.mem_append, List.mem_singleton] at member
    obtain before | rfl := member
    · exact holds.issued.weaken _ entry before token isHead
    · rw [isNew] at isHead
      cases isHead
      exact Nat.lt_add_of_pos_right (List.length_pos_of_ne_nil nonempty)

theorem Holds.later (holds : Holds tokens used next suffixes noises cache) :
    Holds tokens used next suffixes noises { cache with clock := cache.clock + 1 } :=
  ⟨⟨holds.root, holds.resident, holds.below, holds.beside, fun entry member =>
    Nat.lt_succ_of_lt (holds.dated entry member), holds.issued⟩, holds.older⟩

theorem Shape.charge (shape : Shape tokens used next suffixes noises cache) (charged : Nat) :
    Shape tokens used next suffixes noises { cache with prefillCharged := cache.prefillCharged + charged } :=
  ⟨shape.root, shape.resident, shape.below, shape.beside, shape.dated, shape.issued⟩

/-- An unrelated request that has room beside the prefix. -/
theorem Holds.unrelated (holds : Holds tokens used next suffixes noises cache) {block : List Nat}
    (isNew : block.head? = some next) (fits : tokens.length + block.length ≤ cache.capacity) :
    ∃ fewerSuffixes fewerNoises,
      Shape tokens used (next + block.length) fewerSuffixes fewerNoises (cache.runRequest block).2 ∧
        (cache.runRequest block).2.capacity = cache.capacity := by
  have besideIssued : Issued next ((tokens, used) :: noises) := fun entry member =>
    holds.issued entry (List.mem_append_left _ member)
  have missing := besideIssued.head_ne (.inr isNew) holds.beside
  have walked : cache.root.walk (fun _ => cache.clock) block = (cache.root, 0) := by
    refine RadixForest.walk_of_missing _ ?_
    rw [holds.root]
    rw [List.forall_mem_cons] at missing
    exact ⟨missing.1, RadixForest.missing_leaves.2 missing.2⟩
  have nonempty : 0 < block.length := by
    cases block with
    | nil => cases isNew
    | cons token rest => exact Nat.succ_pos _
  obtain ⟨fewerSuffixes, fewerNoises, evicted, same⟩ := holds.later.evict_spec fits
  have dated : cache.clock < (evict { cache with clock := cache.clock + 1 } block.length).clock :=
    lt_of_lt_of_eq (Nat.lt_succ_self cache.clock) same.2.1.symm
  have added := (evicted.toShape.addNoise isNew dated).charge block.length
  refine ⟨fewerSuffixes, fewerNoises ++ [(block, cache.clock)], ?_, ?_⟩
  · unfold runRequest insertAndTouch insertSuffix
    simp only [walked, if_pos nonempty, Nat.sub_zero, List.drop_zero, List.take_zero]
    exact added
  · unfold runRequest insertAndTouch insertSuffix
    simp only [walked, if_pos nonempty, Nat.sub_zero, List.drop_zero, List.take_zero]
    exact same.1

/-- What is new below the prefix is hung up there. -/
theorem Holds.insertSuffix_spec (holds : Holds tokens used next suffixes noises cache) {block : List Nat}
    (isNew : block = [] ∨ block.head? = some next) (now : Nat) (fits : tokens.length + block.length ≤ cache.capacity) :
    ∃ moreSuffixes fewerNoises, Holds tokens used (next + block.length) moreSuffixes fewerNoises
        (cache.insertSuffix now tokens.length (tokens ++ block)) ∧
      Evicts cache (cache.insertSuffix now tokens.length (tokens ++ block)) := by
  unfold insertSuffix
  obtain rfl | isNew := isNew
  · rw [List.append_nil, if_neg (Nat.lt_irrefl _)]
    exact ⟨suffixes, noises, holds, rfl, rfl, rfl⟩
  · have nonempty : 0 < block.length := by
      cases block with
      | nil => cases isNew
      | cons token rest => exact Nat.succ_pos _
    obtain ⟨fewerSuffixes, fewerNoises, evicted, same⟩ := holds.evict_spec fits
    have added := evicted.addSuffix isNew now
    have rest : (tokens ++ block).length - tokens.length = block.length := by
      rw [List.length_append, Nat.add_sub_cancel_left]
    rw [if_pos (by rw [List.length_append]; omega)]
    simp only [rest, List.drop_left, List.take_left]
    exact ⟨_, _, added, same⟩

/-- The rest of a request whose walk has come to the end of the prefix. -/
theorem Holds.served {forest : RadixForest Nat Nat} {block : List Nat}
    (touched : Holds tokens cache.clock next suffixes noises { cache with root := forest, clock := cache.clock + 1 })
    (walked : cache.root.walk (fun _ => cache.clock) (tokens ++ block) = (forest, tokens.length))
    (isNew : block = [] ∨ block.head? = some next) (fits : tokens.length + block.length ≤ cache.capacity) :
    (cache.runRequest (tokens ++ block)).2.prefillCharged = cache.prefillCharged + block.length ∧
    ∃ moreSuffixes fewerNoises, Holds tokens cache.clock (next + block.length) moreSuffixes fewerNoises
      (cache.runRequest (tokens ++ block)).2 ∧
        (cache.runRequest (tokens ++ block)).2.capacity = cache.capacity := by
  obtain ⟨moreSuffixes, fewerNoises, inserted, same⟩ := touched.insertSuffix_spec isNew cache.clock fits
  have rest : (tokens ++ block).length - tokens.length = block.length := by
    rw [List.length_append, Nat.add_sub_cancel_left]
  unfold runRequest insertAndTouch
  simp only [walked, rest]
  exact ⟨congrArg (· + block.length) same.2.2, moreSuffixes, fewerNoises, ⟨inserted.toShape.charge _, inserted.older⟩,
    same.1⟩

/-- A request for the prefix and something new is charged for what is new. -/
theorem Shape.related (shape : Shape tokens used next suffixes noises cache) {block : List Nat}
    (isNew : block = [] ∨ block.head? = some next) (fits : tokens.length + block.length ≤ cache.capacity) :
    (cache.runRequest (tokens ++ block)).2.prefillCharged = cache.prefillCharged + block.length ∧
    ∃ moreSuffixes fewerNoises, Holds tokens cache.clock (next + block.length) moreSuffixes fewerNoises
      (cache.runRequest (tokens ++ block)).2 ∧
        (cache.runRequest (tokens ++ block)).2.capacity = cache.capacity := by
  have belowIssued : Issued next suffixes := fun entry member => shape.issued entry (List.mem_append_right _ member)
  have missing := belowIssued.head_ne isNew shape.below
  have nonempty : tokens ≠ [] := shape.beside.1 (tokens, used) List.mem_cons_self
  have walked : cache.root.walk (fun _ => cache.clock) (tokens ++ block) =
      (.node tokens cache.clock (leaves suffixes) (leaves noises), tokens.length) := by
    rw [shape.root, RadixForest.walk_node _ nonempty, RadixForest.walk_of_missing _ (RadixForest.missing_leaves.2 missing)]
    rfl
  have touched : Holds tokens cache.clock next suffixes noises { cache with
      root := .node tokens cache.clock (leaves suffixes) (leaves noises)
      clock := cache.clock + 1 } := by
    have dated := shape.dated
    have beside := shape.beside
    have issued := shape.issued
    unfold RadixForest.Apart at beside
    unfold Issued at issued
    rw [List.forall_mem_cons] at dated
    rw [List.forall_mem_cons, List.pairwise_cons] at beside
    rw [List.cons_append, List.forall_mem_cons] at issued
    refine ⟨⟨rfl, shape.resident, shape.below, ?_, ?_, ?_⟩, dated.2⟩
    · exact ⟨List.forall_mem_cons.2 beside.1, List.pairwise_cons.2 beside.2⟩
    · exact List.forall_mem_cons.2 ⟨Nat.lt_succ_self _, fun noise member => Nat.lt_succ_of_lt (dated.2 noise member)⟩
    · rw [List.cons_append]
      exact List.forall_mem_cons.2 issued
  exact touched.served walked isNew fits

/-! ## A cache with a single leaf -/

structure Alone (edge : List Nat) (used : Nat) (cache : StockRadixCache) : Prop where
  root : cache.root = .node edge used .nil .nil
  resident : cache.resident = edge.length
  nonempty : edge ≠ []

theorem Alone.holds (alone : Alone tokens used cache) (dated : used < cache.clock)
    (issued : ∀ token, tokens.head? = some token → token < next) : Holds tokens used next [] [] cache := by
  refine ⟨⟨alone.root, ?_, ⟨nofun, List.Pairwise.nil⟩, ⟨?_, List.pairwise_singleton _ _⟩, ?_, ?_⟩, nofun⟩
  · rw [alone.resident]
    rfl
  · exact List.forall_mem_singleton.2 alone.nonempty
  · exact List.forall_mem_singleton.2 dated
  · exact List.forall_mem_singleton.2 issued

/-- Room for what does not fit beside the leaf is made by taking the leaf off. -/
theorem Alone.evict_eq (alone : Alone tokens used cache) (full : cache.capacity < tokens.length + need) :
    cache.evict need = { cache with root := .nil, resident := 0 } := by
  have leaf : cache.allLeaves = [⟨tokens, tokens, used⟩] := by
    unfold allLeaves
    rw [alone.root]
    rfl
  have oldest : cache.evictLeaf = some { cache with root := .nil, resident := 0 } := by
    unfold evictLeaf
    rw [leaf, List.argmin_singleton, Option.map_some, alone.root, alone.resident]
    simp [RadixForest.removeAt]
  have noRoom : ¬ cache.resident + need ≤ cache.capacity := by
    rw [alone.resident]
    omega
  unfold evict
  rw [alone.root]
  change evictRounds need 1 cache = _
  rw [evictRounds, if_neg noRoom, oldest]
  rfl

/-- A request that does not fit beside the leaf takes its place. -/
theorem Alone.replaced (alone : Alone tokens used cache) {block : List Nat} (nonempty : block ≠ [])
    (otherHead : tokens.head? ≠ block.head?) (full : cache.capacity < tokens.length + block.length) :
    Alone block cache.clock (cache.runRequest block).2 ∧
      (cache.runRequest block).2.prefillCharged = cache.prefillCharged + block.length ∧
      (cache.runRequest block).2.capacity = cache.capacity ∧
      (cache.runRequest block).2.clock = cache.clock + 1 := by
  have walked : cache.root.walk (fun _ => cache.clock) block = (cache.root, 0) := by
    refine RadixForest.walk_of_missing _ ?_
    rw [alone.root]
    exact ⟨otherHead, trivial⟩
  have later : Alone tokens used { cache with clock := cache.clock + 1 } := ⟨alone.root, alone.resident, alone.nonempty⟩
  unfold runRequest insertAndTouch insertSuffix
  simp only [walked, if_pos (List.length_pos_of_ne_nil nonempty), Nat.sub_zero, List.drop_zero, List.take_zero,
    later.evict_eq full]
  exact ⟨⟨rfl, Int.zero_add _, nonempty⟩, trivial, trivial, trivial⟩

/-- The first request. -/
theorem alone_fresh (capacity : Nat) (nonempty : tokens ≠ []) :
    Alone tokens 1 ((fresh capacity).runRequest tokens).2 ∧
      ((fresh capacity).runRequest tokens).2.prefillCharged = tokens.length ∧
      ((fresh capacity).runRequest tokens).2.capacity = capacity ∧
      ((fresh capacity).runRequest tokens).2.clock = 2 := by
  unfold runRequest insertAndTouch insertSuffix
  simp only [fresh, RadixForest.walk, if_pos (List.length_pos_of_ne_nil nonempty), Nat.sub_zero, List.drop_zero,
    List.take_zero]
  exact ⟨⟨rfl, Int.zero_add _, nonempty⟩, Nat.zero_add _, rfl, rfl⟩

theorem commonLength_append {first second : List Nat} (otherHead : first.head? ≠ second.head?) (tokens : List Nat) :
    RadixForest.commonLength (tokens ++ first) (tokens ++ second) = tokens.length := by
  induction tokens with
  | nil =>
    cases first with
    | nil => rfl
    | cons token rest =>
      cases second with
      | nil => rfl
      | cons other others => exact if_neg fun same => otherHead (congrArg some same)
  | cons token rest inductionHypothesis =>
    rw [List.cons_append, List.cons_append, RadixForest.commonLength, if_pos rfl, inductionHypothesis, List.length_cons]

/-- A request that shares the prefix with the leaf splits the leaf. -/
theorem Alone.joined {suffix block : List Nat} (alone : Alone (tokens ++ suffix) used cache) (nonempty : tokens ≠ []) (more : suffix ≠ []) (isNew : block.head? = some next)
    (issued : ∀ token ∈ tokens ++ suffix, token < next) (fits : tokens.length + block.length ≤ cache.capacity) :
    (cache.runRequest (tokens ++ block)).2.prefillCharged = cache.prefillCharged + block.length ∧
    ∃ moreSuffixes fewerNoises, Holds tokens cache.clock (next + block.length) moreSuffixes fewerNoises
      (cache.runRequest (tokens ++ block)).2 ∧
        (cache.runRequest (tokens ++ block)).2.capacity = cache.capacity := by
  have otherHead : suffix.head? ≠ block.head? := by
    intro same
    cases suffix with
    | nil => exact more rfl
    | cons token rest =>
      rw [isNew] at same
      cases same
      exact Nat.lt_irrefl next (issued next (List.mem_append_right _ List.mem_cons_self))
  have notPrefix : ¬ tokens ++ suffix <+: tokens ++ block := by
    rw [List.prefix_append_right_inj]
    exact fun isPrefix => otherHead (RadixForest.head?_eq_of_isPrefix more isPrefix)
  have walked : cache.root.walk (fun _ => cache.clock) (tokens ++ block) =
      (.node tokens cache.clock (leaves [(suffix, used)]) (leaves []), tokens.length) := by
    have sameHead : (tokens ++ suffix).head? = (tokens ++ block).head? := by
      rw [RadixForest.head?_append_ne nonempty, RadixForest.head?_append_ne nonempty]
    rw [alone.root, RadixForest.walk, if_pos sameHead, if_neg notPrefix, commonLength_append otherHead]
    simp only [List.take_left, List.drop_left]
    rfl
  have touched : Holds tokens cache.clock next [(suffix, used)] [] { cache with
      root := .node tokens cache.clock (leaves [(suffix, used)]) (leaves [])
      clock := cache.clock + 1 } := by
    refine ⟨⟨rfl, ?_, ⟨?_, List.pairwise_singleton _ _⟩, ⟨?_, List.pairwise_singleton _ _⟩, ?_, ?_⟩, fun entry member => ?_⟩
    · change cache.resident = _
      rw [alone.resident, List.length_append]
      rfl
    · exact List.forall_mem_singleton.2 more
    · exact List.forall_mem_singleton.2 nonempty
    · exact List.forall_mem_singleton.2 (Nat.lt_succ_self _)
    · refine List.forall_mem_cons.2 ⟨fun token isHead => ?_, List.forall_mem_singleton.2 fun token isHead => ?_⟩
      · exact issued token (List.mem_append_left _ (List.mem_of_mem_head? isHead))
      · exact issued token (List.mem_append_right _ (List.mem_of_mem_head? isHead))
    · exact absurd member List.not_mem_nil
  exact touched.served walked (.inr isNew) fits

/-! ## A cache that knows nothing of what is new -/

/-- No edge of the root starts with a token from `next` on. -/
structure Vacant (next : Nat) (cache : StockRadixCache) : Prop where
  wellFormed : cache.root.WellFormed
  missing : ∀ token, next ≤ token → cache.root.Missing (some token)

theorem Vacant.evictRounds_spec (vacant : Vacant next cache) (rounds : Nat) :
    Vacant next (evictRounds need rounds cache) ∧ Evicts cache (evictRounds need rounds cache) := by
  refine evictRounds_keeps (motive := fun after => Vacant next after ∧ Evicts cache after) ?_ rounds
    ⟨vacant, rfl, rfl, rfl⟩
  rintro before victim ⟨vacantBefore, same⟩
  obtain ⟨wellFormed, missing⟩ := RadixForest.removeAt_wellFormed vacantBefore.wellFormed victim.path
  exact ⟨⟨wellFormed, fun token later => missing _ (vacantBefore.missing token later)⟩, same⟩

/-- What is new is charged as a whole. -/
theorem Vacant.request (vacant : Vacant next cache) {block : List Nat} (isNew : block.head? = some next) :
    Vacant (next + block.length) (cache.runRequest block).2 ∧
      (cache.runRequest block).2.prefillCharged = cache.prefillCharged + block.length ∧
      (cache.runRequest block).2.capacity = cache.capacity := by
  have nonempty : block ≠ [] := by
    rintro rfl
    cases isNew
  have walked : cache.root.walk (fun _ => cache.clock) block = (cache.root, 0) :=
    RadixForest.walk_of_missing _ (isNew ▸ vacant.missing next (Nat.le_refl next))
  have later : Vacant next { cache with clock := cache.clock + 1 } := ⟨vacant.wellFormed, vacant.missing⟩
  obtain ⟨evicted, same⟩ : Vacant next (evict { cache with clock := cache.clock + 1 } block.length) ∧ _ :=
    later.evictRounds_spec _
  obtain ⟨wellFormed, missing⟩ := RadixForest.setLeaf_wellFormed cache.clock nonempty evicted.wellFormed
  have positive := List.length_pos_of_ne_nil nonempty
  unfold runRequest insertAndTouch insertSuffix
  simp only [walked, if_pos positive, Nat.sub_zero, List.drop_zero, List.take_zero, RadixForest.attach]
  refine ⟨⟨wellFormed, fun token isLater => missing _ ?_ (evicted.missing token (by omega))⟩,
    congrArg (· + _) same.2.2, same.1⟩
  rw [isNew]
  intro here
  cases here
  omega

end StockRadixCache

end Agentfork.Bench

import Agentfork.Bench.StockArm
import Agentfork.Kv.SameHoldings

/-! # What the pinned cache charges

The parent stays a branch of the cache, so each child pays for its suffix only,
and an unrelated request leaves the cache as it has found it. -/

namespace Agentfork.Bench

open Kv (TreeKVCache PrefixModel Agrees Live CacheError)

/-! ## Calls that go through -/

/-- What a call leaves: a cache of `model` within the same limits, with `added` more tokens. -/
structure Leaves (before : TreeKVCache Nat) (added : Int) (model : PrefixModel Nat) (after : TreeKVCache Nat) : Prop where
  agrees : Agrees after model
  limits : after.limits = before.limits
  resident : after.stats.residentTokens = before.stats.residentTokens + added

variable {cache : TreeKVCache Nat} {model : PrefixModel Nat} {treeId : String} {branch : Live Nat} {next : Nat}

theorem call_ok {α : Type} {result : Except CacheError α × TreeKVCache Nat} {value : α} (ok : result.1 = .ok value) :
    PinnedRun.call result = .ok (value, result.2) := by
  rw [PinnedRun.call, ok]
  rfl

theorem createTree_leaves (agrees : Agrees cache model) (absent : model.live.get? treeId = none)
    (unused : Agrees.Unused model treeId) : ∃ tid, (cache.createTree treeId).1 = .ok tid ∧
      Leaves cache 0 ⟨model.live.insert treeId ⟨treeId, []⟩⟩ (cache.createTree treeId).2 := by
  have noTree : treeId ∉ cache.trees := Dict.get?_eq_none.1 (agrees.tree_absent.2 absent)
  have after := agrees.createTree fun _ => unused
  have limits := agrees.limits_perform (.createTree treeId)
  simp only [TreeKVCache.perform, TreeKVCache.apply, Prod.map_snd, id] at limits
  unfold TreeKVCache.createTree at after limits ⊢
  rw [if_neg noTree] at after limits ⊢
  exact ⟨_, rfl, after, limits, (Int.add_zero _).symm⟩

theorem forkBranch_leaves {child : String} (agrees : Agrees cache model) (live : model.live.get? treeId = some branch)
    (nonempty : child ≠ "") (absent : model.live.get? child = none) :
    ∃ tid, (cache.forkBranch treeId (some child)).1 = .ok tid ∧
      Leaves cache 0 ⟨model.live.insert child branch⟩ (cache.forkBranch treeId (some child)).2 := by
  obtain ⟨tid, treeFound, nsEqual⟩ := agrees.tree_of_branch live
  obtain ⟨tree, rootFound⟩ := agrees.root_of_branch live
  have tokensFound := agrees.tokens_of_branch live
  have noTree : child ∉ cache.trees := Dict.get?_eq_none.1 (agrees.tree_absent.2 absent)
  have after : Agrees (cache.forkBranch treeId (some child)).2 _ := agrees.forkBranch_agrees
  have limits := agrees.limits_perform (.forkBranch treeId (some child))
  simp only [TreeKVCache.perform, TreeKVCache.apply, Prod.map_snd, id] at limits
  rw [← nsEqual] at rootFound
  simp only [TreeKVCache.forkBranch, treeFound, Kv.childName_given nonempty, if_neg noTree, tokensFound, rootFound,
    PrefixModel.next, Except.map, live] at after limits ⊢
  exact ⟨_, rfl, after, limits, (Int.add_zero _).symm⟩

/-- A branch finds what it holds. -/
theorem length_le_longestMatch (live : model.live.get? treeId = some branch) {tokens : List Nat}
    (isPrefix : tokens <+: branch.tokens) : tokens.length ≤ longestMatch (model.cached branch.ns) tokens := by
  by_cases nothing : tokens = []
  · rw [nothing]
    exact Nat.zero_le _
  · refine Finset.le_sup (f := List.length) (Finset.mem_inter.2 ⟨mem_prefixes.2 ⟨nothing, List.prefix_refl _⟩, ?_⟩)
    exact PrefixModel.mem_cached.2 ⟨nothing, treeId, PrefixModel.mem_owners.2 ⟨branch, live, rfl, isPrefix⟩⟩

theorem matchTreePrefix_leaves (agrees : Agrees cache model) (live : model.live.get? treeId = some branch) (now : Nat)
    (tokens : List Nat) : ∃ matched, (cache.matchTreePrefix now treeId tokens).1 = .ok matched ∧
      (tokens <+: branch.tokens → tokens.length ≤ matched) ∧ Leaves cache 0 model (cache.matchTreePrefix now treeId tokens).2 := by
  have limits := agrees.limits_perform (.matchTreePrefix now treeId tokens)
  refine ⟨_, agrees.matchTreePrefix_result live now tokens, length_le_longestMatch live,
    agrees.matchTreePrefix_agrees now treeId tokens, limits, ?_⟩
  rw [Int.add_zero]
  unfold TreeKVCache.matchTreePrefix
  repeat' split
  all_goals rfl

theorem kill_leaves (agrees : Agrees cache model) (live : model.live.get? treeId = some branch) :
    ∃ freed, (cache.kill treeId).1 = .ok freed ∧ freed = (prefixes branch.tokens \ model.cachedByOthers treeId branch.ns).card ∧
      Leaves cache (-freed) ⟨model.live.erase treeId⟩ (cache.kill treeId).2 := by
  obtain ⟨tid, treeFound, nsEqual⟩ := agrees.tree_of_branch live
  obtain ⟨tree, rootFound⟩ := agrees.root_of_branch live
  have tokensFound := agrees.tokens_of_branch live
  have freed := agrees.kill_result live
  have after := agrees.kill_agrees treeId
  have limits := agrees.limits_perform (.kill treeId)
  simp only [TreeKVCache.perform, TreeKVCache.apply, Prod.map_snd, id] at limits
  rw [freed] at after
  rw [← nsEqual] at rootFound
  refine ⟨_, freed, rfl, after, limits, ?_⟩
  simp only [TreeKVCache.kill, treeFound, rootFound, tokensFound, Except.ok.injEq] at freed ⊢
  rw [freed]
  rfl

/-- An extend that fits is charged for what is not cached. -/
theorem extend_leaves (agrees : Agrees cache model) (live : model.live.get? treeId = some branch) (now : Nat)
    (tokens : List Nat) (unlimited : cache.perTreeBudget = none)
    (room : cache.stats.residentTokens + model.missing branch tokens ≤ cache.capacity) :
    (cache.extend now treeId tokens).1 = .ok (model.missing branch tokens) ∧
      Leaves cache (model.missing branch tokens) (model.appended treeId branch tokens) (cache.extend now treeId tokens).2 ∧
      (cache.extend now treeId tokens).2.stats.prefillTokensCharged =
        cache.stats.prefillTokensCharged + model.missing branch tokens := by
  have outcome := agrees.extend_outcome live now tokens
  have withinBudget : ¬ cache.perTreeBudget.any (· < (model.cached branch.ns).card + model.missing branch tokens) = true := by
    rw [unlimited]
    exact Bool.false_ne_true
  rw [if_neg withinBudget, if_neg fun full => absurd room (not_le_of_gt full.2)] at outcome
  obtain ⟨charged, still⟩ := outcome
  have after := (agrees.extend_spec now treeId tokens).1
  have limits := agrees.limits_perform (.extend now treeId tokens)
  rw [charged] at after
  simp only [PrefixModel.next, Except.map, live] at after
  exact ⟨charged, ⟨after, limits, by rw [still]; rfl⟩, by rw [still]; rfl⟩

/-! ## New tokens -/

/-- The tokens of the branches have been handed out. -/
def Below (next : Nat) (model : PrefixModel Nat) : Prop :=
  ∀ treeId branch, model.live.get? treeId = some branch → ∀ token ∈ branch.tokens, token < next

theorem Below.insert (below : Below next model) (treeId : String) (issued : ∀ token ∈ branch.tokens, token < next) :
    Below next ⟨model.live.insert treeId branch⟩ := by
  intro other alive found
  rw [Dict.get?_insert] at found
  split at found
  · cases found
    exact issued
  · exact below other alive found

/-- Nothing of what is new is cached. -/
theorem Below.missing_eq (below : Below next model) (live : model.live.get? treeId = some branch) {block : List Nat}
    (isNew : ∀ token ∈ block, next ≤ token) : model.missing branch block = block.length := by
  have bound : branch.tokens.length ≤ (branch.tokens ++ block).length := by
    rw [List.length_append]
    omega
  unfold PrefixModel.missing
  rw [card_uncached bound, List.length_append, Nat.add_sub_cancel_left]
  intro length positive short
  rw [PrefixModel.mem_cached]
  constructor
  · rintro ⟨_, other, owner⟩
    obtain ⟨alive, found, _, isPrefix⟩ := PrefixModel.mem_owners.1 owner
    by_contra longer
    -- the first new token would be one of the other branch
    rw [Nat.not_le] at longer
    rw [List.length_append] at short
    have inBlock : 0 < block.length := by omega
    have first : block[0] ∈ (branch.tokens ++ block).take length := by
      rw [List.take_append]
      refine List.mem_append_right _ ?_
      exact List.mem_take_iff_getElem.2 ⟨0, by omega, rfl⟩
    have issued := below other alive found _ (isPrefix.subset first)
    exact absurd (isNew _ (List.getElem_mem inBlock)) (Nat.not_le_of_lt issued)
  · intro within
    refine ⟨fun empty => ?_, treeId, PrefixModel.mem_owners.2 ⟨branch, live, rfl, ?_⟩⟩
    · have lengths := congrArg List.length empty
      rw [List.length_take, List.length_nil] at lengths
      omega
    · rw [List.take_append_of_le_length within]
      exact List.take_prefix _ _

theorem range'_new {start size token : Nat} (member : token ∈ List.range' start size) : start ≤ token ∧ token < start + size :=
  List.mem_range'_1.1 member

theorem extendUnlessEmpty_leaves (agrees : Agrees cache model) (live : model.live.get? treeId = some branch) (now size : Nat)
    (below : Below next model) (unlimited : cache.perTreeBudget = none)
    (room : cache.stats.residentTokens + size ≤ cache.capacity) :
    ∃ after, PinnedRun.extendUnlessEmpty cache now treeId (List.range' next size) = .ok after ∧
      Leaves cache size (model.appended treeId branch (List.range' next size)) after ∧
      after.stats.prefillTokensCharged = cache.stats.prefillTokensCharged + size := by
  unfold PinnedRun.extendUnlessEmpty
  by_cases empty : List.range' next size = []
  · have nothing : size = 0 := List.range'_eq_nil_iff.1 empty
    have same : model.Same (model.appended treeId branch []) := by
      intro other
      unfold PrefixModel.appended
      rw [Dict.get?_insert]
      split
      · next isBranch => rw [isBranch, live, List.append_nil]
      · rfl
    rw [if_pos empty, empty, nothing]
    exact ⟨cache, rfl, ⟨agrees.congr same, rfl, (Int.add_zero _).symm⟩, (Int.add_zero _).symm⟩
  · have missing : model.missing branch (List.range' next size) = (List.range' next size).length :=
      below.missing_eq live fun token member => (range'_new member).1
    rw [List.length_range'] at missing
    obtain ⟨charged, leaves, isCharged⟩ := extend_leaves agrees live now _ unlimited (missing.symm ▸ room)
    rw [missing] at leaves isCharged
    rw [if_neg empty, call_ok charged]
    exact ⟨_, rfl, leaves, isCharged⟩

/-! ## An unrelated request -/

theorem Leaves.trans {middle after : TreeKVCache Nat} {model' : PrefixModel Nat} {first second : Int}
    (left : Leaves cache first model middle) (right : Leaves middle second model' after) :
    Leaves cache (first + second) model' after where
  agrees := right.agrees
  limits := right.limits.trans left.limits
  resident := by rw [right.resident, left.resident, Int.add_assoc]

/-- A tree of its own is made, filled and taken off again. -/
theorem unrelated_leaves (agrees : Agrees cache model) (absent : model.live.get? treeId = none)
    (alone : ∀ other branch, model.live.get? other = some branch → branch.ns ≠ treeId) (now size : Nat)
    (below : Below next model) (unlimited : cache.perTreeBudget = none)
    (room : cache.stats.residentTokens + size ≤ cache.capacity) :
    ∃ tid charged freed after opened extended,
      PinnedRun.call (cache.createTree treeId) = .ok (tid, opened) ∧
      PinnedRun.call (opened.extend now treeId (List.range' next size)) = .ok (charged, extended) ∧
      PinnedRun.call (extended.kill treeId) = .ok (freed, after) ∧ Leaves cache 0 model after := by
  obtain ⟨tid, created, afterCreate⟩ := createTree_leaves agrees absent fun other branch found same =>
    absurd same (alone other branch found)
  -- the new tree holds nothing yet
  have live : (model.live.insert treeId ⟨treeId, []⟩).get? treeId = some ⟨treeId, []⟩ := by
    rw [Dict.get?_insert, if_pos rfl]
  have belowThen : Below next ⟨model.live.insert treeId ⟨treeId, []⟩⟩ := below.insert treeId nofun
  have missing : PrefixModel.missing _ _ (List.range' next size) = (List.range' next size).length :=
    belowThen.missing_eq live fun token member => (range'_new member).1
  rw [List.length_range'] at missing
  have sameCapacity := congrArg Prod.fst afterCreate.limits
  have sameBudget := congrArg Prod.snd afterCreate.limits
  have sameResident := afterCreate.resident
  simp only [TreeKVCache.limits, Int.add_zero] at sameCapacity sameBudget sameResident
  obtain ⟨charged, afterExtend, _⟩ := extend_leaves afterCreate.agrees live now (List.range' next size)
    (sameBudget.trans unlimited) (by rwa [missing, sameResident, sameCapacity])
  have filled : (PrefixModel.appended ⟨model.live.insert treeId ⟨treeId, []⟩⟩ treeId ⟨treeId, []⟩
      (List.range' next size)).live.get? treeId = some ⟨treeId, List.range' next size⟩ := by
    unfold PrefixModel.appended
    rw [Dict.get?_insert, if_pos rfl, List.nil_append]
  obtain ⟨freed, killed, isFreed, afterKill⟩ := kill_leaves afterExtend.agrees filled
  have others : (PrefixModel.appended ⟨model.live.insert treeId ⟨treeId, []⟩⟩ treeId ⟨treeId, []⟩
      (List.range' next size)).cachedByOthers treeId treeId = ∅ := by
    rw [Finset.eq_empty_iff_forall_notMem]
    intro path member
    obtain ⟨_, other, isOther⟩ := PrefixModel.mem_cachedByOthers.1 member
    obtain ⟨differs, owner⟩ := Finset.mem_erase.1 isOther
    obtain ⟨branch, found, here, _⟩ := PrefixModel.mem_owners.1 owner
    unfold PrefixModel.appended at found
    rw [Dict.get?_insert, if_neg differs, Dict.get?_insert, if_neg differs] at found
    exact alone other branch found here
  have asBefore : PrefixModel.Same ⟨(PrefixModel.appended ⟨model.live.insert treeId ⟨treeId, []⟩⟩ treeId ⟨treeId, []⟩
      (List.range' next size)).live.erase treeId⟩ model := by
    intro other
    unfold PrefixModel.appended
    rw [Dict.get?_erase]
    split
    · next same => rw [same, absent]
    · next differs => rw [Dict.get?_insert, if_neg differs, Dict.get?_insert, if_neg differs]
  rw [others, Finset.sdiff_empty, card_prefixes, List.length_range'] at isFreed
  have all := (afterCreate.trans afterExtend).trans afterKill
  rw [missing, isFreed, Int.zero_add, Int.add_right_neg] at all
  exact ⟨tid, _, freed, _, _, _, call_ok created, call_ok charged, call_ok killed, all.agrees.congr asBefore, all.limits,
    all.resident⟩

/-! ## The parent and its children -/

namespace PinnedRun

variable {ps : PressureScenario} {tokens : List Nat} {child : Nat} {run : PinnedRun}

theorem childName_inj {first second : Nat} (same : childName first = childName second) : first = second :=
  Digits.append_toString_inj same

/-- Names that begin in another way differ. -/
theorem ne_of_heads {first second : String} (differs : first.toList.head? ≠ second.toList.head?) : first ≠ second :=
  fun same => differs (congrArg (fun name : String => name.toList.head?) same)

theorem childName_ne_parent (child : Nat) : childName child ≠ "parent" := ne_of_heads (by simp [childName])

theorem noiseName_ne_parent (child : Nat) : noiseName child ≠ "parent" := ne_of_heads (by simp [noiseName])

theorem noiseName_ne_childName (first second : Nat) : noiseName first ≠ childName second :=
  ne_of_heads (by simp [noiseName, childName])

theorem childName_ne_empty (child : Nat) : childName child ≠ "" := ne_of_heads (by simp [childName])

/-- The parent and its first children are the live branches. -/
structure Family (tokens : List Nat) (child next : Nat) (model : PrefixModel Nat) : Prop where
  parent : model.live.get? "parent" = some ⟨"parent", tokens⟩
  shared : ∀ treeId branch, model.live.get? treeId = some branch → branch.ns = "parent"
  below : Below next model
  unforked : ∀ later, child ≤ later → model.live.get? (childName later) = none
  quiet : ∀ other, model.live.get? (noiseName other) = none

theorem Family.weaken (family : Family tokens child next model) (count : Nat) : Family tokens child (next + count) model where
  parent := family.parent
  shared := family.shared
  below treeId branch found token member := Nat.lt_add_right count (family.below treeId branch found token member)
  unforked := family.unforked
  quiet := family.quiet

theorem Family.root (size : Nat) : Family (List.range' 0 size) 0 size
    ⟨(Dict.insert (Dict.insert Dict.empty "parent" ⟨"parent", []⟩) "parent" ⟨"parent", [] ++ List.range' 0 size⟩)⟩ := by
  have only : ∀ other, (Dict.insert (Dict.insert Dict.empty "parent" (⟨"parent", []⟩ : Live Nat)) "parent"
      ⟨"parent", [] ++ List.range' 0 size⟩).get? other =
        if other = "parent" then some ⟨"parent", List.range' 0 size⟩ else none := by
    intro other
    rw [Dict.get?_insert, Dict.get?_insert]
    split <;> rfl
  have found : ∀ treeId branch, (Dict.insert (Dict.insert Dict.empty "parent" (⟨"parent", []⟩ : Live Nat)) "parent"
      ⟨"parent", [] ++ List.range' 0 size⟩).get? treeId = some branch → branch = ⟨"parent", List.range' 0 size⟩ := by
    intro treeId branch isBranch
    rw [only] at isBranch
    split at isBranch
    · cases isBranch
      rfl
    · cases isBranch
  refine ⟨?_, fun treeId branch isBranch => ?_, fun treeId branch isBranch token member => ?_, fun later _ => ?_,
    fun other => ?_⟩
  · rw [only, if_pos rfl]
  · rw [found treeId branch isBranch]
  · rw [found treeId branch isBranch] at member
    exact Nat.lt_of_lt_of_eq (range'_new member).2 (Nat.zero_add size)
  · rw [only, if_neg (childName_ne_parent later)]
  · rw [only, if_neg (noiseName_ne_parent other)]

/-- A child joins with its suffix. -/
theorem Family.join (family : Family tokens child next model) (size : Nat) : Family tokens (child + 1) (next + size)
    (PrefixModel.appended ⟨model.live.insert (childName child) ⟨"parent", tokens⟩⟩ (childName child) ⟨"parent", tokens⟩
      (List.range' next size)) := by
  have later := family.weaken size
  have joined : ∀ other, (PrefixModel.appended ⟨model.live.insert (childName child) ⟨"parent", tokens⟩⟩ (childName child)
      ⟨"parent", tokens⟩ (List.range' next size)).live.get? other =
        if other = childName child then some ⟨"parent", tokens ++ List.range' next size⟩ else model.live.get? other := by
    intro other
    unfold PrefixModel.appended
    rw [Dict.get?_insert, Dict.get?_insert]
    split <;> rfl
  refine ⟨?_, fun treeId branch isBranch => ?_, fun treeId branch isBranch token member => ?_, fun other isLater => ?_,
    fun other => ?_⟩
  · rw [joined, if_neg (childName_ne_parent child).symm]
    exact family.parent
  · rw [joined] at isBranch
    split at isBranch
    · cases isBranch
      rfl
    · exact family.shared treeId branch isBranch
  · rw [joined] at isBranch
    split at isBranch
    · cases isBranch
      obtain old | new := List.mem_append.1 member
      · exact later.below "parent" _ later.parent token old
      · exact (range'_new new).2
    · exact later.below treeId branch isBranch token member
  · rw [joined, if_neg fun same => by have := childName_inj same; omega]
    exact family.unforked other (by omega)
  · rw [joined, if_neg (noiseName_ne_childName other child)]
    exact family.quiet other

/-! ## One child -/

/-- The cache before a child: the family so far, and no token beside it. -/
structure Ready (ps : PressureScenario) (tokens : List Nat) (child : Nat) (run : PinnedRun) (model : PrefixModel Nat) :
    Prop where
  agrees : Agrees run.cache model
  limits : run.cache.limits = (capacity ps, none)
  resident : run.cache.stats.residentTokens = (ps.prefixTokens + child * ps.suffixTokens : Nat)
  family : Family tokens child run.gen.next model
  unnamed : run.gen.Unnamed child

theorem Ready.room (ready : run.Ready ps tokens child model) (more : child < ps.nChildren) :
    run.cache.stats.residentTokens + ps.interleavedTokens ≤ capacity ps ∧
      run.cache.stats.residentTokens + ps.suffixTokens ≤ capacity ps := by
  have fewer : (child + 1) * ps.suffixTokens ≤ ps.nChildren * ps.suffixTokens := Nat.mul_le_mul_right _ more
  have large : ps.prefixTokens + ps.nChildren * ps.suffixTokens + ps.interleavedTokens + 1 ≤ capacity ps := Nat.le_max_right _ _
  rw [Nat.succ_mul] at fewer
  rw [ready.resident]
  omega

/-- An unrelated request leaves what it has found. -/
theorem Ready.gap_spec (ready : run.Ready ps tokens child model) (clock : Nat → Nat) (more : child < ps.nChildren) :
    ∃ after, run.gap ps clock child = .ok after ∧ after.childCharged = run.childCharged ∧ after.hits = run.hits ∧
      after.Ready ps tokens child model := by
  unfold gap
  split
  · have family := ready.family
    have alone : ∀ other branch, model.live.get? other = some branch → branch.ns ≠ noiseName child := by
      intro other branch found same
      exact noiseName_ne_parent child (same.symm.trans (family.shared other branch found))
    have sameCapacity : run.cache.capacity = capacity ps := congrArg Prod.fst ready.limits
    obtain ⟨_, _, _, after, _, _, created, charged, killed, leaves⟩ := unrelated_leaves ready.agrees (family.quiet child)
      alone (clock (3 * child + 1)) ps.interleavedTokens family.below (congrArg Prod.snd ready.limits)
      (sameCapacity ▸ (ready.room more).1)
    refine ⟨{ run with gen := (run.gen.fresh ps.interleavedTokens).2, cache := after }, ?_, rfl, rfl, leaves.agrees,
      leaves.limits.trans ready.limits, ?_, family.weaken _, ready.unnamed⟩
    · simp only [TokenGen.fresh, bind, Except.bind, created, charged, killed]
    · exact (leaves.resident.trans (Int.add_zero _)).trans ready.resident
  · exact ⟨run, rfl, rfl, rfl, ready⟩

/-- A child finds the prefix and is charged for its suffix. -/
theorem Ready.child_spec (ready : run.Ready ps tokens child model) (isPrefix : tokens.length = ps.prefixTokens)
    (clock : Nat → Nat) (more : child < ps.nChildren) :
    ∃ after, run.child ps clock tokens child = .ok after ∧ after.childCharged = run.childCharged + ps.suffixTokens ∧
      after.hits = run.hits + 1 ∧ ∃ model', after.Ready ps tokens (child + 1) model' := by
  have family := ready.family
  obtain ⟨_, isForked, afterFork⟩ := forkBranch_leaves ready.agrees family.parent (childName_ne_empty child)
    (family.unforked child (Nat.le_refl child))
  have forked := call_ok isForked
  generalize (run.cache.forkBranch "parent" (some (childName child))).2 = forkedCache at forked afterFork
  have live : (model.live.insert (childName child) ⟨"parent", tokens⟩).get? (childName child) = some ⟨"parent", tokens⟩ := by
    rw [Dict.get?_insert, if_pos rfl]
  obtain ⟨matched, isMatched, finds, afterMatch⟩ := matchTreePrefix_leaves afterFork.agrees live (clock (3 * child + 2)) tokens
  have isFound : ps.prefixTokens ≤ matched := isPrefix ▸ finds (List.prefix_refl tokens)
  have looked := call_ok isMatched
  generalize (forkedCache.matchTreePrefix (clock (3 * child + 2)) (childName child) tokens).2 = matchedCache
    at looked afterMatch
  have before := afterFork.trans afterMatch
  have limits := before.limits.trans ready.limits
  have sameCapacity : matchedCache.capacity = capacity ps := congrArg Prod.fst limits
  have sameResident := before.resident
  rw [Int.add_zero, Int.add_zero] at sameResident
  have below : Below run.gen.next ⟨model.live.insert (childName child) ⟨"parent", tokens⟩⟩ :=
    family.below.insert (childName child) (family.below "parent" _ family.parent)
  obtain ⟨after, extended, afterExtend, charged⟩ := extendUnlessEmpty_leaves before.agrees live (clock (3 * child + 3))
    ps.suffixTokens below (congrArg Prod.snd limits) (by rw [sameResident, sameCapacity]; exact (ready.room more).2)
  have block := ready.unnamed.block_eq ps.suffixTokens
  have unnamed := ready.unnamed.block ps.suffixTokens
  rw [block] at unnamed
  refine ⟨⟨⟨run.gen.next + ps.suffixTokens, run.gen.ranges.insert (suffixName child) run.gen.next⟩, after,
      run.hits + 1, run.childCharged + ps.suffixTokens⟩, ?_, rfl, rfl, _,
    afterExtend.agrees, afterExtend.limits.trans limits, ?_, family.join ps.suffixTokens, unnamed⟩
  · unfold PinnedRun.child
    simp only [bind, Except.bind, forked, looked, block, extended, charged, add_sub_cancel_left, if_pos isFound]
  · rw [afterExtend.resident, sameResident, ready.resident, Nat.succ_mul]
    push_cast
    ring

/-! ## All children -/

theorem start_spec (ps : PressureScenario) (clock : Nat → Nat) : ∃ run, start ps clock = .ok (List.range' 0 ps.prefixTokens, run) ∧
    run.childCharged = ps.prefixTokens ∧ run.hits = 0 ∧ ∃ model, run.Ready ps (List.range' 0 ps.prefixTokens) 0 model := by
  have made : (TreeKVCache.new (capacity ps) none : Except CacheError (TreeKVCache Nat)) = .ok (.fresh (capacity ps) none) := by
    unfold TreeKVCache.new
    rw [if_neg (Int.not_lt.2 (Int.natCast_nonneg _))]
    rfl
  have absent : (PrefixModel.init : PrefixModel Nat).live.get? "parent" = none := rfl
  obtain ⟨_, isCreated, afterCreate⟩ := createTree_leaves (Agrees.fresh (capacity ps) none) absent nofun
  have created := call_ok isCreated
  have noCharge : ((TreeKVCache.fresh (capacity ps) none : TreeKVCache Nat).createTree "parent").2.stats.prefillTokensCharged = 0 := rfl
  generalize ((TreeKVCache.fresh (capacity ps) none : TreeKVCache Nat).createTree "parent").2 = opened
    at created afterCreate noCharge
  have limits : opened.limits = (capacity ps, none) := afterCreate.limits
  have sameCapacity : opened.capacity = capacity ps := congrArg Prod.fst limits
  have empty : opened.stats.residentTokens = 0 := afterCreate.resident
  have room : ps.prefixTokens ≤ capacity ps := Nat.le_trans (by omega) (Nat.le_max_right _ _)
  have live : (Dict.insert PrefixModel.init.live "parent" (⟨"parent", []⟩ : Live Nat)).get? "parent" = some ⟨"parent", []⟩ := by
    rw [Dict.get?_insert, if_pos rfl]
  have nothing : Below 0 PrefixModel.init := fun _ _ found => nomatch found
  have below : Below 0 ⟨Dict.insert PrefixModel.init.live "parent" ⟨"parent", []⟩⟩ := nothing.insert "parent" nofun
  obtain ⟨after, extended, afterExtend, charged⟩ := extendUnlessEmpty_leaves afterCreate.agrees live (clock 0)
    ps.prefixTokens below (congrArg Prod.snd limits) (by rw [empty, sameCapacity]; omega)
  have block : TokenGen.new.block "parent" ps.prefixTokens =
      (List.range' 0 ps.prefixTokens, ⟨0 + ps.prefixTokens, Dict.insert Dict.empty "parent" 0⟩) := rfl
  have unnamed := TokenGen.unnamed_start ps.prefixTokens
  rw [noCharge, Int.zero_add] at charged
  rw [block] at unnamed
  refine ⟨⟨⟨0 + ps.prefixTokens, Dict.insert Dict.empty "parent" 0⟩, after, 0, ps.prefixTokens⟩, ?_, rfl, rfl, _,
    afterExtend.agrees, afterExtend.limits.trans limits, ?_, ?_, unnamed⟩
  · simp only [start, made, block, bind, Except.bind, created, extended, charged]
  · rw [afterExtend.resident, empty, Nat.zero_mul, Nat.add_zero, Int.zero_add]
  · rw [Nat.zero_add]
    exact Family.root ps.prefixTokens

theorem Ready.after_spec (ready : run.Ready ps tokens 0 model) (isPrefix : tokens.length = ps.prefixTokens)
    (clock : Nat → Nat) {children : Nat} (among : children ≤ ps.nChildren) :
    ∃ final, run.after ps clock tokens children = .ok final ∧
      final.childCharged = run.childCharged + children * ps.suffixTokens ∧ final.hits = run.hits + children ∧
      ∃ model', final.Ready ps tokens children model' := by
  induction children with
  | zero => exact ⟨run, rfl, by rw [Nat.cast_zero, Int.zero_mul, Int.add_zero], rfl, model, ready⟩
  | succ children inductionHypothesis =>
    obtain ⟨middle, reached, charged, hits, model', readyThen⟩ := inductionHypothesis (by omega)
    obtain ⟨quiet, gapGoes, chargedGap, sameHits, readyGap⟩ := readyThen.gap_spec clock among
    obtain ⟨final, childGoes, chargedChild, oneMore, readyChild⟩ := readyGap.child_spec isPrefix clock among
    refine ⟨final, ?_, ?_, ?_, readyChild⟩
    · simp only [after, bind, Except.bind, reached, gapGoes, childGoes]
    · rw [chargedChild, chargedGap, charged]
      push_cast
      ring
    · rw [oneMore, sameHits, hits, Nat.add_assoc]

end PinnedRun

/-- All children find the prefix in the pinned cache and pay what the model predicts. -/
theorem pinned_run (ps : PressureScenario) (clock : Nat → Nat) : ∃ pinned, runPinned ps clock = .ok pinned ∧
    pinned.childPrefillCharged = (pressureModel ps).pinned.prefillCharged ∧ pinned.parentHits = ps.nChildren := by
  obtain ⟨run, started, charged, noHits, model, ready⟩ := PinnedRun.start_spec ps clock
  obtain ⟨final, reached, total, hits, _⟩ := ready.after_spec List.length_range' clock (Nat.le_refl ps.nChildren)
  refine ⟨⟨final.hits, ps.nChildren, final.cache.stats.prefillTokensCharged, final.childCharged⟩, ?_, ?_, ?_⟩
  · simp only [runPinned, bind, Except.bind, started, reached]
  · change final.childCharged = ((ps.prefixTokens + ps.nChildren * ps.suffixTokens : Nat) : Int)
    rw [total, charged]
    push_cast
    ring
  · exact hits.trans (by rw [noHits, Nat.zero_add])

/-- Both caches charge the parent and its children what the model predicts. -/
theorem model_matches_caches (ps : PressureScenario) (clock : Nat → Nat) :
    (runStock ps).childPrefillCharged = (pressureModel ps).stock.prefillCharged ∧
      ∃ pinned, runPinned ps clock = .ok pinned ∧
        pinned.childPrefillCharged = (pressureModel ps).pinned.prefillCharged := by
  obtain ⟨pinned, returned, charged, _⟩ := pinned_run ps clock
  exact ⟨stock_charge_eq ps, pinned, returned, charged⟩

/-! ## Hits -/

/-- The hits of both caches are as predicted, and pinning is said to win where the stock
cache charges more. -/
def Exact (ps : PressureScenario) (clock : Nat → Nat) : Prop :=
  stockParentHits ps = (runStock ps).parentHits ∧ ∃ pinned, runPinned ps clock = .ok pinned ∧
    pinned.parentHits = ps.nChildren ∧
    ((pressureModel ps).pinningWins = true ↔ pinned.childPrefillCharged < (runStock ps).childPrefillCharged)

theorem stockParentHits_le (ps : PressureScenario) : stockParentHits ps ≤ ps.nChildren := by
  unfold stockParentHits
  cases ps.pattern <;> simp only <;> split <;> omega

/-- A parent without tokens is in any cache, and the model does not know it. -/
theorem model_exact_iff (ps : PressureScenario) (clock : Nat → Nat) :
    Exact ps clock ↔ 0 < ps.prefixTokens ∨ ps.interleavedTokens ≤ ps.capacityTokens := by
  obtain ⟨pinned, returned, charged, hits⟩ := pinned_run ps clock
  have among := stockParentHits_le ps
  constructor
  · rintro ⟨sameHits, _⟩
    by_contra outside
    rw [not_or, Nat.not_lt, Nat.le_zero, Nat.not_le] at outside
    obtain ⟨noPrefix, full⟩ := outside
    rw [stock_hits_eq, if_pos noPrefix, stockParentHits_of_full (by omega)] at sameHits
    have some := ps.children
    split at sameHits <;> omega
  · intro inside
    refine ⟨?_, pinned, returned, hits, ?_⟩
    · rw [stock_hits_eq]
      split
      · next noPrefix => exact stockParentHits_of_fits (by omega)
      · rfl
    · rw [charged, stock_charge_eq]
      -- the stock cache charges the prefix once more for each miss
      change decide (0 < ps.nChildren - stockParentHits ps) = true ↔
        ((ps.prefixTokens + ps.nChildren * ps.suffixTokens : Nat) : Int) < ((ps.prefixTokens + ps.nChildren * ps.suffixTokens +
          (ps.nChildren - stockParentHits ps) * ps.prefixTokens : Nat) : Int)
      rw [decide_eq_true_eq, Int.ofNat_lt, Nat.lt_add_right_iff_pos]
      constructor
      · intro missed
        refine Nat.mul_pos missed ?_
        by_contra noPrefix
        rw [stockParentHits_of_fits (by omega)] at missed
        omega
      · exact Nat.pos_of_mul_pos_right

/-- A scenario of the benchmark without a prefix: one child, two unrelated tokens and room for one. -/
def emptyPrefix : PressureScenario where
  prefixTokens := 0
  nChildren := 1
  suffixTokens := 1
  interleavedTokens := 2
  capacityTokens := 1
  pattern := .sustained
  children := by decide
  capacity := by decide
  request := by decide
  fits := by decide

theorem empty_prefix_is_found : ¬ ∀ ps clock, Exact ps clock := by
  intro claimed
  have same := (claimed emptyPrefix fun _ => 0).1
  revert same
  decide

end Agentfork.Bench

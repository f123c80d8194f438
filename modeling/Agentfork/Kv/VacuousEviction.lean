import Agentfork.Kv.TreeCacheSoundness
import Agentfork.Library.RadixEviction

/-! # Eviction finds nothing to evict

Nothing is asked of the ids here, so a branch may drop references that it never
took. A kill goes down the path from the bottom up and deletes what it leaves
without reference and child, so an unreferenced node always has a node below it. -/

namespace Agentfork.Kv

open Transition

variable {τ : Type} [DecidableEq τ]

/-- A node that eviction must not take. -/
def NodeData.Referenced (data : NodeData) : Prop := 1 ≤ data.ref

/-- Every leaf of a namespace is referenced. -/
def Pinning (root : Dict String (RadixTree τ NodeData)) : Prop :=
  ∀ ns tree, root.get? ns = some tree → tree.forest.EveryLeaf NodeData.Referenced

/-- Every leaf is referenced, every live tree has its namespace and its tokens, and nothing was evicted. -/
structure Unevicted (cache : TreeKVCache τ) : Prop where
  pinning : Pinning cache.root
  rooted : ∀ treeId tid, cache.trees.get? treeId = some tid → tid.ns ∈ cache.root
  sequenced : ∀ treeId, treeId ∈ cache.trees → treeId ∈ cache.treeTokens
  evicted : cache.stats.evictedTokens = 0
  resident : cache.stats.residentTokens ≤ cache.capacity

namespace Pinning

variable {root : Dict String (RadixTree τ NodeData)} {tree : RadixTree τ NodeData} {ns : String}

theorem insert (pinning : Pinning root) (every : tree.forest.EveryLeaf NodeData.Referenced) :
    Pinning (root.insert ns tree) := by
  intro other found isFound
  rw [Dict.get?_insert] at isFound
  split at isFound
  · cases isFound
    exact every
  · exact pinning other found isFound

theorem erase (pinning : Pinning root) : Pinning (root.erase ns) := by
  intro other found isFound
  rw [Dict.get?_erase] at isFound
  split at isFound
  · cases isFound
  · exact pinning other found isFound

theorem walk (every : tree.forest.EveryLeaf NodeData.Referenced) (now : Nat) (tokens : List τ) :
    (tree.walk (NodeData.touch now) tokens).1.forest.EveryLeaf NodeData.Referenced :=
  RadixForest.EveryLeaf.walk every (fun data referenced => show 1 ≤ (data.touch now).ref from referenced) tokens

theorem unreferencedLeaves_eq_nil {cache : TreeKVCache τ} (pinning : Pinning cache.root) : cache.unreferencedLeaves = [] := by
  rw [TreeKVCache.unreferencedLeaves, List.flatMap_eq_nil_iff]
  rintro ⟨ns, tree⟩ member
  have every := pinning ns tree (Dict.mem_entries.1 (List.mem_reverse.1 member))
  rw [List.filterMap_eq_nil_iff]
  rintro ⟨path, edge, data, leaf⟩ isNode
  cases leaf with
  | false => rfl
  | true =>
    have referenced : 1 ≤ data.ref := (RadixForest.everyLeaf_iff []).1 every path edge data isNode
    have notDead : ¬ data.ref ≤ 0 := by omega
    simp [notDead]

end Pinning

/-- The tokens that an `extend` needs room for. -/
def TreeKVCache.uncached (cache : TreeKVCache τ) (treeId : String) (tokens : List τ) : Nat :=
  match cache.trees.get? treeId with
  | none => 0
  | some tid =>
    let full := (cache.treeTokens.get? treeId).getD [] ++ tokens
    full.length - longestMatch (cache.paths tid.ns) full

namespace Unevicted

variable {cache : TreeKVCache τ}

/-- A call that only replaces the tree of a namespace. -/
theorem replace (unevicted : Unevicted cache) (ns : String) {tree : RadixTree τ NodeData}
    (every : tree.forest.EveryLeaf NodeData.Referenced) :
    Unevicted { cache with root := cache.root.insert ns tree } :=
  ⟨unevicted.pinning.insert every, fun treeId tid found => Dict.mem_insert.2 (.inr (unevicted.rooted treeId tid found)),
    unevicted.sequenced, unevicted.evicted, unevicted.resident⟩

theorem createTree (unevicted : Unevicted cache) (treeId : String) : Unevicted (cache.createTree treeId).2 := by
  rw [TreeKVCache.createTree]
  split
  · exact unevicted
  · refine ⟨unevicted.pinning.insert trivial, fun other tid found => ?_, fun other live => ?_, unevicted.evicted,
      unevicted.resident⟩
    · rw [Dict.get?_insert] at found
      rw [Dict.mem_insert]
      split at found
      · cases found
        exact .inl rfl
      · exact .inr (unevicted.rooted other tid found)
    · rw [Dict.mem_insert] at live ⊢
      exact live.imp_right (unevicted.sequenced other)

theorem forkBranch (unevicted : Unevicted cache) (parentId : String) (childId : Option String) :
    Unevicted (cache.forkBranch parentId childId).2 := by
  rw [TreeKVCache.forkBranch]
  cases parentFound : cache.trees.get? parentId with
  | none => exact unevicted
  | some parent =>
    have counted : Unevicted { cache with childSeq := cache.childSeq + 1 } :=
      ⟨unevicted.pinning, unevicted.rooted, unevicted.sequenced, unevicted.evicted, unevicted.resident⟩
    obtain ⟨parentTokens, tokensFound⟩ := Dict.mem_iff_get?.1 (unevicted.sequenced parentId (Dict.mem_of_get? parentFound))
    obtain ⟨tree, rootFound⟩ := Dict.mem_iff_get?.1 (unevicted.rooted parentId parent parentFound)
    simp only [tokensFound, rootFound]
    split
    · exact counted
    · have bumped : (tree.visit (NodeData.bump (TreeKVCache.childName parentId childId cache.childSeq)) (fun _ => false)
          parentTokens).1.forest.EveryLeaf NodeData.Referenced := by
        refine RadixForest.EveryLeaf.visit_immortal (unevicted.pinning _ tree rootFound) (fun data referenced => ?_) _
        change 1 ≤ data.ref at referenced
        change 1 ≤ data.ref + 1
        omega
      refine ⟨unevicted.pinning.insert bumped, fun other tid found => ?_, fun other live => ?_, unevicted.evicted,
        unevicted.resident⟩
      · rw [Dict.get?_insert] at found
        rw [Dict.mem_insert]
        split at found
        · cases found
          exact .inl rfl
        · exact .inr (unevicted.rooted other tid found)
      · rw [Dict.mem_insert] at live ⊢
        exact live.imp_right (unevicted.sequenced other)

theorem kill (unevicted : Unevicted cache) (treeId : String) : Unevicted (cache.kill treeId).2 := by
  rw [TreeKVCache.kill]
  cases treeFound : cache.trees.get? treeId with
  | none => exact unevicted
  | some tid =>
    obtain ⟨tokens, tokensFound⟩ := Dict.mem_iff_get?.1 (unevicted.sequenced treeId (Dict.mem_of_get? treeFound))
    obtain ⟨tree, rootFound⟩ := Dict.mem_iff_get?.1 (unevicted.rooted treeId tid treeFound)
    simp only [rootFound, tokensFound]
    have swept : (tree.visit (NodeData.drop treeId) NodeData.dead tokens).1.forest.EveryLeaf NodeData.Referenced := by
      refine RadixForest.EveryLeaf.visit (unevicted.pinning _ tree rootFound) (fun data alive => ?_) tokens
      simp only [NodeData.dead, decide_eq_false_iff_not] at alive
      change 1 ≤ (data.drop treeId).ref
      omega
    have resident := unevicted.resident
    refine ⟨?_, fun other otherTid found => ?_, fun other live => ?_, unevicted.evicted, ?_⟩
    · split
      · exact unevicted.pinning.insert swept
      · exact (unevicted.pinning.insert swept).erase
    · rw [Dict.get?_erase] at found
      split at found
      · cases found
      · next differs =>
        have rooted := unevicted.rooted other otherTid found
        split
        · exact Dict.mem_insert.2 (.inr rooted)
        · next notLive =>
          -- the namespace goes only when no other tree is in it
          refine Dict.mem_erase.2 ⟨fun same => notLive ?_, Dict.mem_insert.2 (.inr rooted)⟩
          rw [TreeKVCache.namespaceLive, List.any_eq_true]
          refine ⟨otherTid, Dict.mem_values.2 ⟨other, ?_⟩, decide_eq_true same⟩
          rw [Dict.get?_erase, if_neg differs]
          exact found
    · rw [Dict.mem_erase] at live ⊢
      exact ⟨live.1, unevicted.sequenced other live.2⟩
    · change cache.stats.residentTokens - _ ≤ (cache.capacity : Int)
      omega

/-! ## Extend and the lookups -/

theorem addRefs (unevicted : Unevicted cache) (full : List τ) (treeId ns : String) :
    Unevicted (cache.addRefs full treeId ns) := by
  rw [TreeKVCache.addRefs]
  cases found : cache.root.get? ns with
  | none => exact unevicted
  | some tree =>
    refine unevicted.replace ns (RadixForest.EveryLeaf.visit_immortal (unevicted.pinning ns tree found) (fun data referenced => ?_) full)
    change 1 ≤ data.ref at referenced
    change 1 ≤ (data.addRef treeId).ref
    rw [NodeData.addRef]
    split
    · exact referenced
    · change 1 ≤ data.ref + 1
      omega

theorem insertSuffix (unevicted : Unevicted cache) (now : Nat) (ns treeId : String) (full : List τ) (matched : Nat)
    (fits : cache.stats.residentTokens + (full.drop matched).length ≤ cache.capacity) :
    Unevicted (cache.insertSuffix now ns treeId full matched) := by
  rw [TreeKVCache.insertSuffix]
  cases found : cache.root.get? ns with
  | none => exact unevicted
  | some tree =>
    have every : (tree.attach (full.take matched) (full.drop matched) ⟨1, {treeId}, now⟩).forest.EveryLeaf
        NodeData.Referenced := by
      rw [RadixTree.attach]
      split
      · exact unevicted.pinning ns tree found
      · have isNew : NodeData.Referenced ⟨1, {treeId}, now⟩ := le_refl (1 : Int)
        exact RadixForest.EveryLeaf.attach (unevicted.pinning ns tree found) isNew _
    have replaced := unevicted.replace ns every
    exact ⟨replaced.pinning, replaced.rooted, replaced.sequenced, replaced.evicted, fits⟩

theorem chargeExtend (unevicted : Unevicted cache) (treeId : String) (tokens full : List τ) (charged : Nat) :
    Unevicted (cache.chargeExtend treeId tokens full charged) :=
  ⟨unevicted.pinning, unevicted.rooted, fun other live => Dict.mem_insert.2 (.inr (unevicted.sequenced other live)),
    unevicted.evicted, unevicted.resident⟩

theorem extend (unevicted : Unevicted cache) (now : Nat) (treeId : String) (tokens : List τ) :
    Unevicted (cache.extend now treeId tokens).2 := by
  rw [TreeKVCache.extend]
  cases treeFound : cache.trees.get? treeId with
  | none => exact unevicted
  | some tid =>
    obtain ⟨seq, tokensFound⟩ := Dict.mem_iff_get?.1 (unevicted.sequenced treeId (Dict.mem_of_get? treeFound))
    obtain ⟨tree, rootFound⟩ := Dict.mem_iff_get?.1 (unevicted.rooted treeId tid treeFound)
    simp only [tokensFound, rootFound]
    have walked := unevicted.replace tid.ns (Pinning.walk (unevicted.pinning _ tree rootFound) now (seq ++ tokens))
    generalize tree.walk (NodeData.touch now) (seq ++ tokens) = walk at *
    split
    · exact walked
    · split
      · rw [TreeKVCache.maybeEvict_of_no_leaf walked.pinning.unreferencedLeaves_eq_nil]
        by_cases fits : cache.stats.residentTokens + ((seq ++ tokens).length - walk.2 : Nat) ≤ cache.capacity
        · simp only [if_pos fits]
          rw [← List.length_drop] at fits
          exact ((walked.insertSuffix now tid.ns treeId _ _ fits).addRefs _ _ _).chargeExtend _ _ _ _
        · simp only [if_neg fits]
          exact walked
      · exact (walked.addRefs _ _ _).chargeExtend _ _ _ _

theorem matchPrefix (unevicted : Unevicted cache) (now : Nat) (tokens : List τ) :
    Unevicted (cache.matchPrefix now tokens).2 := by
  refine ⟨fun ns tree found => ?_, fun treeId tid found => Dict.mem_mapValues.2 (unevicted.rooted treeId tid found),
    unevicted.sequenced, unevicted.evicted, unevicted.resident⟩
  change (cache.root.mapValues _).get? ns = some tree at found
  rw [Dict.get?_mapValues, Option.map_eq_some_iff] at found
  obtain ⟨before, isFound, rfl⟩ := found
  exact Pinning.walk (unevicted.pinning ns before isFound) now tokens

theorem matchTreePrefix (unevicted : Unevicted cache) (now : Nat) (treeId : String) (tokens : List τ) :
    Unevicted (cache.matchTreePrefix now treeId tokens).2 := by
  rw [TreeKVCache.matchTreePrefix]
  split
  · exact unevicted
  · split
    · exact unevicted
    · next tree found => exact unevicted.replace _ (Pinning.walk (unevicted.pinning _ tree found) now tokens)

theorem perform (unevicted : Unevicted cache) (op : Op τ) : Unevicted (cache.perform op) := by
  cases op with
  | createTree treeId => exact unevicted.createTree treeId
  | forkBranch parentId childId => exact unevicted.forkBranch parentId childId
  | extend now treeId tokens => exact unevicted.extend now treeId tokens
  | kill treeId => exact unevicted.kill treeId
  | matchPrefix now tokens => exact unevicted.matchPrefix now tokens
  | matchTreePrefix now treeId tokens => exact unevicted.matchTreePrefix now treeId tokens

theorem of_reachable {capacityTokens : Int} {perTreeBudget : Option Int} {start state : TreeKVCache τ}
    (created : TreeKVCache.new capacityTokens perTreeBudget = .ok start)
    (reached : Reachable TreeKVCache.Step always start state) : Unevicted state := by
  refine reached.invariant (motive := Unevicted) ?_ ?_
  · rw [TreeKVCache.new] at created
    split at created
    · cases created
    · split at created
      · cases created
      · cases created
        exact ⟨nofun, nofun, fun _ live => absurd live (Dict.not_mem_empty _), rfl, Int.natCast_nonneg _⟩
  · rintro before op after unevicted - rfl
    exact unevicted.perform op

/-- An extend that lacks room is refused, by the budget of its namespace or by the capacity. -/
theorem extend_refused (unevicted : Unevicted cache) {treeId : String} (live : treeId ∈ cache.trees) (now : Nat)
    (tokens : List τ) (short : cache.capacity - cache.residentTokens < cache.uncached treeId tokens) :
    ∃ message, (cache.extend now treeId tokens).1 = .error (.memoryError message) := by
  obtain ⟨tid, treeFound⟩ := Dict.mem_iff_get?.1 live
  obtain ⟨seq, tokensFound⟩ := Dict.mem_iff_get?.1 (unevicted.sequenced treeId live)
  obtain ⟨tree, rootFound⟩ := Dict.mem_iff_get?.1 (unevicted.rooted treeId tid treeFound)
  have matched := RadixTree.walk_matched (NodeData.touch now) tree (seq ++ tokens)
  have needs : cache.uncached treeId tokens =
      (seq ++ tokens).length - (tree.walk (NodeData.touch now) (seq ++ tokens)).2 := by
    simp only [TreeKVCache.uncached, treeFound, tokensFound, TreeKVCache.paths, rootFound, Option.getD_some, Option.map_some,
      matched]
  rw [needs, TreeKVCache.residentTokens] at short
  have resident := unevicted.resident
  have walked := unevicted.replace tid.ns (Pinning.walk (unevicted.pinning _ tree rootFound) now (seq ++ tokens))
  simp only [TreeKVCache.extend, treeFound, tokensFound, rootFound]
  generalize tree.walk (NodeData.touch now) (seq ++ tokens) = walk at *
  split
  · exact ⟨_, rfl⟩
  · rw [if_pos (by omega), TreeKVCache.maybeEvict_of_no_leaf walked.pinning.unreferencedLeaves_eq_nil, if_neg]
    · exact ⟨_, rfl⟩
    · change ¬ cache.stats.residentTokens + _ ≤ (cache.capacity : Int)
      omega

end Unevicted

namespace TreeKVCache

/-- The cache as `_maybe_evict` finds it: the walk of the `extend` has split a node. -/
def walked (cache : TreeKVCache τ) (now : Nat) (ns : String) (full : List τ) : TreeKVCache τ :=
  match cache.root.get? ns with
  | none => cache
  | some tree => { cache with root := cache.root.insert ns (tree.walk (NodeData.touch now) full).1 }

/-- In every run, whatever the ids and sizes, each leaf is referenced and eviction takes nothing. -/
theorem nothing_is_evicted {capacityTokens : Int} {perTreeBudget : Option Int} {start state : TreeKVCache τ}
    (created : new capacityTokens perTreeBudget = .ok start) (reached : Reachable Step always start state) :
    (∀ ns tree path edge data, state.root.get? ns = some tree → (path, edge, data, true) ∈ tree.forest.nodes [] →
      1 ≤ data.ref) ∧
    (∀ now ns full need, ((state.walked now ns full).maybeEvict need).2 = state.walked now ns full) ∧
    state.stats.evictedTokens = 0 ∧
    ∀ treeId now tokens, treeId ∈ state.trees → state.capacity - state.residentTokens < state.uncached treeId tokens →
      ∃ message, (state.extend now treeId tokens).1 = .error (.memoryError message) := by
  have unevicted := Unevicted.of_reachable created reached
  refine ⟨fun ns tree path edge data found isLeaf => ?_, fun now ns full need => ?_, unevicted.evicted,
    fun treeId now tokens live short => unevicted.extend_refused live now tokens short⟩
  · exact (RadixForest.everyLeaf_iff []).1 (unevicted.pinning ns tree found) path edge data isLeaf
  · have pinning : Pinning (state.walked now ns full).root := by
      rw [walked]
      split
      · exact unevicted.pinning
      · next tree found => exact unevicted.pinning.insert (Pinning.walk (unevicted.pinning ns tree found) now full)
    rw [maybeEvict_of_no_leaf pinning.unreferencedLeaves_eq_nil]
    split <;> rfl

/-- A run in which a namespace is created again below a live fork, which then drops what another tree holds. -/
def reusedRun : List (Op Nat) :=
  [.createTree "p", .extend 1 "p" [1, 2, 3], .forkBranch "p" (some "c"), .kill "p", .createTree "p",
    .extend 2 "p" [1, 2], .kill "c"]

theorem reusedRun_nothing_evicted : (reusedRun.foldl perform (fresh 6 none)).stats.evictedTokens = 0 ∧
    ∃ message, ((reusedRun.foldl perform (fresh 6 none)).extend 3 "p" [7, 8, 9, 10]).1 = .error (.memoryError message) := by
  have reached : Reachable Step always (fresh 6 none) (reusedRun.foldl perform (fresh 6 none)) :=
    reachable_foldl meets_always
  have created : new 6 none = .ok (fresh 6 none : TreeKVCache Nat) := rfl
  obtain ⟨-, -, evicted, refused⟩ := nothing_is_evicted created reached
  exact ⟨evicted, refused "p" 3 [7, 8, 9, 10] (by decide) (by decide)⟩

end TreeKVCache

end Agentfork.Kv

import Mathlib.Data.List.Sort
import Agentfork.Library.Dict
import Agentfork.Library.RadixTree

/-! # The tree-keyed copy-on-write radix cache

`TreeKVCache` as the source computes it. Below each namespace hangs a radix
tree whose nodes carry a reference count and the set of trees that own them.
The public methods run under one lock, so each is one function from a cache to
what it returns or raises together with the cache it leaves behind: a method
that raises half way leaves the changes it has made.

The nodes that a walk reads get the clock reading of the call; it only orders
unreferenced leaves for eviction. -/

namespace Agentfork.Kv

/-- What a cache method raises. -/
inductive CacheError where
  | valueError (message : String)
  | keyError (message : String)
  | memoryError (message : String)
  deriving DecidableEq, Repr

structure TreeId where
  treeId : String
  parentId : Option String
  childSeq : Nat
  ns : String
  deriving DecidableEq, Repr

/-- The fields of `_Node` besides its tokens and its place in the tree. -/
structure NodeData where
  ref : Int
  owners : Finset String
  lastAccess : Nat
  deriving DecidableEq

structure CacheStats where
  residentTokens : Int
  logicalTokens : Int
  prefillTokensCharged : Int
  prefillTokensSaved : Int
  evictedTokens : Int
  deriving DecidableEq, Repr

structure TreeKVCache (τ : Type) [DecidableEq τ] where
  root : Dict String (RadixTree τ NodeData)
  capacity : Nat
  perTreeBudget : Option Nat
  trees : Dict String TreeId
  treeTokens : Dict String (List τ)
  childSeq : Nat
  stats : CacheStats

namespace NodeData

def touch (now : Nat) (data : NodeData) : NodeData := { data with lastAccess := now }

/-- `nxt.ref += 1; nxt.owners.add(child_id)` -/
def bump (treeId : String) (data : NodeData) : NodeData :=
  { data with ref := data.ref + 1, owners := insert treeId data.owners }

/-- `_add_refs` on one node. -/
def addRef (treeId : String) (data : NodeData) : NodeData :=
  if treeId ∈ data.owners then data else data.bump treeId

/-- `n.owners.discard(tree_id); n.ref -= 1` -/
def drop (treeId : String) (data : NodeData) : NodeData :=
  { data with ref := data.ref - 1, owners := data.owners.erase treeId }

def dead (data : NodeData) : Bool := data.ref ≤ 0

theorem dead_drop_iff {data : NodeData} {treeId : String} :
    (data.drop treeId).dead = true ↔ data.ref ≤ 1 := by
  simp [dead, drop]

end NodeData

namespace TreeKVCache

variable {τ : Type} [DecidableEq τ]

/-- A new cache whose limits have passed the checks of the constructor. -/
def fresh (capacity : Nat) (perTreeBudget : Option Nat) : TreeKVCache τ where
  root := .empty
  capacity := capacity
  perTreeBudget := perTreeBudget
  trees := .empty
  treeTokens := .empty
  childSeq := 1
  stats := ⟨0, 0, 0, 0, 0⟩

def new (capacityTokens : Int) (perTreeBudget : Option Int) : Except CacheError (TreeKVCache τ) :=
  if capacityTokens < 0 then .error (.valueError "capacity_tokens must be nonnegative")
  else if perTreeBudget.any (· < 0) then .error (.valueError "per_tree_budget must be nonnegative")
  else .ok (fresh capacityTokens.toNat (perTreeBudget.map Int.toNat))

/-! ## Tree lifecycle -/

def createTree (cache : TreeKVCache τ) (treeId : String) : Except CacheError TreeId × TreeKVCache τ :=
  if treeId ∈ cache.trees then (.error (.valueError s!"tree exists: {treeId}"), cache)
  else
    let tid : TreeId := { treeId := treeId, parentId := none, childSeq := 0, ns := treeId }
    (.ok tid, { cache with
      trees := cache.trees.insert treeId tid
      treeTokens := cache.treeTokens.insert treeId []
      root := cache.root.insert treeId .empty })

/-- `child_id or f"{parent_id}/{seq}"`: the empty id counts as none. -/
def childName (parentId : String) (childId : Option String) (seq : Nat) : String :=
  match childId with
  | some given => if given = "" then s!"{parentId}/{seq}" else given
  | none => s!"{parentId}/{seq}"

def forkBranch (cache : TreeKVCache τ) (parentId : String) (childId : Option String) :
    Except CacheError TreeId × TreeKVCache τ :=
  match cache.trees.get? parentId with
  | none => (.error (.keyError s!"no such tree: {parentId}"), cache)
  | some parent =>
    let seq := cache.childSeq
    let cache := { cache with childSeq := seq + 1 }
    let child := childName parentId childId seq
    if child ∈ cache.trees then (.error (.valueError s!"tree exists: {child}"), cache)
    else
      let tid : TreeId := { treeId := child, parentId := some parentId, childSeq := seq, ns := parent.ns }
      let cache := { cache with trees := cache.trees.insert child tid }
      match cache.treeTokens.get? parentId with
      | none => (.error (.keyError parentId), cache)
      | some parentTokens =>
        let cache := { cache with treeTokens := cache.treeTokens.insert child parentTokens }
        match cache.root.get? parent.ns with
        | none => (.error (.keyError parent.ns), cache)
        | some tree =>
          let bumped := tree.visit (NodeData.bump child) (fun _ => false) parentTokens
          let matched := tree.wholeLength parentTokens
          (.ok tid, { cache with
            root := cache.root.insert parent.ns bumped.1
            stats := { cache.stats with
              prefillTokensSaved := cache.stats.prefillTokensSaved + matched
              logicalTokens := cache.stats.logicalTokens + parentTokens.length } })

/-- `any(t.namespace == namespace for t in self.trees.values())` -/
def namespaceLive (trees : Dict String TreeId) (ns : String) : Bool :=
  trees.values.any fun tid => tid.ns = ns

def kill (cache : TreeKVCache τ) (treeId : String) : Except CacheError Nat × TreeKVCache τ :=
  match cache.trees.get? treeId with
  | none => (.ok 0, cache)
  | some tid =>
    match cache.root.get? tid.ns, cache.treeTokens.get? treeId with
    | none, _ => (.error (.keyError tid.ns), cache)
    | some _, none => (.error (.keyError treeId), cache)
    | some tree, some tokens =>
      let swept := tree.visit (NodeData.drop treeId) NodeData.dead tokens
      let trees := cache.trees.erase treeId
      let root := cache.root.insert tid.ns swept.1
      (.ok swept.2, { cache with
        root := if namespaceLive trees tid.ns then root else root.erase tid.ns
        trees := trees
        treeTokens := cache.treeTokens.erase treeId
        stats := { cache.stats with
          residentTokens := cache.stats.residentTokens - swept.2
          logicalTokens := cache.stats.logicalTokens - tokens.length } })

/-! ## Eviction -/

/-- A leaf as eviction sees it. -/
structure Leaf (τ : Type) where
  ns : String
  path : List τ
  tokens : List τ
  lastAccess : Nat

/-- `[n for n in self._all_nodes() if not n.children and n.ref <= 0]` -/
def unreferencedLeaves (cache : TreeKVCache τ) : List (Leaf τ) :=
  cache.root.entries.reverse.flatMap fun (ns, tree) =>
    (tree.forest.nodes []).filterMap fun (path, tokens, data, leaf) =>
      if leaf && data.ref ≤ 0 then some ⟨ns, path, tokens, data.lastAccess⟩ else none

def removeLeaf (cache : TreeKVCache τ) (leaf : Leaf τ) : TreeKVCache τ :=
  match cache.root.get? leaf.ns with
  | none => cache
  | some tree => { cache with
      root := cache.root.insert leaf.ns (tree.removeAt leaf.path)
      stats := { cache.stats with
        residentTokens := cache.stats.residentTokens - leaf.tokens.length
        evictedTokens := cache.stats.evictedTokens + leaf.tokens.length } }

def evictLeaves (need : Nat) (cache : TreeKVCache τ) : List (Leaf τ) → TreeKVCache τ
  | [] => cache
  | leaf :: leaves =>
    if cache.stats.residentTokens + need ≤ cache.capacity then cache
    else evictLeaves need (removeLeaf cache leaf) leaves

def exhaustedMessage : String := "capacity exhausted by pinned trees; kill a branch or raise " ++
  "capacity (per-tree budgets prevent unbounded pinning)"

def maybeEvict (cache : TreeKVCache τ) (need : Nat) : Except CacheError Unit × TreeKVCache τ :=
  if cache.stats.residentTokens + need ≤ cache.capacity then (.ok (), cache)
  else
    let leaves := cache.unreferencedLeaves.insertionSort fun first second =>
      first.lastAccess ≤ second.lastAccess
    let cache := evictLeaves need cache leaves
    if cache.capacity < cache.stats.residentTokens + need then
      (.error (.memoryError exhaustedMessage), cache)
    else (.ok (), cache)

/-! ## Extend and lookup -/

/-- Hang the uncached suffix below the node where the walk stopped. A node that
eviction has taken off the tree in between keeps the new one off it too. -/
def insertSuffix (cache : TreeKVCache τ) (now : Nat) (ns treeId : String) (full : List τ)
    (matched : Nat) : TreeKVCache τ :=
  match cache.root.get? ns with
  | none => cache
  | some tree => { cache with
      root := cache.root.insert ns (tree.attach (full.take matched) (full.drop matched) ⟨1, {treeId}, now⟩)
      stats := { cache.stats with
        residentTokens := cache.stats.residentTokens + (full.drop matched).length } }

def addRefs (cache : TreeKVCache τ) (full : List τ) (treeId ns : String) : TreeKVCache τ :=
  match cache.root.get? ns with
  | none => cache
  | some tree => { cache with
      root := cache.root.insert ns (tree.visit (NodeData.addRef treeId) (fun _ => false) full).1 }

def overBudget (cache : TreeKVCache τ) (tree : RadixTree τ NodeData) (charged : Nat) : Bool :=
  cache.perTreeBudget.any fun budget => budget < tree.size + charged

def budgetMessage (cache : TreeKVCache τ) (ns : String) : String :=
  s!"tree {ns} exceeds budget {cache.perTreeBudget.getD 0}"

/-- The bookkeeping at the end of an `extend` that has raised nothing. -/
def chargeExtend (cache : TreeKVCache τ) (treeId : String) (tokens full : List τ) (charged : Nat) :
    TreeKVCache τ :=
  { cache with
    treeTokens := cache.treeTokens.insert treeId full
    stats := { cache.stats with
      logicalTokens := cache.stats.logicalTokens + tokens.length
      prefillTokensCharged := cache.stats.prefillTokensCharged + charged
      prefillTokensSaved := cache.stats.prefillTokensSaved +
        if charged < tokens.length then tokens.length - charged else 0 } }

def extend (cache : TreeKVCache τ) (now : Nat) (treeId : String) (tokens : List τ) :
    Except CacheError Nat × TreeKVCache τ :=
  match cache.trees.get? treeId with
  | none => (.error (.keyError s!"no such tree: {treeId}"), cache)
  | some tid =>
    match cache.treeTokens.get? treeId, cache.root.get? tid.ns with
    | none, _ => (.error (.keyError treeId), cache)
    | some _, none => (.error (.keyError tid.ns), cache)
    | some seq, some tree =>
      let full := seq ++ tokens
      let walked := tree.walk (NodeData.touch now) full
      let matched := walked.2
      let cache := { cache with root := cache.root.insert tid.ns walked.1 }
      let charged := full.length - matched
      if cache.overBudget walked.1 charged then
        (.error (.memoryError (cache.budgetMessage tid.ns)), cache)
      else if matched < full.length then
        match cache.maybeEvict (full.length - matched) with
        | (.error raised, cache) => (.error raised, cache)
        | (.ok (), cache) =>
          let cache := (cache.insertSuffix now tid.ns treeId full matched).addRefs full treeId tid.ns
          (.ok charged, cache.chargeExtend treeId tokens full charged)
      else
        let cache := cache.addRefs full treeId tid.ns
        (.ok charged, cache.chargeExtend treeId tokens full charged)

def matchPrefix (cache : TreeKVCache τ) (now : Nat) (tokens : List τ) : Nat × TreeKVCache τ :=
  ((cache.root.values.map fun tree => (tree.walk (NodeData.touch now) tokens).2).foldl max 0,
    { cache with root := cache.root.mapValues fun tree => (tree.walk (NodeData.touch now) tokens).1 })

def matchTreePrefix (cache : TreeKVCache τ) (now : Nat) (treeId : String) (tokens : List τ) :
    Except CacheError Nat × TreeKVCache τ :=
  match cache.trees.get? treeId with
  | none => (.error (.keyError s!"no such tree: {treeId}"), cache)
  | some tid =>
    match cache.root.get? tid.ns with
    | none => (.error (.keyError tid.ns), cache)
    | some tree =>
      let walked := tree.walk (NodeData.touch now) tokens
      (.ok walked.2, { cache with root := cache.root.insert tid.ns walked.1 })

def residentTokens (cache : TreeKVCache τ) : Int := cache.stats.residentTokens

def hasTree (cache : TreeKVCache τ) (treeId : String) : Bool := treeId ∈ cache.trees

/-- The tokens held by the nodes that are reachable from the root. -/
def reachableTokens (cache : TreeKVCache τ) : Nat := cache.root.total RadixTree.size

/-- The paths cached under a namespace. -/
def paths (cache : TreeKVCache τ) (ns : String) : Finset (List τ) :=
  ((cache.root.get? ns).map RadixTree.domain).getD ∅

end TreeKVCache

/-! ## Runs -/

/-- The public methods with their arguments; the ones that read the clock carry
its reading. -/
inductive Op (τ : Type) where
  | createTree (treeId : String)
  | forkBranch (parentId : String) (childId : Option String)
  | extend (now : Nat) (treeId : String) (tokens : List τ)
  | kill (treeId : String)
  | matchPrefix (now : Nat) (tokens : List τ)
  | matchTreePrefix (now : Nat) (treeId : String) (tokens : List τ)
  deriving DecidableEq, Repr

/-- What a method returns. -/
inductive Value where
  | tree (tid : TreeId)
  | tokens (count : Nat)
  deriving DecidableEq, Repr

namespace TreeKVCache

variable {τ : Type} [DecidableEq τ]

def apply (cache : TreeKVCache τ) : Op τ → Except CacheError Value × TreeKVCache τ
  | .createTree treeId => Prod.map (Except.map .tree) id (cache.createTree treeId)
  | .forkBranch parentId childId => Prod.map (Except.map .tree) id (cache.forkBranch parentId childId)
  | .extend now treeId tokens => Prod.map (Except.map .tokens) id (cache.extend now treeId tokens)
  | .kill treeId => Prod.map (Except.map .tokens) id (cache.kill treeId)
  | .matchPrefix now tokens => Prod.map (fun matched => .ok (.tokens matched)) id
      (cache.matchPrefix now tokens)
  | .matchTreePrefix now treeId tokens => Prod.map (Except.map .tokens) id
      (cache.matchTreePrefix now treeId tokens)

end TreeKVCache

end Agentfork.Kv

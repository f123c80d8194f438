import Agentfork.Sglang.RadixCache

/-! # The agent-tree extension of the radix cache

`TreeRadixCache` as the patches leave it. All branches of one tree share a
namespace of the radix cache; a live branch that is not demoted pins the node
that spells its committed tokens. The scheduler calls the methods one after the
other, so each is one function from a cache to what it returns or raises
together with the cache it leaves behind.

A missing row of the telemetry reads as the default row, which is what
`tree_telemetry` puts there when it is asked. -/

namespace Agentfork.Sglang

/-- What a method raises. -/
inductive TreeError where
  | keyError (key : String)
  | valueError (message : String)
  | runtimeError (message : String)
  | treeQuotaExceeded (message : String)
  deriving DecidableEq, Repr

structure AgentBranch (τ : Type) where
  branchId : String
  ns : String
  parentId : Option String
  childSeq : Nat
  tokenIds : List τ
  lockedNode : Option NodeRef
  reservedTokens : Int
  speculative : Bool
  deriving DecidableEq

structure TreeTelemetry where
  liveBranches : Int
  chargedTokens : Int
  pinnedTokens : Int
  reservedTokens : Int
  savedTokens : Int
  invalidations : Nat
  demotions : Nat
  deriving DecidableEq, Repr

structure TreeRadixCache (τ : Type) where
  tree : Tree τ
  pageSize : Nat
  branches : Dict String (AgentBranch τ)
  forkSeq : Nat
  treeQuotaTokens : Option Int
  telemetry : Dict String TreeTelemetry

namespace TreeRadixCache

variable {τ : Type} [DecidableEq τ]

/-! ## Quotas, reservations, telemetry -/

def treeTelemetry (cache : TreeRadixCache τ) (ns : String) : TreeTelemetry :=
  (cache.telemetry.get? ns).getD ⟨0, 0, 0, 0, 0, 0, 0⟩

def updateTelemetry (cache : TreeRadixCache τ) (ns : String) (update : TreeTelemetry → TreeTelemetry) :
    TreeRadixCache τ :=
  { cache with telemetry := cache.telemetry.insert ns (update (cache.treeTelemetry ns)) }

def setBranch (cache : TreeRadixCache τ) (branchId : String) (br : AgentBranch τ) : TreeRadixCache τ :=
  { cache with branches := cache.branches.insert branchId br }

/-- The locked nodes of the namespace with the nodes above them. -/
def pinnedNodes (cache : TreeRadixCache τ) (ns : String) : Finset Nat :=
  ((cache.branches.values.filter fun branch => branch.ns = ns && !branch.speculative).flatMap fun branch =>
    (branch.lockedNode.map cache.tree.upward).getD []).toFinset

def refreshPinnedTokens (cache : TreeRadixCache τ) (ns : String) : TreeRadixCache τ :=
  cache.updateTelemetry ns fun tel =>
    { tel with pinnedTokens := ((∑ id ∈ cache.pinnedNodes ns, (cache.tree.key id).length : Nat) : Int) }

def prioritizeUnpinnedPath (tree : Tree τ) : Option NodeRef → Tree τ
  | none => tree
  | some node => tree.backdate ((tree.upward node).takeWhile fun id => tree.lockRef id = 0)

def quotaMessage (tel : TreeTelemetry) (ns : String) (extra quota : Int) : String :=
  s!"tree {ns}: {tel.chargedTokens} charged + {tel.reservedTokens} reserved + {extra} new > quota {quota}"

/-- The tokens of a charge that the branch has reserved before. -/
def fromReserve (br : AgentBranch τ) (tokens : Int) : Int := min br.reservedTokens tokens

def validateCharge (cache : TreeRadixCache τ) (br : AgentBranch τ) (tokens : Int) :
    Except TreeError Unit :=
  let tel := cache.treeTelemetry br.ns
  let extra := tokens - fromReserve br tokens
  match cache.treeQuotaTokens with
  | none => .ok ()
  | some quota =>
    if quota < tel.chargedTokens + tel.reservedTokens + extra then
      .error (.treeQuotaExceeded (quotaMessage tel br.ns extra quota))
    else .ok ()

/-- Charge a branch of the cache; it is stored back with what is left of its reservation. -/
def charge (cache : TreeRadixCache τ) (branchId : String) (br : AgentBranch τ) (tokens : Int) :
    Except TreeError (AgentBranch τ × TreeRadixCache τ) :=
  match cache.validateCharge br tokens with
  | .error raised => .error raised
  | .ok () =>
    let reserved := fromReserve br tokens
    let extra := tokens - reserved
    let br := { br with reservedTokens := br.reservedTokens - reserved }
    .ok (br, (cache.setBranch branchId br).updateTelemetry br.ns fun tel => { tel with
      reservedTokens := tel.reservedTokens - reserved
      chargedTokens := tel.chargedTokens + reserved + if 0 < extra then extra else 0 })

def reserve (cache : TreeRadixCache τ) (branchId : String) (numTokens : Int) :
    Except TreeError Unit × TreeRadixCache τ :=
  if numTokens < 0 then (.error (.valueError "num_tokens must be nonnegative"), cache)
  else
    match cache.branches.get? branchId with
    | none => (.error (.keyError branchId), cache)
    | some br =>
      let tel := cache.treeTelemetry br.ns
      if cache.treeQuotaTokens.any (· < tel.chargedTokens + tel.reservedTokens + numTokens) then
        (.error (.treeQuotaExceeded (s!"tree {br.ns}: reservation of {numTokens} exceeds " ++
          s!"quota {cache.treeQuotaTokens.getD 0}")), cache)
      else
        (.ok (), (cache.setBranch branchId { br with reservedTokens := br.reservedTokens + numTokens })
          |>.updateTelemetry br.ns fun tel => { tel with reservedTokens := tel.reservedTokens + numTokens })

/-! ## Demotion and promotion -/

section Methods

variable (radix : RadixCache τ)

def demoteBranch (cache : TreeRadixCache τ) (branchId : String) : Except TreeError Nat × TreeRadixCache τ :=
  match cache.branches.get? branchId with
  | none => (.error (.keyError branchId), cache)
  | some br =>
    match br.speculative, br.lockedNode with
    | false, some node =>
      let (tree, delta) := radix.decLockRef cache.tree node
      let cache := ({ cache with tree := tree }).setBranch branchId { br with speculative := true }
      (.ok delta, (cache.refreshPinnedTokens br.ns).updateTelemetry br.ns fun tel =>
        { tel with demotions := tel.demotions + 1 })
    | _, _ => (.ok 0, cache)

def promoteBranch (cache : TreeRadixCache τ) (branchId : String) : Except TreeError Nat × TreeRadixCache τ :=
  match cache.branches.get? branchId with
  | none => (.error (.keyError branchId), cache)
  | some br =>
    if br.speculative then
      let (tree, res) := radix.matchPrefix cache.tree ⟨br.tokenIds, br.ns⟩
      let br := { br with
        lockedNode := some res.lastDeviceNode
        tokenIds := br.tokenIds.take res.deviceIndices
        speculative := false }
      let tree := radix.incLockRef tree res.lastDeviceNode
      (.ok br.tokenIds.length,
        (({ cache with tree := tree }).setBranch branchId br).refreshPinnedTokens br.ns)
    else (.ok br.tokenIds.length, cache)

/-- `if br.speculative: self.promote_branch(branch_id)` -/
def repin (cache : TreeRadixCache τ) (branchId : String) (br : AgentBranch τ) : TreeRadixCache τ :=
  if br.speculative then (promoteBranch radix cache branchId).2 else cache

/-- `self.dec_lock_ref(br.locked_node).delta` where a node is locked. -/
def unlock (tree : Tree τ) : Option NodeRef → Tree τ × Nat
  | none => (tree, 0)
  | some node => radix.decLockRef tree node

/-- Evict what an unlocked path has set free. -/
def release (tree : Tree τ) (node : Option NodeRef) (released : Nat) : Tree τ :=
  if 0 < released then radix.evict (prioritizeUnpinnedPath tree node) released else tree

def invalidateTree (cache : TreeRadixCache τ) (branchId : String) : Except TreeError Nat × TreeRadixCache τ :=
  match cache.branches.get? branchId with
  | none => (.error (.keyError branchId), cache)
  | some br =>
    let cache := repin radix cache branchId br
    match cache.branches.get? branchId with
    | none => (.error (.keyError branchId), cache)
    | some br =>
      let (tree, released) := unlock radix cache.tree br.lockedNode
      let cache := ({ cache with tree := tree }).setBranch branchId
        { br with lockedNode := none, speculative := false, tokenIds := [] }
      let cache := cache.updateTelemetry br.ns fun tel =>
        { tel with invalidations := tel.invalidations + 1 }
      let cache := cache.refreshPinnedTokens br.ns
      (.ok released, { cache with tree := release radix cache.tree br.lockedNode released })

/-! ## Tree lifecycle -/

/-- `first or second`: the empty string counts as none. -/
def orElse (first : Option String) (second : String) : String :=
  match first with
  | some given => if given = "" then second else given
  | none => second

def createAgentTree (cache : TreeRadixCache τ) (branchId : String) (ns : Option String) :
    Except TreeError (AgentBranch τ) × TreeRadixCache τ :=
  if branchId ∈ cache.branches then (.error (.valueError s!"branch exists: {branchId}"), cache)
  else
    let br : AgentBranch τ := ⟨branchId, orElse ns branchId, none, 0, [], none, 0, false⟩
    (.ok br, (cache.setBranch branchId br).updateTelemetry br.ns fun tel =>
      { tel with liveBranches := tel.liveBranches + 1 })

/-- The tree, the tokens and the node a fork starts from: a demoted parent may
have lost nodes, so its tokens are matched again. -/
def forkPin (cache : TreeRadixCache τ) (parent : AgentBranch τ) : Tree τ × List τ × Option NodeRef :=
  if parent.speculative then
    let (tree, res) := radix.matchPrefix cache.tree ⟨parent.tokenIds, parent.ns⟩
    (radix.incLockRef tree res.lastDeviceNode, parent.tokenIds.take res.deviceIndices,
      some res.lastDeviceNode)
  else
    match parent.lockedNode with
    | some node => (radix.incLockRef cache.tree node, parent.tokenIds, some node)
    | none => (cache.tree, parent.tokenIds, none)

def forkBranch (cache : TreeRadixCache τ) (parentId : String) (childId : Option String) :
    Except TreeError (AgentBranch τ) × TreeRadixCache τ :=
  match cache.branches.get? parentId with
  | none => (.error (.keyError parentId), cache)
  | some parent =>
    let seq := cache.forkSeq
    let cache := { cache with forkSeq := seq + 1 }
    let child := orElse childId s!"{parentId}/{seq}"
    if child ∈ cache.branches then (.error (.valueError s!"branch exists: {child}"), cache)
    else
      let (tree, tokenIds, lockedNode) := forkPin radix cache parent
      let br : AgentBranch τ := ⟨child, parent.ns, some parentId, seq, tokenIds, lockedNode, 0, false⟩
      let cache := ({ cache with tree := tree }).setBranch child br
      let cache := cache.updateTelemetry br.ns fun tel => { tel with liveBranches := tel.liveBranches + 1 }
      (.ok br, (cache.refreshPinnedTokens br.ns).updateTelemetry br.ns fun tel =>
        { tel with savedTokens := tel.savedTokens + br.tokenIds.length })

def killTree (cache : TreeRadixCache τ) (branchId : String) : Nat × TreeRadixCache τ :=
  match cache.branches.get? branchId with
  | none => (0, cache)
  | some br =>
    let cache := repin radix cache branchId br
    match cache.branches.get? branchId with
    | none => (0, cache)
    | some br =>
      let (tree, delta) := unlock radix cache.tree br.lockedNode
      let cache := { cache with
        branches := cache.branches.erase branchId
        tree := release radix tree br.lockedNode delta }
      let cache := cache.updateTelemetry br.ns fun tel => { tel with
        liveBranches := tel.liveBranches - 1
        reservedTokens := tel.reservedTokens - br.reservedTokens }
      (delta, cache.refreshPinnedTokens br.ns)

/-! ## Data path -/

/-- Pin the new node, then let go of the old one. -/
def movePin (tree : Tree τ) (br : AgentBranch τ) (newNode : NodeRef) : Tree τ :=
  let tree := radix.incLockRef tree newNode
  match br.lockedNode, br.speculative with
  | some old, false => (radix.decLockRef tree old).1
  | _, _ => tree

def extendTree (cache : TreeRadixCache τ) (branchId : String) (tokenIds : List τ) :
    Except TreeError Nat × TreeRadixCache τ :=
  match cache.branches.get? branchId with
  | none => (.error (.keyError branchId), cache)
  | some br =>
    let oldLen := br.tokenIds.length
    let newTokens := br.tokenIds ++ tokenIds
    let key : RadixKey τ := ⟨newTokens, br.ns⟩
    let (tree, res) := radix.matchPrefix cache.tree key
    let cache := { cache with tree := tree }
    let hit := res.deviceIndices
    let charged : Int := newTokens.length - max hit oldLen
    -- a charge that is refused raises before anything but the tree has changed
    match if 0 < charged then cache.charge branchId br charged else .ok (br, cache) with
    | .error raised => (.error raised, cache)
    | .ok (br, cache) =>
      let cache := cache.updateTelemetry br.ns fun tel =>
        { tel with savedTokens := tel.savedTokens + max ((hit : Int) - oldLen) 0 }
      let (tree, res) := radix.matchPrefix (radix.insert cache.tree key) key
      let tree := movePin radix tree br res.lastDeviceNode
      let cache := ({ cache with tree := tree }).setBranch branchId { br with
        tokenIds := newTokens
        lockedNode := some res.lastDeviceNode
        speculative := false }
      (.ok hit, cache.refreshPinnedTokens br.ns)

def matchTreePrefix (cache : TreeRadixCache τ) (branchId : String) (tokenIds : List τ) :
    Except TreeError Nat × TreeRadixCache τ :=
  match cache.branches.get? branchId with
  | none => (.error (.keyError branchId), cache)
  | some br =>
    let (tree, res) := radix.matchPrefix cache.tree ⟨tokenIds, br.ns⟩
    (.ok res.deviceIndices, { cache with tree := tree })

end Methods

end TreeRadixCache

/-! ## Runs -/

/-- The public methods with their arguments; `evict` is memory pressure from
outside the branches. -/
inductive Op (τ : Type) where
  | createAgentTree (branchId : String) (ns : Option String)
  | forkBranch (parentId : String) (childId : Option String)
  | extendTree (branchId : String) (tokenIds : List τ)
  | reserve (branchId : String) (numTokens : Int)
  | demoteBranch (branchId : String)
  | promoteBranch (branchId : String)
  | invalidateTree (branchId : String)
  | killTree (branchId : String)
  | matchTreePrefix (branchId : String) (tokenIds : List τ)
  | evict (numTokens : Nat)
  deriving DecidableEq, Repr

namespace TreeRadixCache

variable {τ : Type} [DecidableEq τ]

def new (pageSize : Nat) (treeQuotaTokens : Option Int) : TreeRadixCache τ where
  tree := .empty
  pageSize := pageSize
  branches := .empty
  forkSeq := 1
  treeQuotaTokens := treeQuotaTokens
  telemetry := .empty

/-- The cache after a call, whether it returns or raises. -/
def perform (radix : RadixCache τ) (cache : TreeRadixCache τ) : Op τ → TreeRadixCache τ
  | .createAgentTree branchId ns => (cache.createAgentTree branchId ns).2
  | .forkBranch parentId childId => (cache.forkBranch radix parentId childId).2
  | .extendTree branchId tokenIds => (cache.extendTree radix branchId tokenIds).2
  | .reserve branchId numTokens => (cache.reserve branchId numTokens).2
  | .demoteBranch branchId => (cache.demoteBranch radix branchId).2
  | .promoteBranch branchId => (cache.promoteBranch radix branchId).2
  | .invalidateTree branchId => (cache.invalidateTree radix branchId).2
  | .killTree branchId => (cache.killTree radix branchId).2
  | .matchTreePrefix branchId tokenIds => (cache.matchTreePrefix radix branchId tokenIds).2
  | .evict numTokens => { cache with tree := radix.evict cache.tree numTokens }

def Step (radix : RadixCache τ) (before : TreeRadixCache τ) (op : Op τ) (after : TreeRadixCache τ) : Prop :=
  before.perform radix op = after

end TreeRadixCache

end Agentfork.Sglang

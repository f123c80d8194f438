import Agentfork.Sglang.TreeRadixCache

/-! # The request path

How the scheduler drives the tree cache: `TreeCacheLifecycle` opens a branch and
reserves for a request that comes in, takes it back when the request is aborted
before it ran, and serves the control operations; `cache_unfinished_req` and
`cache_finished_req` commit the tokens of a request to its branch around SGLang's
own methods of these names. What those leave of the tree is the argument `left`.
-/

namespace Agentfork.Sglang

/-- The fields of a request that the tree cache reads and writes. -/
structure Req where
  treeId : Option String
  branchId : Option String
  parentId : Option String
  branchEnd : Bool
  branchReserveTokens : Option Int
  extraKey : Option String
  treeBranchCreated : Bool
  deriving DecidableEq, Repr

/-- What `_prepare_request_update` hands over to the commit. -/
structure Prepared (τ : Type) where
  branchId : String
  br : AgentBranch τ
  key : RadixKey τ
  hit : Nat
  charged : Int

namespace TreeRadixCache

variable {τ : Type} [DecidableEq τ] (radix : RadixCache τ)

def reset (cache : TreeRadixCache τ) : TreeRadixCache τ :=
  { cache with tree := .empty, branches := .empty, telemetry := .empty }

def prefixMessage (branchId : String) : String :=
  s!"request for branch {branchId} does not extend its " ++ "committed token prefix"

def prepareRequestUpdate (cache : TreeRadixCache τ) (branchId : String) (tokenIds : List τ) :
    Except TreeError (Prepared τ) × TreeRadixCache τ :=
  match cache.branches.get? branchId with
  | none => (.error (.keyError branchId), cache)
  | some br =>
    let candidate := radix.pageAligned cache.pageSize tokenIds
    let committed := br.tokenIds
    if candidate.length < committed.length ∨ candidate.take committed.length ≠ committed then
      (.error (.valueError (prefixMessage br.branchId)), cache)
    else
      let key : RadixKey τ := ⟨candidate, br.ns⟩
      let (tree, res) := radix.matchPrefix cache.tree key
      let cache := { cache with tree := tree }
      let charged : Int := candidate.length - max res.deviceIndices committed.length
      if charged < 0 then
        (.error (.valueError s!"request for branch {br.branchId} produced negative charge"), cache)
      else
        match cache.validateCharge br charged with
        | .error raised => (.error raised, cache)
        | .ok () => (.ok ⟨branchId, br, key, res.deviceIndices, charged⟩, cache)

def cachedMessage (branchId : String) (found wanted : Nat) : String :=
  s!"tree branch {branchId} cached {found} " ++ s!"of {wanted} committed tokens"

def commitRequestUpdate (cache : TreeRadixCache τ) (prepared : Prepared τ) :
    Except TreeError Unit × TreeRadixCache τ :=
  let br := prepared.br
  let (tree, res) := radix.matchPrefix cache.tree prepared.key
  let cache := { cache with tree := tree }
  if res.deviceIndices ≠ prepared.key.tokenIds.length then
    (.error (.runtimeError
      (cachedMessage br.branchId res.deviceIndices prepared.key.tokenIds.length)), cache)
  else
    match cache.charge prepared.branchId br prepared.charged with
    | .error raised => (.error raised, cache)
    | .ok (br, cache) =>
      let oldLen := br.tokenIds.length
      let cache := cache.updateTelemetry br.ns fun tel =>
        { tel with savedTokens := tel.savedTokens + max ((prepared.hit : Int) - oldLen) 0 }
      let tree := movePin radix cache.tree br res.lastDeviceNode
      let cache := ({ cache with tree := tree }).setBranch prepared.branchId { br with
        tokenIds := prepared.key.tokenIds
        lockedNode := some res.lastDeviceNode
        speculative := false }
      (.ok (), cache.refreshPinnedTokens br.ns)

/-- `prepared` is `None` for a request outside every branch and for one whose
tokens are not inserted. -/
def commitRequest (cache : TreeRadixCache τ) (branchId : Option String) (isInsert : Bool)
    (tokenIds : List τ) (left : Tree τ) : Except TreeError Unit × TreeRadixCache τ :=
  match branchId, isInsert with
  | some branchId, true =>
    match prepareRequestUpdate radix cache branchId tokenIds with
    | (.error raised, cache) => (.error raised, cache)
    | (.ok prepared, cache) => commitRequestUpdate radix { cache with tree := left } prepared
  | _, _ => (.ok (), { cache with tree := left })

def cacheUnfinishedReq (cache : TreeRadixCache τ) (req : Req) (fillIds : List τ) (left : Tree τ) :
    Except TreeError Unit × TreeRadixCache τ :=
  commitRequest radix cache req.branchId true fillIds left

/-- `tokenIds` are the prompt and the output of the request, of which
`kvLenToHandle` have been computed. -/
def cacheFinishedReq (cache : TreeRadixCache τ) (req : Req) (isInsert : Bool) (tokenIds : List τ)
    (kvLenToHandle : Nat) (left : Tree τ) : Except TreeError Unit × TreeRadixCache τ :=
  match commitRequest radix cache req.branchId isInsert (tokenIds.take kvLenToHandle) left with
  | (.error raised, cache) => (.error raised, cache)
  | (.ok (), cache) =>
    match req.branchId with
    | some branchId => (.ok (), if req.branchEnd then (killTree radix cache branchId).2 else cache)
    | none => (.ok (), cache)

end TreeRadixCache

/-! ## The lifecycle of a request -/

namespace TreeCacheLifecycle

variable {τ : Type} [DecidableEq τ] (radix : RadixCache τ)

open TreeRadixCache

def namespaceOf (treeId extraKey : Option String) (branchId : String) : String :=
  let ns := orElse treeId branchId
  match extraKey with
  | some key => if key = "" then ns else s!"{ns}:{key}"
  | none => ns

def belongsMessage (kind name treeNs ns : String) : String :=
  s!"{kind} {name} belongs to tree {treeNs}, " ++ s!"not {ns}"

def parentMessage (branchId : String) (actual : Option String) (wanted : String) : String :=
  let shown := actual.getD "None"
  s!"branch {branchId} has parent {shown}, " ++ s!"not {wanted}"

/-- Find, create or fork the branch; the result tells whether it is new. -/
def openBranch (cache : TreeRadixCache τ) (branchId : String) (parentId : Option String) (ns : String) :
    Except TreeError Bool × TreeRadixCache τ :=
  match cache.branches.get? branchId with
  | some branch =>
    if branch.ns ≠ ns then (.error (.valueError (belongsMessage "branch" branchId branch.ns ns)), cache)
    else
      match parentId with
      | some wanted =>
        if branch.parentId ≠ some wanted then
          (.error (.valueError (parentMessage branchId branch.parentId wanted)), cache)
        else (.ok false, cache)
      | none => (.ok false, cache)
  | none =>
    match parentId with
    | none => Prod.map (Except.map fun _ => true) id (cache.createAgentTree branchId (some ns))
    | some parentId =>
      match cache.branches.get? parentId with
      | none => (.error (.keyError parentId), cache)
      | some parent =>
        if parent.ns ≠ ns then (.error (.valueError (belongsMessage "parent" parentId parent.ns ns)), cache)
        else Prod.map (Except.map fun _ => true) id (forkBranch radix cache parentId (some branchId))

/-- `if req.branch_reserve_tokens:` 0 and none reserve nothing. -/
def reserveFor (cache : TreeRadixCache τ) (branchId : String) (tokens : Option Int) :
    Except TreeError Unit × TreeRadixCache τ :=
  match tokens with
  | some numTokens => if numTokens = 0 then (.ok (), cache) else cache.reserve branchId numTokens
  | none => (.ok (), cache)

/-- The error a request is turned down with, the request and the cache. -/
def prepareRequest (cache : TreeRadixCache τ) (req : Req) : Option TreeError × Req × TreeRadixCache τ :=
  match req.branchId with
  | none => (none, req, cache)
  | some branchId =>
    let ns := namespaceOf req.treeId req.extraKey branchId
    match openBranch radix cache branchId req.parentId ns with
    | (.error raised, cache) => (some raised, { req with branchId := none }, cache)
    | (.ok created, cache) =>
      let req := { req with extraKey := some ns, treeBranchCreated := created }
      match reserveFor cache branchId req.branchReserveTokens with
      | (.ok (), cache) => (none, req, cache)
      | (.error raised, cache) =>
        (some raised, { req with branchId := none },
          if created then (killTree radix cache branchId).2 else cache)

def abortRequest (cache : TreeRadixCache τ) (req : Req) : TreeRadixCache τ :=
  match req.branchId with
  | some branchId => if req.treeBranchCreated then (killTree radix cache branchId).2 else cache
  | none => cache

/-- `TreeCacheOpReqInput`, its operation with the fields that the operation reads. -/
inductive ControlOp where
  | create (branchId : String) (treeId : Option String)
  | fork (branchId : String) (parentId : Option String)
  | kill (branchId : String)
  | reserve (branchId : String) (tokens : Option Int)
  | demote (branchId : String)
  | promote (branchId : String)
  | invalidate (branchId : String)
  | telemetry (branchId : String)
  | other (operation : String)
  deriving DecidableEq, Repr

/-- The `value` of a `TreeCacheOpReqOutput`. -/
inductive ControlValue where
  | nothing
  | tokens (count : Nat)
  | telemetry (tel : TreeTelemetry)
  deriving DecidableEq, Repr

def handle (cache : TreeRadixCache τ) : ControlOp → Except TreeError ControlValue × TreeRadixCache τ
  | .create branchId treeId =>
    Prod.map (Except.map fun _ => .nothing) id (cache.createAgentTree branchId (some (orElse treeId branchId)))
  | .fork branchId parentId =>
    match parentId with
    | none => (.error (.valueError "parent_id is required for fork"), cache)
    | some parentId =>
      Prod.map (Except.map fun _ => .nothing) id (forkBranch radix cache parentId (some branchId))
  | .kill branchId => Prod.map (fun delta => .ok (.tokens delta)) id (killTree radix cache branchId)
  | .reserve branchId tokens =>
    match tokens with
    | none => (.error (.valueError "tokens is required for reserve"), cache)
    | some numTokens => Prod.map (Except.map fun _ => .nothing) id (cache.reserve branchId numTokens)
  | .demote branchId => Prod.map (Except.map .tokens) id (demoteBranch radix cache branchId)
  | .promote branchId => Prod.map (Except.map .tokens) id (promoteBranch radix cache branchId)
  | .invalidate branchId => Prod.map (Except.map .tokens) id (invalidateTree radix cache branchId)
  | .telemetry branchId =>
    match cache.branches.get? branchId with
    | none => (.error (.keyError branchId), cache)
    | some branch => (.ok (.telemetry (cache.treeTelemetry branch.ns)), cache)
  | .other operation => (.error (.valueError s!"unknown tree cache operation: {operation}"), cache)

end TreeCacheLifecycle

/-! ## The lifecycle calls methods of the cache -/

namespace TreeCacheLifecycle

variable {τ : Type} [DecidableEq τ]

open TreeRadixCache

/-- `after` is what some calls of methods make of `before`. -/
def ByMethods (radix : RadixCache τ) (before after : TreeRadixCache τ) : Prop :=
  ∃ ops : List (Op τ), ops.foldl (perform radix) before = after

variable {radix : RadixCache τ} {before middle after : TreeRadixCache τ}

theorem ByMethods.none (cache : TreeRadixCache τ) : ByMethods radix cache cache := ⟨[], rfl⟩

theorem ByMethods.one (op : Op τ) : ByMethods radix before (before.perform radix op) := ⟨[op], rfl⟩

theorem ByMethods.trans (first : ByMethods radix before middle) (second : ByMethods radix middle after) :
    ByMethods radix before after := by
  obtain ⟨ops, rfl⟩ := first
  obtain ⟨more, rfl⟩ := second
  exact ⟨ops ++ more, List.foldl_append⟩

/-- What every method preserves the lifecycle preserves. -/
theorem ByMethods.invariant {motive : TreeRadixCache τ → Prop} (methods : ByMethods radix before after)
    (initial : motive before)
    (preserved : ∀ cache (op : Op τ), motive cache → motive (cache.perform radix op)) : motive after := by
  obtain ⟨ops, rfl⟩ := methods
  induction ops generalizing before with
  | nil => exact initial
  | cons op ops inductionHypothesis => exact inductionHypothesis (preserved _ op initial)

theorem openBranch_methods (radix : RadixCache τ) (cache : TreeRadixCache τ) (branchId : String) (parentId : Option String) (ns : String) :
    ByMethods radix cache (openBranch radix cache branchId parentId ns).2 := by
  rw [openBranch.eq_def]
  split
  next =>
    split
    next => exact .none cache
    next => split <;> first | exact .none cache | (split <;> exact .none cache)
  next =>
    split
    next => exact .one (.createAgentTree branchId (some ns))
    next parent =>
      split
      next => exact .none cache
      next =>
        split
        next => exact .none cache
        next => exact .one (.forkBranch parent (some branchId))

theorem reserveFor_methods (cache : TreeRadixCache τ) (branchId : String) (tokens : Option Int) :
    ByMethods radix cache (reserveFor cache branchId tokens).2 := by
  rw [reserveFor.eq_def]
  split
  next numTokens =>
    split
    next => exact .none cache
    next => exact .one (.reserve branchId numTokens)
  next => exact .none cache

theorem prepareRequest_methods (cache : TreeRadixCache τ) (req : Req) :
    ByMethods radix cache (prepareRequest radix cache req).2.2 := by
  rw [prepareRequest]
  split
  next => exact .none cache
  next branchId _ =>
    have opened := openBranch_methods radix cache branchId req.parentId
      (namespaceOf req.treeId req.extraKey branchId)
    simp only
    split
    next outcome =>
      rw [outcome] at opened
      exact opened
    next cache' outcome =>
      rw [outcome] at opened
      have reserved := opened.trans (reserveFor_methods cache' branchId req.branchReserveTokens)
      split
      next reservation =>
        rw [reservation] at reserved
        exact reserved
      next reservation =>
        rw [reservation] at reserved
        simp only
        split
        next => exact reserved.trans (.one (.killTree branchId))
        next => exact reserved

theorem abortRequest_methods (cache : TreeRadixCache τ) (req : Req) :
    ByMethods radix cache (abortRequest radix cache req) := by
  rw [abortRequest]
  split
  next branchId _ =>
    split
    next => exact .one (.killTree branchId)
    next => exact .none cache
  next => exact .none cache

theorem handle_methods (cache : TreeRadixCache τ) (op : ControlOp) :
    ByMethods radix cache (handle radix cache op).2 := by
  cases op with
  | create branchId treeId => exact .one (.createAgentTree branchId (some (orElse treeId branchId)))
  | fork branchId parentId =>
    cases parentId with
    | none => exact .none cache
    | some parentId => exact .one (.forkBranch parentId (some branchId))
  | kill branchId => exact .one (.killTree branchId)
  | reserve branchId tokens =>
    cases tokens with
    | none => exact .none cache
    | some numTokens => exact .one (.reserve branchId numTokens)
  | demote branchId => exact .one (.demoteBranch branchId)
  | promote branchId => exact .one (.promoteBranch branchId)
  | invalidate branchId => exact .one (.invalidateTree branchId)
  | telemetry branchId =>
    rw [handle]
    split <;> exact .none cache
  | other operation => exact .none cache

end TreeCacheLifecycle

/-! ## Runs -/

/-- What callers of the cache and the scheduler call; what a request is handed
back with is a matter of its caller. -/
inductive Call (τ : Type) where
  | method (op : Op τ)
  | reset
  | cacheUnfinishedReq (req : Req) (fillIds : List τ) (left : Tree τ)
  | cacheFinishedReq (req : Req) (isInsert : Bool) (tokenIds : List τ) (kvLenToHandle : Nat) (left : Tree τ)
  | prepareRequest (req : Req)
  | abortRequest (req : Req)
  | handle (op : TreeCacheLifecycle.ControlOp)

namespace TreeRadixCache

variable {τ : Type} [DecidableEq τ]

/-- The cache after a call, whether it returns or raises. -/
def serve (radix : RadixCache τ) (cache : TreeRadixCache τ) : Call τ → TreeRadixCache τ
  | .method op => cache.perform radix op
  | .reset => cache.reset
  | .cacheUnfinishedReq req fillIds left => (cache.cacheUnfinishedReq radix req fillIds left).2
  | .cacheFinishedReq req isInsert tokenIds kvLenToHandle left =>
    (cache.cacheFinishedReq radix req isInsert tokenIds kvLenToHandle left).2
  | .prepareRequest req => (TreeCacheLifecycle.prepareRequest radix cache req).2.2
  | .abortRequest req => TreeCacheLifecycle.abortRequest radix cache req
  | .handle op => (TreeCacheLifecycle.handle radix cache op).2

def Served (radix : RadixCache τ) (before : TreeRadixCache τ) (call : Call τ) (after : TreeRadixCache τ) : Prop :=
  before.serve radix call = after

end TreeRadixCache

end Agentfork.Sglang

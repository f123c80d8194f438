import Agentfork.Library.Transition
import Agentfork.Sglang.PinSteps
import Agentfork.Sglang.QuotaRuns

/-! # A server in operation

The cache together with what SGLang itself has locked for the requests it runs.
Between and during the calls of the patch, SGLang looks up, inserts, locks,
unlocks and evicts on its own. The balance of pins holds of branches and requests
together. -/

namespace Agentfork.Sglang

open LockTree Transition TreeRadixCache

variable {τ : Type} [DecidableEq τ] {radix : RadixCache τ} {cache after : TreeRadixCache τ}
  {branchId ns : String} {br : AgentBranch τ} {locks locks' : Multiset (String × List τ)} {tree left : Tree τ}

/-- One operation of SGLang on its own cache. A request locks the node that spells
its tokens and unlocks what it has locked. -/
inductive Serving (radix : RadixCache τ) : Tree τ × Multiset (String × List τ) →
    Tree τ × Multiset (String × List τ) → Prop where
  | matchPrefix (tree : Tree τ) (locks : Multiset (String × List τ)) (key : RadixKey τ) :
      Serving radix (tree, locks) ((radix.matchPrefix tree key).1, locks)
  | insert (tree : Tree τ) (locks : Multiset (String × List τ)) (key : RadixKey τ) :
      Serving radix (tree, locks) (radix.insert tree key, locks)
  | incLockRef (tree : Tree τ) (locks : Multiset (String × List τ)) (node : NodeRef) (space : String)
      (tokens : List τ) (spells : tree.Spells node space tokens) :
      Serving radix (tree, locks) (radix.incLockRef tree node, (space, tokens) ::ₘ locks)
  | decLockRef (tree : Tree τ) (locks : Multiset (String × List τ)) (node : NodeRef) (space : String)
      (tokens : List τ) (spells : tree.Spells node space tokens) :
      Serving radix (tree, (space, tokens) ::ₘ locks) ((radix.decLockRef tree node).1, locks)
  | evict (tree : Tree τ) (locks : Multiset (String × List τ)) (count : Nat) :
      Serving radix (tree, locks) (radix.evict tree count, locks)

/-- What SGLang's own part of a commit makes of the tree and the locks; it is
skipped where the preparation raises. -/
def OwnPart (radix : RadixCache τ) (cache : TreeRadixCache τ) (branchId : Option String) (isInsert : Bool)
    (tokenIds : List τ) (left : Tree τ) (locks locks' : Multiset (String × List τ)) : Prop :=
  match branchId, isInsert with
  | some branchId, true =>
    match prepareRequestUpdate radix cache branchId tokenIds with
    | (.error _, _) => locks' = locks
    | (.ok _, cache) => Relation.ReflTransGen (Serving radix) (cache.tree, locks) (left, locks')
  | _, _ => Relation.ReflTransGen (Serving radix) (cache.tree, locks) (left, locks')

structure Server (τ : Type) where
  cache : TreeRadixCache τ
  locks : Multiset (String × List τ)

namespace Server

/-- A call, or `none` for SGLang on its own. After a reset no request runs. -/
def Step (radix : RadixCache τ) (before : Server τ) (action : Option (Call τ)) (after : Server τ) : Prop :=
  match action with
  | none => Serving radix (before.cache.tree, before.locks) (after.cache.tree, after.locks) ∧
      after.cache = { before.cache with tree := after.cache.tree }
  | some call => after.cache = before.cache.serve radix call ∧
      match call with
      | .reset => after.locks = 0
      | .cacheUnfinishedReq req fillIds left =>
        OwnPart radix before.cache req.branchId true fillIds left before.locks after.locks
      | .cacheFinishedReq req isInsert tokenIds kvLenToHandle left =>
        OwnPart radix before.cache req.branchId isInsert (tokenIds.take kvLenToHandle) left before.locks after.locks
      | .method _ | .prepareRequest _ | .abortRequest _ | .handle _ => after.locks = before.locks

def new (pageSize : Nat) (treeQuotaTokens : Option Int) : Server τ := ⟨.new pageSize treeQuotaTokens, 0⟩

end Server

/-! ## SGLang keeps the balance -/

/-- A request that locks or unlocks moves no node. -/
theorem TreeRadixCache.Balanced.relocks (balanced : Balanced locks { cache with tree := tree }) {change : Nat → Int}
    (relocks : Relocks tree left change) (counts : left.Counts (held cache.branches + locks')) :
    Balanced locks' { cache with tree := left } :=
  ⟨⟨fun branchId br found pinned =>
    Synced.anchored_relocks (balanced.synced.anchored branchId br found pinned) relocks, counts⟩, balanced.pinned⟩

theorem Serving.balanced (laws : radix.Laws) (serving : Serving radix (tree, locks) (left, locks'))
    (balanced : Balanced locks { cache with tree := tree }) : Balanced locks' { cache with tree := left } := by
  cases serving with
  | matchPrefix _ _ key => exact balanced.setTree (balanced.synced.edits (laws.match_reshapes tree key))
  | insert _ _ key => exact balanced.setTree (balanced.synced.edits (laws.insert_fills tree key))
  | evict _ _ count => exact balanced.setTree (balanced.synced.shrinks (laws.evict_shrinks tree count))
  | incLockRef _ _ node space tokens spells =>
    have relocks := laws.inc_relocks tree node space tokens spells
    have counts := balanced.synced.counts.lock spells relocks
    rw [← Multiset.add_cons] at counts
    exact balanced.relocks relocks counts
  | decLockRef _ _ node space tokens spells =>
    have relocks := laws.dec_relocks tree node space tokens spells
    have counts := balanced.synced.counts
    rw [Multiset.add_cons] at counts
    exact balanced.relocks relocks (counts.unlock spells relocks)

theorem Serving.run_balanced (laws : radix.Laws)
    (run : Relation.ReflTransGen (Serving radix) (cache.tree, locks) (left, locks'))
    (balanced : Balanced locks cache) : Balanced locks' { cache with tree := left } := by
  have along : ∀ reached : Tree τ × Multiset (String × List τ),
      Relation.ReflTransGen (Serving radix) (cache.tree, locks) reached →
        Balanced reached.2 { cache with tree := reached.1 } := by
    intro reached run
    induction run with
    | refl => exact balanced
    | tail _ serving inductionHypothesis => exact serving.balanced laws inductionHypothesis
  exact along (left, locks') run

/-! ## The calls keep the balance -/

namespace TreeRadixCache

theorem commitRequestUpdate_balanced (laws : radix.Laws) (balanced : Balanced locks cache) {prepared : Prepared τ}
    (found : cache.branches.get? prepared.branchId = some prepared.br)
    (sameNs : prepared.key.extraKey = prepared.br.ns) :
    Balanced locks (cache.commitRequestUpdate radix prepared).2 := by
  have matched : Balanced locks { cache with tree := (radix.matchPrefix cache.tree prepared.key).1 } :=
    balanced.setTree (balanced.synced.edits (laws.match_reshapes _ _))
  simp only [commitRequestUpdate]
  split
  next => exact matched
  next whole =>
    split
    next => exact matched
    next charged after outcome =>
      have paid := charge_balanced matched found outcome
      obtain ⟨rfl, rfl⟩ := charge_spec outcome
      have stored := (Dict.get?_insert cache.branches prepared.branchId prepared.branchId
        { prepared.br with reservedTokens := prepared.br.reservedTokens - fromReserve prepared.br prepared.charged }).trans
          (if_pos rfl)
      have saved := paid.updateTelemetry prepared.br.ns (fun tel => { tel with
        savedTokens := tel.savedTokens + max ((prepared.hit : Int) - prepared.br.tokenIds.length) 0 }) fun _ => rfl
      have spells := laws.match_node cache.tree prepared.key
      rw [not_not.1 whole, List.take_length, sameNs] at spells
      let moved : AgentBranch τ := { prepared.br with
        reservedTokens := prepared.br.reservedTokens - fromReserve prepared.br prepared.charged
        tokenIds := prepared.key.tokenIds
        lockedNode := some (radix.matchPrefix cache.tree prepared.key).2.lastDeviceNode
        speculative := false }
      have synced : Synced locks _ (Dict.insert _ prepared.branchId moved) :=
        movePin_synced laws saved.synced stored spells rfl rfl
      exact saved.refresh synced fun other differs =>
        carried_insert_of_ne differs (sameNs_of_found stored rfl)

/-- A commit around SGLang's own part of it. -/
theorem commitRequest_balanced (laws : radix.Laws) (balanced : Balanced locks cache) {named : Option String}
    {isInsert : Bool} {tokenIds : List τ}
    (own : OwnPart radix cache named isInsert tokenIds left locks locks') :
    Balanced locks' (cache.commitRequest radix named isInsert tokenIds left).2 := by
  match named, isInsert with
  | none, _ => exact Serving.run_balanced laws own balanced
  | some branchId, false => exact Serving.run_balanced laws own balanced
  | some branchId, true =>
    simp only [commitRequest, OwnPart] at own ⊢
    cases outcome : cache.prepareRequestUpdate radix branchId tokenIds with
    | mk result after =>
      have prepares : Balanced locks after := by
        obtain ⟨tree, looked, onlyTree⟩ := prepareRequestUpdate_tree radix cache branchId tokenIds
        rw [outcome] at onlyTree
        simp only at onlyTree
        rw [onlyTree]
        obtain rfl | ⟨key, rfl⟩ := looked
        · exact balanced
        · exact balanced.setTree (balanced.synced.edits (laws.match_reshapes cache.tree key))
      cases result with
      | error raised =>
        simp only [outcome] at own ⊢
        rwa [own]
      | ok prepared =>
        simp only [outcome] at own ⊢
        have left := Serving.run_balanced laws own prepares
        obtain ⟨rfl, found, key, -, -, rfl⟩ := prepareRequestUpdate_spec outcome
        exact commitRequestUpdate_balanced laws left found (by rw [key])

theorem cacheFinishedReq_balanced (laws : radix.Laws) (balanced : Balanced locks cache) {req : Req}
    {isInsert : Bool} {tokenIds : List τ} {kvLenToHandle : Nat}
    (own : OwnPart radix cache req.branchId isInsert (tokenIds.take kvLenToHandle) left locks locks') :
    Balanced locks' (cache.cacheFinishedReq radix req isInsert tokenIds kvLenToHandle left).2 := by
  have committed := commitRequest_balanced laws balanced own
  rw [cacheFinishedReq]
  split
  next outcome =>
    rw [outcome] at committed
    exact committed
  next outcome =>
    rw [outcome] at committed
    split
    next branchId _ =>
      simp only
      split
      next => exact killTree_balanced laws committed branchId
      next => exact committed
    next => exact committed

theorem reset_balanced (cache : TreeRadixCache τ) : Balanced 0 cache.reset := ⟨⟨nofun, nofun, nofun⟩, fun _ => rfl⟩

end TreeRadixCache

namespace Server

variable {before server : Server τ} {action : Option (Call τ)}

theorem step_balanced (laws : radix.Laws) {after : Server τ}
    (balanced : TreeRadixCache.Balanced before.locks before.cache)
    (taken : Step radix before action after) : TreeRadixCache.Balanced after.locks after.cache := by
  have methods : ∀ cache (op : Op τ), TreeRadixCache.Balanced before.locks cache →
      TreeRadixCache.Balanced before.locks (cache.perform radix op) := fun _ op balanced => perform_balanced laws balanced op
  cases action with
  | none =>
    obtain ⟨serving, same⟩ := taken
    rw [same]
    exact serving.balanced laws balanced
  | some call =>
    obtain ⟨served, locked⟩ := taken
    rw [served]
    cases call with
    | method op =>
      rw [locked]
      exact perform_balanced laws balanced op
    | reset =>
      rw [locked]
      exact reset_balanced before.cache
    | cacheUnfinishedReq req fillIds left => exact commitRequest_balanced laws balanced locked
    | cacheFinishedReq req isInsert tokenIds kvLenToHandle left =>
      exact cacheFinishedReq_balanced laws balanced locked
    | prepareRequest req =>
      rw [locked]
      exact (TreeCacheLifecycle.prepareRequest_methods before.cache req).invariant balanced methods
    | abortRequest req =>
      rw [locked]
      exact (TreeCacheLifecycle.abortRequest_methods before.cache req).invariant balanced methods
    | handle op =>
      rw [locked]
      exact (TreeCacheLifecycle.handle_methods before.cache op).invariant balanced methods

/-- The balance holds whatever the server does. -/
theorem run_balanced (laws : radix.Laws) (pageSize : Nat) (treeQuotaTokens : Option Int)
    (reached : Reachable (Step radix) always (new pageSize treeQuotaTokens) server) :
    TreeRadixCache.Balanced server.locks server.cache := by
  refine reached.invariant (motive := fun server => TreeRadixCache.Balanced server.locks server.cache)
    (new_balanced pageSize treeQuotaTokens) ?_
  exact fun _ _ _ balanced _ taken => step_balanced laws balanced taken

theorem reachable_methods (ops : List (Op τ)) (start : Server τ) :
    Reachable (Step radix) always start ⟨ops.foldl (perform radix) start.cache, start.locks⟩ := by
  induction ops generalizing start with
  | nil => exact .refl
  | cons op ops inductionHypothesis =>
    have taken : Step radix start (some (.method op)) ⟨start.cache.perform radix op, start.locks⟩ := ⟨rfl, rfl⟩
    have first : Reachable (Step radix) always start _ := .tail .refl trivial taken
    exact first.trans (inductionHypothesis _)

end Server

end Agentfork.Sglang

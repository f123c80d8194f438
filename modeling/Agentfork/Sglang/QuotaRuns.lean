import Agentfork.Library.Transition
import Agentfork.Sglang.Quota
import Agentfork.Sglang.ReferenceCache

/-! # The quota over runs

Every call keeps the books of a tree within its quota, so tokens that a branch
has reserved are there when the branch is charged, on both ways a charge is made:
`extend_tree` and the commit of a request. -/

namespace Agentfork.Sglang.TreeRadixCache

open LockTree Transition TreeCacheLifecycle

variable {τ : Type} [DecidableEq τ] {radix : RadixCache τ} {cache after : TreeRadixCache τ}
  {branchId ns : String} {br : AgentBranch τ} {quota : Int}

/-! ## Data path -/

/-- Whatever is stored back of a charged branch keeps its namespace and what is
left of its reservation. -/
theorem stored_budgeted (budgeted : Budgeted quota cache) (found : cache.branches.get? branchId = some br)
    (update : TreeTelemetry → TreeTelemetry) (charged : ∀ tel, (update tel).chargedTokens = tel.chargedTokens)
    (reserved : ∀ tel, (update tel).reservedTokens = tel.reservedTokens) (tree : Tree τ) (tokenIds : List τ)
    (lockedNode : Option NodeRef) :
    Budgeted quota ((({ cache.updateTelemetry br.ns update with tree := tree }).setBranch branchId
      { br with tokenIds := tokenIds, lockedNode := lockedNode, speculative := false }).refreshPinnedTokens
        br.ns) := by
  have counted := updateTelemetry_still cache br.ns update charged reserved br.ns
  have kept : (cache.updateTelemetry br.ns update).branches.get? branchId = some br := found
  let moved : AgentBranch τ := { br with tokenIds := tokenIds, lockedNode := lockedNode, speculative := false }
  have stored : Moves (cache.updateTelemetry br.ns update) _ br.ns 0 0 :=
    setBranch_moves kept tree (show moved.ns = br.ns from rfl) rfl
  exact budgeted.still ((counted.and_still stored).and_still (refreshPinnedTokens_moves _ br.ns br.ns))

theorem extendTree_budgeted (budgeted : Budgeted quota cache) (branchId : String) (tokenIds : List τ) :
    Budgeted quota (cache.extendTree radix branchId tokenIds).2 := by
  cases found : cache.branches.get? branchId with
  | none => simpa only [extendTree, found] using budgeted
  | some br =>
    simp only [extendTree, found]
    have matched := budgeted.still (setTree_moves cache
      (radix.matchPrefix cache.tree ⟨br.tokenIds ++ tokenIds, br.ns⟩).1 br.ns)
    split
    next => exact matched
    next charged after outcome =>
      have paid : Budgeted quota after := by
        split at outcome
        next => exact charge_budgeted matched found outcome
        next =>
          cases outcome
          exact matched
      have kept : ({ cache with tree := (radix.matchPrefix cache.tree ⟨br.tokenIds ++ tokenIds, br.ns⟩).1 } :
          TreeRadixCache τ).branches.get? branchId = some br := found
      obtain ⟨-, -, stored, -, -, -⟩ := payment_spec kept outcome
      let hit := (radix.matchPrefix cache.tree ⟨br.tokenIds ++ tokenIds, br.ns⟩).2.deviceIndices
      exact stored_budgeted paid stored (fun tel => { tel with
        savedTokens := tel.savedTokens + max ((hit : Int) - br.tokenIds.length) 0 })
        (fun _ => rfl) (fun _ => rfl) _ _ _

/-- What the commit of a request is prepared with. -/
theorem prepareRequestUpdate_spec {tokenIds : List τ} {prepared : Prepared τ}
    (outcome : cache.prepareRequestUpdate radix branchId tokenIds = (.ok prepared, after)) :
    prepared.branchId = branchId ∧ cache.branches.get? branchId = some prepared.br ∧
      prepared.key = ⟨radix.pageAligned cache.pageSize tokenIds, prepared.br.ns⟩ ∧
      prepared.hit = (radix.matchPrefix cache.tree prepared.key).2.deviceIndices ∧
      prepared.charged = prepared.key.tokenIds.length - max prepared.hit prepared.br.tokenIds.length ∧
      after = { cache with tree := (radix.matchPrefix cache.tree prepared.key).1 } := by
  cases found : cache.branches.get? branchId with
  | none => simp [prepareRequestUpdate, found] at outcome
  | some br =>
    simp only [prepareRequestUpdate, found] at outcome
    split at outcome
    next => cases outcome
    next =>
      split at outcome
      next => cases outcome
      next =>
        split at outcome
        next => cases outcome
        next =>
          cases outcome
          exact ⟨rfl, rfl, rfl, rfl, rfl, rfl⟩

/-- Preparing a commit looks up its key at most, whether it raises or not. -/
theorem prepareRequestUpdate_tree (radix : RadixCache τ) (cache : TreeRadixCache τ) (branchId : String)
    (tokenIds : List τ) : ∃ tree, (tree = cache.tree ∨ ∃ key, tree = (radix.matchPrefix cache.tree key).1) ∧
      (cache.prepareRequestUpdate radix branchId tokenIds).2 = { cache with tree := tree } := by
  cases found : cache.branches.get? branchId with
  | none =>
    simp only [prepareRequestUpdate, found]
    exact ⟨cache.tree, .inl rfl, rfl⟩
  | some br =>
    simp only [prepareRequestUpdate, found]
    split
    next => exact ⟨cache.tree, .inl rfl, rfl⟩
    next =>
      refine ⟨_, .inr ⟨⟨radix.pageAligned cache.pageSize tokenIds, br.ns⟩, rfl⟩, ?_⟩
      split
      next => rfl
      next => split <;> rfl

theorem commitRequestUpdate_budgeted (budgeted : Budgeted quota cache) {prepared : Prepared τ}
    (found : cache.branches.get? prepared.branchId = some prepared.br) :
    Budgeted quota (cache.commitRequestUpdate radix prepared).2 := by
  have matched := budgeted.still (setTree_moves cache (radix.matchPrefix cache.tree prepared.key).1 prepared.br.ns)
  simp only [commitRequestUpdate]
  split
  next => exact matched
  next =>
    split
    next => exact matched
    next charged after outcome =>
      have paid := charge_budgeted matched found outcome
      have stored : after.branches.get? prepared.branchId = some charged := by
        obtain ⟨rfl, rfl⟩ := charge_spec outcome
        exact (Dict.get?_insert _ _ _ _).trans (if_pos rfl)
      exact stored_budgeted paid stored (fun tel => { tel with
        savedTokens := tel.savedTokens + max ((prepared.hit : Int) - charged.tokenIds.length) 0 })
        (fun _ => rfl) (fun _ => rfl) _ _ _

theorem commitRequest_budgeted (radix : RadixCache τ) (budgeted : Budgeted quota cache) (branchId : Option String) (isInsert : Bool)
    (tokenIds : List τ) (left : Tree τ) :
    Budgeted quota (cache.commitRequest radix branchId isInsert tokenIds left).2 := by
  have swapped := budgeted.still (setTree_moves cache left "")
  rw [commitRequest.eq_def]
  split
  next branchId =>
    cases outcome : cache.prepareRequestUpdate radix branchId tokenIds with
    | mk result after =>
      cases result with
      | error raised =>
        obtain ⟨tree, -, onlyTree⟩ := prepareRequestUpdate_tree radix cache branchId tokenIds
        rw [outcome] at onlyTree
        simp only at onlyTree ⊢
        rw [onlyTree]
        exact budgeted.still (setTree_moves cache tree "")
      | ok prepared =>
        obtain ⟨rfl, found, -, -, -, rfl⟩ := prepareRequestUpdate_spec outcome
        exact commitRequestUpdate_budgeted swapped found
  next => exact swapped

theorem cacheFinishedReq_budgeted (budgeted : Budgeted quota cache) (req : Req) (isInsert : Bool)
    (tokenIds : List τ) (kvLenToHandle : Nat) (left : Tree τ) :
    Budgeted quota (cache.cacheFinishedReq radix req isInsert tokenIds kvLenToHandle left).2 := by
  have committed := commitRequest_budgeted radix budgeted req.branchId isInsert
    (tokenIds.take kvLenToHandle) left
  rw [cacheFinishedReq]
  split
  next outcome =>
    rw [outcome] at committed
    exact committed
  next outcome =>
    rw [outcome] at committed
    split
    next =>
      simp only
      split
      next => exact killTree_budgeted committed _
      next => exact committed
    next => exact committed

/-! ## Runs -/

theorem perform_budgeted (budgeted : Budgeted quota cache) (op : Op τ) : Budgeted quota (cache.perform radix op) := by
  cases op with
  | createAgentTree branchId ns => exact budgeted.still (createAgentTree_moves cache branchId ns "")
  | forkBranch parentId childId => exact budgeted.still (forkBranch_moves cache parentId childId "")
  | extendTree branchId tokenIds => exact extendTree_budgeted budgeted branchId tokenIds
  | reserve branchId numTokens => exact reserve_budgeted budgeted branchId numTokens
  | demoteBranch branchId => exact budgeted.still (demoteBranch_moves cache branchId "")
  | promoteBranch branchId => exact budgeted.still (promoteBranch_moves cache branchId "")
  | invalidateTree branchId => exact budgeted.still (invalidateTree_moves cache branchId "")
  | killTree branchId => exact killTree_budgeted budgeted branchId
  | matchTreePrefix branchId tokenIds => exact budgeted.still (matchTreePrefix_moves cache branchId tokenIds "")
  | evict numTokens => exact budgeted.still (setTree_moves cache (radix.evict cache.tree numTokens) "")

theorem serve_budgeted (nonneg : 0 ≤ quota) (budgeted : Budgeted quota cache) (call : Call τ) :
    Budgeted quota (cache.serve radix call) := by
  have methods : ∀ before (op : Op τ), Budgeted quota before → Budgeted quota (before.perform radix op) :=
    fun _ op budgeted => perform_budgeted budgeted op
  cases call with
  | method op => exact perform_budgeted budgeted op
  | reset => exact reset_budgeted budgeted nonneg
  | cacheUnfinishedReq req fillIds left => exact commitRequest_budgeted radix budgeted req.branchId true fillIds left
  | cacheFinishedReq req isInsert tokenIds kvLenToHandle left =>
    exact cacheFinishedReq_budgeted budgeted req isInsert tokenIds kvLenToHandle left
  | prepareRequest req => exact (prepareRequest_methods cache req).invariant budgeted methods
  | abortRequest req => exact (abortRequest_methods cache req).invariant budgeted methods
  | handle op => exact (handle_methods cache op).invariant budgeted methods

/-! ## What a reservation promises -/

/-- What an extension is charged. -/
def extendCharge (radix : RadixCache τ) (cache : TreeRadixCache τ) (br : AgentBranch τ) (tokenIds : List τ) : Int :=
  (br.tokenIds ++ tokenIds).length -
    max (radix.matchPrefix cache.tree ⟨br.tokenIds ++ tokenIds, br.ns⟩).2.deviceIndices br.tokenIds.length

/-- What the commit of a request is charged. -/
def requestCharge (radix : RadixCache τ) (cache : TreeRadixCache τ) (br : AgentBranch τ) (tokenIds : List τ) : Int :=
  (radix.pageAligned cache.pageSize tokenIds).length -
    max (radix.matchPrefix cache.tree ⟨radix.pageAligned cache.pageSize tokenIds, br.ns⟩).2.deviceIndices
      br.tokenIds.length

/-- The call was refused by the quota. -/
def QuotaExceeded {ε : Type} (outcome : Except TreeError ε) : Prop :=
  ∃ message, outcome = .error (.treeQuotaExceeded message)

/-- The call raised, and the branches and all counters are those before it. -/
def RaisesCleanly {ε : Type} (before : TreeRadixCache τ) (outcome : Except TreeError ε × TreeRadixCache τ) : Prop :=
  ∀ raised, outcome.1 = .error raised →
    outcome.2.branches = before.branches ∧ outcome.2.telemetry = before.telemetry

theorem extendTree_reserved (budgeted : Budgeted quota cache) (found : cache.branches.get? branchId = some br)
    {tokenIds : List τ} (enough : extendCharge radix cache br tokenIds ≤ br.reservedTokens) :
    ¬ QuotaExceeded (cache.extendTree radix branchId tokenIds).1 := by
  have matched := budgeted.still (setTree_moves cache
    (radix.matchPrefix cache.tree ⟨br.tokenIds ++ tokenIds, br.ns⟩).1 br.ns)
  rintro ⟨message, refused⟩
  simp only [extendTree, found] at refused
  split at refused
  next outcome =>
    split at outcome
    next =>
      obtain ⟨charged, after, granted⟩ := charge_reserved matched enough
      have impossible := outcome.symm.trans granted
      cases impossible
    next => cases outcome
  next => cases refused

theorem extendTree_raises (cache : TreeRadixCache τ) (branchId : String) (tokenIds : List τ) :
    RaisesCleanly cache (cache.extendTree radix branchId tokenIds) := by
  intro raised outcome
  cases found : cache.branches.get? branchId with
  | none => simp only [extendTree, found, and_self]
  | some br =>
    simp only [extendTree, found] at outcome ⊢
    split
    next => exact ⟨rfl, rfl⟩
    next granted =>
      rw [granted] at outcome
      cases outcome

theorem prepareRequestUpdate_reserved (budgeted : Budgeted quota cache)
    (found : cache.branches.get? branchId = some br) {tokenIds : List τ}
    (enough : requestCharge radix cache br tokenIds ≤ br.reservedTokens) :
    ¬ QuotaExceeded (cache.prepareRequestUpdate radix branchId tokenIds).1 := by
  have matched := budgeted.still (setTree_moves cache
    (radix.matchPrefix cache.tree ⟨radix.pageAligned cache.pageSize tokenIds, br.ns⟩).1 br.ns)
  rintro ⟨message, refused⟩
  simp only [prepareRequestUpdate, found] at refused
  split at refused
  next => cases refused
  next =>
    split at refused
    next => cases refused
    next =>
      split at refused
      next outcome =>
        have impossible := outcome.symm.trans (validateCharge_reserved matched enough)
        cases impossible
      next => cases refused

theorem commitRequestUpdate_reserved (budgeted : Budgeted quota cache) {prepared : Prepared τ}
    (enough : prepared.charged ≤ prepared.br.reservedTokens) :
    ¬ QuotaExceeded (cache.commitRequestUpdate radix prepared).1 := by
  have matched := budgeted.still (setTree_moves cache (radix.matchPrefix cache.tree prepared.key).1 prepared.br.ns)
  rintro ⟨message, refused⟩
  simp only [commitRequestUpdate] at refused
  split at refused
  next => cases refused
  next =>
    split at refused
    next outcome =>
      obtain ⟨charged, after, granted⟩ := charge_reserved matched enough
      have impossible := outcome.symm.trans granted
      cases impossible
    next => cases refused

/-- Both the check before SGLang's own part of a commit and the charge after it
find the tokens reserved. -/
theorem commitRequest_reserved (budgeted : Budgeted quota cache) (found : cache.branches.get? branchId = some br)
    {tokenIds : List τ} (enough : requestCharge radix cache br tokenIds ≤ br.reservedTokens) (isInsert : Bool)
    (left : Tree τ) : ¬ QuotaExceeded (cache.commitRequest radix (some branchId) isInsert tokenIds left).1 := by
  cases isInsert with
  | false => exact nofun
  | true =>
    simp only [commitRequest]
    cases outcome : cache.prepareRequestUpdate radix branchId tokenIds with
    | mk result after =>
      cases result with
      | error raised =>
        rintro ⟨message, refused⟩
        cases refused
        exact prepareRequestUpdate_reserved budgeted found enough ⟨message, by rw [outcome]⟩
      | ok prepared =>
        obtain ⟨-, isBranch, key, hit, charged, rfl⟩ := prepareRequestUpdate_spec outcome
        rw [found, Option.some_inj] at isBranch
        rw [hit, key, isBranch.symm] at charged
        refine commitRequestUpdate_reserved (budgeted.still (setTree_moves cache left "")) ?_
        rw [charged, ← isBranch]
        exact enough

theorem commitRequestUpdate_raises (cache : TreeRadixCache τ) (prepared : Prepared τ) :
    RaisesCleanly cache (cache.commitRequestUpdate radix prepared) := by
  intro raised outcome
  simp only [commitRequestUpdate] at outcome ⊢
  split
  next => exact ⟨rfl, rfl⟩
  next whole =>
    rw [if_neg whole] at outcome
    split
    next => exact ⟨rfl, rfl⟩
    next granted =>
      rw [granted] at outcome
      cases outcome

theorem commitRequest_raises (cache : TreeRadixCache τ) (branchId : Option String) (isInsert : Bool)
    (tokenIds : List τ) (left : Tree τ) :
    RaisesCleanly cache (cache.commitRequest radix branchId isInsert tokenIds left) := by
  intro raised
  rw [commitRequest.eq_def]
  split
  next branchId =>
    cases outcome : cache.prepareRequestUpdate radix branchId tokenIds with
    | mk result after =>
      cases result with
      | error _ =>
        obtain ⟨tree, -, onlyTree⟩ := prepareRequestUpdate_tree radix cache branchId tokenIds
        rw [outcome] at onlyTree
        simp only at onlyTree ⊢
        rw [onlyTree]
        exact fun _ => ⟨rfl, rfl⟩
      | ok prepared =>
        obtain ⟨-, -, -, -, -, rfl⟩ := prepareRequestUpdate_spec outcome
        exact commitRequestUpdate_raises { cache with tree := left } prepared raised
  next => exact nofun

/-- A finished request raises where its commit does. -/
theorem cacheFinishedReq_raised {req : Req} {isInsert : Bool} {tokenIds : List τ} {kvLenToHandle : Nat}
    {left : Tree τ} {raised : TreeError}
    (outcome : (cache.cacheFinishedReq radix req isInsert tokenIds kvLenToHandle left).1 = .error raised) :
    (cache.commitRequest radix req.branchId isInsert (tokenIds.take kvLenToHandle) left).1 = .error raised ∧
      (cache.cacheFinishedReq radix req isInsert tokenIds kvLenToHandle left).2 =
        (cache.commitRequest radix req.branchId isInsert (tokenIds.take kvLenToHandle) left).2 := by
  rw [cacheFinishedReq] at outcome ⊢
  split
  next committed =>
    rw [committed] at outcome ⊢
    cases outcome
    exact ⟨rfl, rfl⟩
  next committed =>
    rw [committed] at outcome
    simp only at outcome
    split at outcome <;> cases outcome

/-- The books of every namespace, and what a reservation is good for. -/
structure QuotaKept (radix : RadixCache τ) (quota : Int) (cache : TreeRadixCache τ) : Prop where
  within : ∀ ns, (cache.treeTelemetry ns).chargedTokens + (cache.treeTelemetry ns).reservedTokens ≤ quota
  reserved : ∀ ns, (cache.treeTelemetry ns).reservedTokens = outstanding cache.branches ns
  extend_reserved : ∀ branchId br tokenIds, cache.branches.get? branchId = some br →
    extendCharge radix cache br tokenIds ≤ br.reservedTokens →
      ¬ QuotaExceeded (cache.extendTree radix branchId tokenIds).1
  unfinished_reserved : ∀ (req : Req) branchId br fillIds left, req.branchId = some branchId →
    cache.branches.get? branchId = some br → requestCharge radix cache br fillIds ≤ br.reservedTokens →
      ¬ QuotaExceeded (cache.cacheUnfinishedReq radix req fillIds left).1
  finished_reserved : ∀ (req : Req) branchId br isInsert tokenIds kvLenToHandle left,
    req.branchId = some branchId → cache.branches.get? branchId = some br →
    requestCharge radix cache br (tokenIds.take kvLenToHandle) ≤ br.reservedTokens →
      ¬ QuotaExceeded (cache.cacheFinishedReq radix req isInsert tokenIds kvLenToHandle left).1
  extend_raises : ∀ branchId tokenIds, RaisesCleanly cache (cache.extendTree radix branchId tokenIds)
  unfinished_raises : ∀ req fillIds left, RaisesCleanly cache (cache.cacheUnfinishedReq radix req fillIds left)
  finished_raises : ∀ req isInsert tokenIds kvLenToHandle left,
    RaisesCleanly cache (cache.cacheFinishedReq radix req isInsert tokenIds kvLenToHandle left)

theorem Budgeted.quotaKept (budgeted : Budgeted quota cache) : QuotaKept radix quota cache where
  within := budgeted.within
  reserved := budgeted.reserved
  extend_reserved _ _ _ found enough := extendTree_reserved budgeted found enough
  unfinished_reserved req branchId br fillIds left named found enough := by
    rw [cacheUnfinishedReq, named]
    exact commitRequest_reserved budgeted found enough true left
  finished_reserved req branchId br isInsert tokenIds kvLenToHandle left named found enough := by
    rintro ⟨message, refused⟩
    have committed := (cacheFinishedReq_raised refused).1
    rw [named] at committed
    exact commitRequest_reserved budgeted found enough isInsert left ⟨message, committed⟩
  extend_raises := extendTree_raises cache
  unfinished_raises req fillIds left := commitRequest_raises cache req.branchId true fillIds left
  finished_raises req isInsert tokenIds kvLenToHandle left raised outcome := by
    obtain ⟨committed, same⟩ := cacheFinishedReq_raised outcome
    rw [same]
    exact commitRequest_raises cache req.branchId isInsert (tokenIds.take kvLenToHandle) left raised committed

/-- The quota is kept in every state of every run, whatever SGLang's own cache does. -/
theorem quota_kept (radix : RadixCache τ) (pageSize : Nat) (nonneg : 0 ≤ quota)
    (reached : Reachable (Served radix) always (new pageSize (some quota)) cache) :
    QuotaKept radix quota cache := by
  refine Budgeted.quotaKept ?_
  refine reached.invariant (motive := Budgeted quota) (new_budgeted pageSize nonneg) ?_
  intro before call after budgeted _ taken
  subst taken
  exact serve_budgeted nonneg budgeted call

/-- A request reserves for a new branch, which is forked and extended. -/
def reservingRun : List (Call Nat) :=
  [.prepareRequest ⟨none, some "a", none, false, some 4, none, false⟩, .handle (.fork "b" (some "a")),
    .method (.reserve "b" 3), .method (.extendTree "a" [1, 2, 3]), .method (.demoteBranch "a"),
    .method (.extendTree "b" [1, 5]), .method (.killTree "b")]

theorem reservingRun_quota_kept :
    QuotaKept referenceCache 8 (reservingRun.foldl (serve referenceCache) (new 1 (some 8))) :=
  quota_kept referenceCache 1 (by decide) (reachable_foldl meets_always)

end Agentfork.Sglang.TreeRadixCache

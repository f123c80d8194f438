import Agentfork.Sglang.ServerRuns

/-! # Requests that do not run

A request that is turned down, or taken back before it ran, should leave the cache
as it found it. The undo is a kill of the branch, and it happens only where the
request brought the branch in. -/

namespace Agentfork.Sglang.TreeRadixCache

open LockTree Transition TreeCacheLifecycle

variable {τ : Type} [DecidableEq τ] {radix : RadixCache τ} {cache opened after : TreeRadixCache τ}
  {branchId ns : String} {br : AgentBranch τ} {locks : Multiset (String × List τ)} {req : Req}

/-- The cache after a request that is turned down, or aborted before it ran. -/
def withdrawn (radix : RadixCache τ) (cache : TreeRadixCache τ) (req : Req) : TreeRadixCache τ :=
  match prepareRequest radix cache req with
  | (some _, _, cache) => cache
  | (none, req, cache) => abortRequest radix cache req

/-- The same branches with the same reservations, the same counters of each
namespace and the same cached tokens. -/
structure NoTrace (before after : TreeRadixCache τ) : Prop where
  branches : ∀ branchId, branchId ∈ after.branches ↔ branchId ∈ before.branches
  reservations : ∀ branchId, (after.branches.get? branchId).map AgentBranch.reservedTokens =
    (before.branches.get? branchId).map AgentBranch.reservedTokens
  live : ∀ ns, (after.treeTelemetry ns).liveBranches = (before.treeTelemetry ns).liveBranches
  reserved : ∀ ns, (after.treeTelemetry ns).reservedTokens = (before.treeTelemetry ns).reservedTokens
  charged : ∀ ns, (after.treeTelemetry ns).chargedTokens = (before.treeTelemetry ns).chargedTokens
  pinned : ∀ ns, (after.treeTelemetry ns).pinnedTokens = (before.treeTelemetry ns).pinnedTokens
  saved : ∀ ns, (after.treeTelemetry ns).savedTokens = (before.treeTelemetry ns).savedTokens
  cached : ∀ ns tokens, after.tree.Cached ns tokens ↔ before.tree.Cached ns tokens

/-- The namespace has room for the reservation that the request asks for. -/
def Grants (cache : TreeRadixCache τ) (ns : String) (tokens : Option Int) : Prop :=
  ∃ numTokens, tokens = some numTokens ∧ 0 < numTokens ∧ ∀ quota, cache.treeQuotaTokens = some quota →
    (cache.treeTelemetry ns).chargedTokens + (cache.treeTelemetry ns).reservedTokens + numTokens ≤ quota

/-- A fork of the branch starts with tokens: a live branch has some, or some of
a demoted one are still cached. -/
def Inherits (cache : TreeRadixCache τ) (parent : AgentBranch τ) : Prop :=
  ∃ shared ∈ prefixes parent.tokenIds, parent.speculative = true → cache.tree.Cached parent.ns shared

/-- The request reserves for a branch that is there already, or forks a branch
that starts with tokens, or forks under the empty name. -/
def LeavesTrace (cache : TreeRadixCache τ) (req : Req) : Prop :=
  ∃ branchId, req.branchId = some branchId ∧
    match cache.branches.get? branchId with
    | some branch => branch.ns = namespaceOf req.treeId req.extraKey branchId ∧
        (∀ wanted, req.parentId = some wanted → branch.parentId = some wanted) ∧
        Grants cache branch.ns req.branchReserveTokens
    | none => ∃ parentId parent, req.parentId = some parentId ∧ cache.branches.get? parentId = some parent ∧
        parent.ns = namespaceOf req.treeId req.extraKey branchId ∧
        if branchId = "" then s!"{parentId}/{cache.forkSeq}" ∉ cache.branches else Inherits cache parent

/-! ## The paths of a request -/

theorem withdrawn_refused {raised : TreeError} (named : req.branchId = some branchId)
    (outcome : openBranch radix cache branchId req.parentId (namespaceOf req.treeId req.extraKey branchId) =
      (.error raised, opened)) : withdrawn radix cache req = opened := by
  simp only [withdrawn, prepareRequest, named, outcome]

/-- A branch that was there is not undone. -/
theorem withdrawn_existing (named : req.branchId = some branchId)
    (outcome : openBranch radix cache branchId req.parentId (namespaceOf req.treeId req.extraKey branchId) =
      (.ok false, opened)) :
    withdrawn radix cache req = (reserveFor opened branchId req.branchReserveTokens).2 := by
  simp only [withdrawn, prepareRequest, named, outcome]
  cases reservation : reserveFor opened branchId req.branchReserveTokens with
  | mk result after =>
    cases result with
    | error raised => rfl
    | ok granted => simp [abortRequest]

/-- A branch that the request brought in is killed, whatever came after. -/
theorem withdrawn_created (named : req.branchId = some branchId)
    (outcome : openBranch radix cache branchId req.parentId (namespaceOf req.treeId req.extraKey branchId) =
      (.ok true, opened)) :
    withdrawn radix cache req =
      (killTree radix (reserveFor opened branchId req.branchReserveTokens).2 branchId).2 := by
  simp only [withdrawn, prepareRequest, named, outcome]
  cases reservation : reserveFor opened branchId req.branchReserveTokens with
  | mk result after =>
    cases result with
    | error raised => rfl
    | ok granted => simp [abortRequest]

omit [DecidableEq τ] in
/-- A reservation either changes nothing or was granted. -/
theorem reserveFor_cases (found : cache.branches.get? branchId = some br) (tokens : Option Int) :
    (¬ Grants cache br.ns tokens ∧ (reserveFor cache branchId tokens).2 = cache) ∨
      ∃ numTokens, 0 < numTokens ∧ Grants cache br.ns tokens ∧ (reserveFor cache branchId tokens).2 =
        (cache.setBranch branchId { br with reservedTokens := br.reservedTokens + numTokens }).updateTelemetry
          br.ns fun tel => { tel with reservedTokens := tel.reservedTokens + numTokens } := by
  cases tokens with
  | none => exact .inl ⟨nofun, rfl⟩
  | some numTokens =>
    rw [reserveFor]
    split
    next zero =>
      refine .inl ⟨?_, rfl⟩
      rintro ⟨_, same, positive, _⟩
      cases same
      omega
    next nonzero =>
      rw [reserve]
      split
      next negative =>
        refine .inl ⟨?_, rfl⟩
        rintro ⟨_, same, positive, _⟩
        cases same
        omega
      next nonneg =>
        simp only [found]
        split
        next exceeds =>
          refine .inl ⟨?_, rfl⟩
          rintro ⟨_, same, _, fits⟩
          cases same
          obtain ⟨quota, limit, exceeded⟩ := (Option.any_eq_true _ _).1 exceeds
          have fits := fits quota limit
          rw [decide_eq_true_eq] at exceeded
          omega
        next fits =>
          refine .inr ⟨numTokens, by omega, ⟨numTokens, rfl, by omega, fun quota limit => ?_⟩, rfl⟩
          rw [limit, Option.any_some, decide_eq_true_eq] at fits
          omega

omit [DecidableEq τ] in
theorem reserveFor_stored (found : cache.branches.get? branchId = some br) (tokens : Option Int) :
    ∃ reserved, (reserveFor cache branchId tokens).2.branches.get? branchId =
      some { br with reservedTokens := reserved } ∧ (reserveFor cache branchId tokens).2.tree = cache.tree := by
  obtain ⟨-, same⟩ | ⟨numTokens, -, -, same⟩ := reserveFor_cases found tokens
  · rw [same]
    exact ⟨br.reservedTokens, found, rfl⟩
  · rw [same]
    exact ⟨_, (Dict.get?_insert _ _ _ _).trans (if_pos rfl), rfl⟩

/-! ## The undo of a new branch -/

/-- The counters of a namespace but for the pinned tokens, which are counted anew. -/
def unpinned (cache : TreeRadixCache τ) (ns : String) : TreeTelemetry :=
  { cache.treeTelemetry ns with pinnedTokens := 0 }

omit [DecidableEq τ] in
theorem fields_of_unpinned {first second : TreeRadixCache τ} (same : first.unpinned ns = second.unpinned ns) :
    (first.treeTelemetry ns).liveBranches = (second.treeTelemetry ns).liveBranches ∧
      (first.treeTelemetry ns).reservedTokens = (second.treeTelemetry ns).reservedTokens ∧
      (first.treeTelemetry ns).chargedTokens = (second.treeTelemetry ns).chargedTokens ∧
      (first.treeTelemetry ns).savedTokens = (second.treeTelemetry ns).savedTokens := by
  simp only [unpinned, TreeTelemetry.mk.injEq] at same
  obtain ⟨live, charged, -, reserved, saved, -, -⟩ := same
  exact ⟨live, reserved, charged, saved⟩

omit [DecidableEq τ] in
theorem unpinned_update (cache : TreeRadixCache τ) (ns other : String) (update : TreeTelemetry → TreeTelemetry)
    (commutes : ∀ tel, { update tel with pinnedTokens := 0 } = update { tel with pinnedTokens := 0 }) :
    (cache.updateTelemetry ns update).unpinned other =
      if other = ns then update (cache.unpinned other) else cache.unpinned other := by
  rw [unpinned, treeTelemetry_updateTelemetry]
  split
  next same =>
    rw [same]
    exact commutes _
  next => rfl

theorem unpinned_refresh (cache : TreeRadixCache τ) (ns other : String) :
    (cache.refreshPinnedTokens ns).unpinned other = cache.unpinned other := by
  rw [unpinned, refreshPinnedTokens, treeTelemetry_updateTelemetry]
  split
  next same =>
    rw [same]
    rfl
  next => rfl

/-- A pinned branch without tokens locks no node, so its kill moves nothing. -/
theorem killTree_empty (laws : radix.Laws) (found : cache.branches.get? branchId = some br)
    (pinned : br.speculative = false) (anchored : Anchored cache.tree br) (empty : br.tokenIds = []) (ns : String)
    (tokens : List τ) : (cache.killTree radix branchId).2.tree.Cached ns tokens ↔ cache.tree.Cached ns tokens := by
  obtain ⟨relocks, delta⟩ := unlock_spec laws anchored
  have atRoot : br.lockedNode.getD .root = .root := by
    have spells := anchored_spells anchored
    rw [empty] at spells
    cases node : br.lockedNode.getD .root with
    | root => rfl
    | node id =>
      rw [node] at spells
      exact absurd rfl (path_ne_nil spells)
  have nothing : (unlock radix cache.tree br.lockedNode).2 = 0 := by
    rw [delta, atRoot, upward_root]
    rfl
  have same : cache.repin radix branchId br = cache := by
    rw [repin, if_neg (by simp [pinned])]
  simp only [killTree, found, same, release, nothing, lt_irrefl, if_false]
  exact relocks.cached_iff

/-- What a kill does to the rows of a pinned branch. -/
theorem killTree_rows (radix : RadixCache τ) (found : cache.branches.get? branchId = some br) (pinned : br.speculative = false) :
    (cache.killTree radix branchId).2.branches = cache.branches.erase branchId ∧
      ∀ other, (cache.killTree radix branchId).2.unpinned other =
        if other = br.ns then { cache.unpinned other with
          liveBranches := (cache.unpinned other).liveBranches - 1
          reservedTokens := (cache.unpinned other).reservedTokens - br.reservedTokens }
        else cache.unpinned other := by
  have same : cache.repin radix branchId br = cache := by
    rw [repin, if_neg (by simp [pinned])]
  simp only [killTree, found, same]
  refine ⟨rfl, fun other => ?_⟩
  rw [unpinned_refresh, unpinned_update]
  · rfl
  · exact fun _ => rfl

/-- A reservation and the kill of a new branch leave the rows without the branch. -/
theorem undo_rows (radix : RadixCache τ) (found : opened.branches.get? branchId = some br) (pinned : br.speculative = false)
    (zero : br.reservedTokens = 0) (tokens : Option Int) :
    let undone := (killTree radix (reserveFor opened branchId tokens).2 branchId).2
    (∀ other, undone.branches.get? other = if other = branchId then none else opened.branches.get? other) ∧
      ∀ other, undone.unpinned other = if other = br.ns then { opened.unpinned other with
        liveBranches := (opened.unpinned other).liveBranches - 1 } else opened.unpinned other := by
  intro undone
  obtain ⟨-, same⟩ | ⟨numTokens, -, -, reserved⟩ := reserveFor_cases found tokens
  · obtain ⟨branches, counters⟩ := killTree_rows radix found pinned
    simp only [undone, same]
    refine ⟨fun other => by rw [branches, Dict.get?_erase], fun other => ?_⟩
    rw [counters, zero, sub_zero]
  · let reserving : AgentBranch τ := { br with reservedTokens := br.reservedTokens + numTokens }
    have stored : (reserveFor opened branchId tokens).2.branches.get? branchId = some reserving := by
      rw [reserved]
      exact (Dict.get?_insert _ _ _ _).trans (if_pos rfl)
    obtain ⟨branches, counters⟩ := killTree_rows radix stored pinned
    refine ⟨fun other => ?_, fun other => ?_⟩
    · rw [branches, Dict.get?_erase, reserved]
      split
      next => rfl
      next differs => exact (Dict.get?_insert _ _ _ _).trans (if_neg differs)
    · rw [counters, reserved, unpinned_update]
      · change (if other = br.ns then _ else _) = _
        split
        next here =>
          simp only [reserving, zero, zero_add, add_sub_cancel_right]
          rfl
        next => rfl
      · exact fun _ => rfl

/-- Pins are counted by the rows of the branches alone. -/
theorem carried_congr {first second : Dict String (AgentBranch τ)}
    (same : ∀ branchId, first.get? branchId = second.get? branchId) (ns : String) :
    carried (held first) ns = carried (held second) ns := by
  ext shared
  simp only [mem_carried, mem_held, same]

/-- The cache with one new branch, which starts with `inherited` tokens. -/
structure Opens (before opened : TreeRadixCache τ) (branchId : String) (br : AgentBranch τ) : Prop where
  absent : before.branches.get? branchId = none
  rows : ∀ other, opened.branches.get? other = if other = branchId then some br else before.branches.get? other
  pinned : br.speculative = false
  zero : br.reservedTokens = 0
  counters : ∀ other, opened.unpinned other = if other = br.ns then { before.unpinned other with
    liveBranches := (before.unpinned other).liveBranches + 1
    savedTokens := (before.unpinned other).savedTokens + br.tokenIds.length } else before.unpinned other
  cached : br.tokenIds = [] → ∀ ns tokens, opened.tree.Cached ns tokens ↔ before.tree.Cached ns tokens

omit [DecidableEq τ] in
theorem Opens.found (opens : Opens cache opened branchId br) : opened.branches.get? branchId = some br := by
  rw [opens.rows, if_pos rfl]

/-- The undo takes a new branch back, but not the tokens it is said to have saved. -/
theorem Opens.noTrace_iff (laws : radix.Laws) (opens : Opens cache opened branchId br)
    (balanced : Balanced locks cache) (stillBalanced : Balanced locks opened) (tokens : Option Int) :
    NoTrace cache (killTree radix (reserveFor opened branchId tokens).2 branchId).2 ↔ br.tokenIds = [] := by
  obtain ⟨rows, counters⟩ := undo_rows radix opens.found opens.pinned opens.zero tokens
  constructor
  · intro noTrace
    have saved := noTrace.saved br.ns
    have counted := congrArg TreeTelemetry.savedTokens (counters br.ns)
    rw [if_pos rfl, opens.counters, if_pos rfl] at counted
    change _ = (cache.treeTelemetry br.ns).savedTokens + br.tokenIds.length at counted
    change ((killTree radix (reserveFor opened branchId tokens).2 branchId).2.treeTelemetry br.ns).savedTokens = _
      at counted
    rw [saved] at counted
    exact List.length_eq_zero_iff.1 (by omega)
  · intro empty
    have back : ∀ other, (killTree radix (reserveFor opened branchId tokens).2 branchId).2.branches.get? other =
        cache.branches.get? other := by
      intro other
      rw [rows, opens.rows]
      split
      next same => rw [same, opens.absent]
      next => rfl
    have same : ∀ other, (killTree radix (reserveFor opened branchId tokens).2 branchId).2.unpinned other =
        cache.unpinned other := by
      intro other
      rw [counters, opens.counters]
      split
      next =>
        simp only [empty, List.length_nil, Nat.cast_zero, add_zero, add_sub_cancel_right]
      next => rfl
    have reserves : Balanced locks (reserveFor opened branchId tokens).2 :=
      (reserveFor_methods opened branchId tokens).invariant stillBalanced fun _ op balanced =>
        perform_balanced laws balanced op
    have undone := killTree_balanced laws reserves branchId
    obtain ⟨reserved, stored, sameTree⟩ := reserveFor_stored opens.found tokens
    have anchored := reserves.synced.anchored branchId _ stored opens.pinned
    refine ⟨fun other => ?_, fun other => ?_, fun other => ?_, fun other => ?_, fun other => ?_, fun other => ?_,
      fun other => ?_, fun other shared => ?_⟩
    · rw [Dict.mem_iff_get?, Dict.mem_iff_get?, back]
    · rw [back]
    · exact (fields_of_unpinned (same other)).1
    · exact (fields_of_unpinned (same other)).2.1
    · exact (fields_of_unpinned (same other)).2.2.1
    · -- pins are counted from the rows, and those are back
      refine (undone.pinned other).trans ((balanced.pinned other).trans ?_).symm
      rw [carried_congr back]
    · exact (fields_of_unpinned (same other)).2.2.2
    · rw [killTree_empty laws stored opens.pinned anchored empty, sameTree, opens.cached empty]

/-! ## New branches -/

omit [DecidableEq τ] in
theorem createAgentTree_opens (absent : branchId ∉ cache.branches) (given : String) :
    cache.createAgentTree branchId (some given) = (.ok ⟨branchId, orElse (some given) branchId, none, 0, [], none,
      0, false⟩, (cache.createAgentTree branchId (some given)).2) ∧
      Opens cache (cache.createAgentTree branchId (some given)).2 branchId
        ⟨branchId, orElse (some given) branchId, none, 0, [], none, 0, false⟩ := by
  rw [createAgentTree, if_neg absent]
  refine ⟨rfl, Dict.get?_eq_none.2 absent, fun other => Dict.get?_insert _ _ _ _, rfl, rfl, fun other => ?_,
    fun _ _ _ => Iff.rfl⟩
  rw [unpinned_update]
  · simp only [List.length_nil, Nat.cast_zero, add_zero]
    rfl
  · exact fun _ => rfl

/-- What a fork starts with: the tokens of a live branch, the cached ones of a
demoted branch. -/
theorem forkPin_inherits (laws : radix.Laws) (parent : AgentBranch τ) :
    (cache.forkPin radix parent).2.1 = [] ↔ ¬ Inherits cache parent := by
  cases demoted : parent.speculative with
  | true =>
    let key : RadixKey τ := ⟨parent.tokenIds, parent.ns⟩
    let hit := (radix.matchPrefix cache.tree key).2.deviceIndices
    have bound : hit ≤ parent.tokenIds.length := laws.match_bound cache.tree key
    rw [forkPin, if_pos demoted]
    change parent.tokenIds.take hit = [] ↔ _
    constructor
    · rintro empty ⟨shared, member, cached⟩
      obtain ⟨nonempty, isPrefix⟩ := mem_prefixes.1 member
      have longest := (laws.match_longest cache.tree key shared.length (List.length_pos_of_ne_nil nonempty)
        isPrefix.length_le).1 (by
          rw [← List.prefix_iff_eq_take.1 isPrefix]
          exact cached demoted)
      have lengths := congrArg List.length empty
      rw [List.length_take, List.length_nil] at lengths
      have positive := List.length_pos_of_ne_nil nonempty
      change shared.length ≤ hit at longest
      omega
    · intro nothing
      by_contra nonempty
      refine nothing ⟨parent.tokenIds.take hit, mem_prefixes.2 ⟨nonempty, List.take_prefix _ _⟩, fun _ => ?_⟩
      refine (laws.match_longest cache.tree key hit ?_ bound).2 le_rfl
      refine Nat.pos_of_ne_zero fun zero => nonempty ?_
      rw [zero, List.take_zero]
  | false =>
    have same : (cache.forkPin radix parent).2.1 = parent.tokenIds := by
      rw [forkPin, if_neg (by simp [demoted])]
      cases parent.lockedNode <;> rfl
    rw [same]
    constructor
    · rintro empty ⟨shared, member, _⟩
      obtain ⟨nonempty, isPrefix⟩ := mem_prefixes.1 member
      rw [empty] at isPrefix
      exact nonempty (List.prefix_nil.1 isPrefix)
    · intro nothing
      by_contra nonempty
      refine nothing ⟨parent.tokenIds, mem_prefixes.2 ⟨nonempty, List.prefix_rfl⟩, fun impossible => ?_⟩
      rw [demoted] at impossible
      cases impossible

theorem forkBranch_opens (laws : radix.Laws) (synced : Synced locks cache.tree cache.branches) {parentId : String}
    {parent : AgentBranch τ} (found : cache.branches.get? parentId = some parent) {childId : Option String}
    {child : String} (named : orElse childId s!"{parentId}/{cache.forkSeq}" = child)
    (absent : child ∉ cache.branches) :
    ∃ br opened, br.tokenIds = (cache.forkPin radix parent).2.1 ∧
      cache.forkBranch radix parentId childId = (.ok br, opened) ∧ Opens cache opened child br := by
  simp only [forkBranch, found, named, if_neg absent]
  refine ⟨_, _, rfl, rfl, Dict.get?_eq_none.2 absent, fun other => Dict.get?_insert _ _ _ _, rfl, rfl,
    fun other => ?_, fun _ ns tokens => forkPin_cached laws synced found ns tokens⟩
  rw [unpinned_update, unpinned_refresh, unpinned_update]
  · split
    next => rfl
    next => rfl
  · exact fun _ => rfl
  · exact fun _ => rfl

/-! ## Every request -/

omit [DecidableEq τ] in
theorem NoTrace.refl (cache : TreeRadixCache τ) : NoTrace cache cache :=
  ⟨fun _ => Iff.rfl, fun _ => rfl, fun _ => rfl, fun _ => rfl, fun _ => rfl, fun _ => rfl, fun _ => rfl,
    fun _ _ => Iff.rfl⟩

omit [DecidableEq τ] in
/-- A branch that was there keeps what the request has reserved for it. -/
theorem reserveFor_noTrace_iff (found : cache.branches.get? branchId = some br) (tokens : Option Int) :
    NoTrace cache (reserveFor cache branchId tokens).2 ↔ ¬ Grants cache br.ns tokens := by
  obtain ⟨refused, same⟩ | ⟨numTokens, positive, granted, reserved⟩ := reserveFor_cases found tokens
  · rw [same]
    exact iff_of_true (.refl cache) refused
  · refine iff_of_false (fun noTrace => ?_) (not_not.2 granted)
    have kept := noTrace.reservations branchId
    have stored : (reserveFor cache branchId tokens).2.branches.get? branchId =
        some { br with reservedTokens := br.reservedTokens + numTokens } := by
      rw [reserved]
      exact (Dict.get?_insert _ _ _ _).trans (if_pos rfl)
    rw [stored, found, Option.map_some, Option.map_some, Option.some_inj] at kept
    change br.reservedTokens + numTokens = br.reservedTokens at kept
    omega

theorem existing_noTrace_iff (radix : RadixCache τ) (named : req.branchId = some branchId)
    (found : cache.branches.get? branchId = some br) :
    NoTrace cache (withdrawn radix cache req) ↔ ¬ LeavesTrace cache req := by
  have traces : LeavesTrace cache req ↔ br.ns = namespaceOf req.treeId req.extraKey branchId ∧
      (∀ wanted, req.parentId = some wanted → br.parentId = some wanted) ∧
      Grants cache br.ns req.branchReserveTokens := by
    simp only [LeavesTrace, named, Option.some_inj, exists_eq_left', found]
  rw [traces]
  by_cases sameNs : br.ns = namespaceOf req.treeId req.extraKey branchId
  · by_cases sameParent : ∀ wanted, req.parentId = some wanted → br.parentId = some wanted
    · have opened : openBranch radix cache branchId req.parentId (namespaceOf req.treeId req.extraKey branchId) =
          (.ok false, cache) := by
        simp only [openBranch, found, ne_eq, sameNs, not_true_eq_false, if_false]
        cases isParent : req.parentId with
        | none => rfl
        | some wanted => exact if_neg (not_not.2 (sameParent wanted isParent))
      rw [withdrawn_existing named opened, reserveFor_noTrace_iff found, and_iff_right sameNs,
        and_iff_right sameParent]
    · have refused : ∃ raised, openBranch radix cache branchId req.parentId
          (namespaceOf req.treeId req.extraKey branchId) = (.error raised, cache) := by
        simp only [openBranch, found, ne_eq, sameNs, not_true_eq_false, if_false]
        simp only [not_forall] at sameParent
        obtain ⟨wanted, isParent, differs⟩ := sameParent
        rw [isParent]
        exact ⟨_, if_pos differs⟩
      obtain ⟨raised, refused⟩ := refused
      rw [withdrawn_refused named refused]
      exact iff_of_true (.refl cache) fun both => sameParent both.2.1
  · have refused : ∃ raised, openBranch radix cache branchId req.parentId
        (namespaceOf req.treeId req.extraKey branchId) = (.error raised, cache) := by
      simp only [openBranch, found, ne_eq, sameNs, not_false_eq_true, if_true]
      exact ⟨_, rfl⟩
    obtain ⟨raised, refused⟩ := refused
    rw [withdrawn_refused named refused]
    exact iff_of_true (.refl cache) fun both => sameNs both.1

/-- A generated name is not the empty one. -/
theorem childName_ne_empty (parentId : String) (seq : Nat) : s!"{parentId}/{seq}" ≠ "" := by
  intro empty
  have lengths := congrArg String.length empty
  simp at lengths

/-- A request that forks under a name of its own. -/
theorem fork_noTrace_iff (laws : radix.Laws) (balanced : Balanced locks cache) (named : req.branchId = some branchId)
    (absent : cache.branches.get? branchId = none) {parentId : String} {parent : AgentBranch τ}
    (forks : req.parentId = some parentId) (found : cache.branches.get? parentId = some parent)
    (sameNs : parent.ns = namespaceOf req.treeId req.extraKey branchId) (nonempty : branchId ≠ "") :
    NoTrace cache (withdrawn radix cache req) ↔ ¬ Inherits cache parent := by
  have ownName : orElse (some branchId) s!"{parentId}/{cache.forkSeq}" = branchId := by
    rw [orElse, if_neg nonempty]
  obtain ⟨br, opened, tokens, forked, opens⟩ := forkBranch_opens laws balanced.synced found ownName
    (Dict.get?_eq_none.1 absent)
  have outcome : openBranch radix cache branchId req.parentId (namespaceOf req.treeId req.extraKey branchId) =
      (.ok true, opened) := by
    simp only [openBranch, absent, forks, found, ne_eq, sameNs, not_true_eq_false, if_false, forked]
    rfl
  have stillBalanced := forkBranch_balanced laws balanced parentId (some branchId)
  rw [forked] at stillBalanced
  rw [withdrawn_created named outcome, opens.noTrace_iff laws balanced stillBalanced, tokens, forkPin_inherits laws]

/-- A request that forks under the empty name gets a generated one, which it does not know. -/
theorem fork_unnamed_noTrace_iff (laws : radix.Laws) (balanced : Balanced locks cache)
    (named : req.branchId = some "") (absent : cache.branches.get? "" = none) {parentId : String}
    {parent : AgentBranch τ} (forks : req.parentId = some parentId)
    (found : cache.branches.get? parentId = some parent)
    (sameNs : parent.ns = namespaceOf req.treeId req.extraKey "") :
    NoTrace cache (withdrawn radix cache req) ↔ s!"{parentId}/{cache.forkSeq}" ∈ cache.branches := by
  by_cases taken : s!"{parentId}/{cache.forkSeq}" ∈ cache.branches
  · have refused : ∃ raised, openBranch radix cache "" req.parentId (namespaceOf req.treeId req.extraKey "") =
        (.error raised, { cache with forkSeq := cache.forkSeq + 1 }) := by
      simp only [openBranch, absent, forks, found, ne_eq, sameNs, not_true_eq_false, if_false, forkBranch, orElse,
        if_true, taken]
      exact ⟨_, rfl⟩
    obtain ⟨raised, refused⟩ := refused
    rw [withdrawn_refused named refused]
    refine iff_of_true ⟨fun _ => Iff.rfl, fun _ => rfl, fun _ => rfl, fun _ => rfl, fun _ => rfl, fun _ => rfl,
      fun _ => rfl, fun _ _ => Iff.rfl⟩ taken
  · refine iff_of_false (fun noTrace => ?_) taken
    have generated : orElse (some "") s!"{parentId}/{cache.forkSeq}" = s!"{parentId}/{cache.forkSeq}" := by
      rw [orElse, if_pos rfl]
    obtain ⟨br, opened, tokens, forked, opens⟩ := forkBranch_opens laws balanced.synced found generated taken
    have outcome : openBranch radix cache "" req.parentId (namespaceOf req.treeId req.extraKey "") =
        (.ok true, opened) := by
      simp only [openBranch, absent, forks, found, ne_eq, sameNs, not_true_eq_false, if_false, forked]
      rfl
    -- nobody knows the branch under the name of the request
    have unknown : opened.branches.get? "" = none := by
      rw [opens.rows, if_neg (Ne.symm (childName_ne_empty parentId cache.forkSeq)), absent]
    have unreserved : (reserveFor opened "" req.branchReserveTokens).2 = opened := by
      cases req.branchReserveTokens with
      | none => rfl
      | some numTokens =>
        rw [reserveFor]
        split
        next => rfl
        next =>
          rw [reserve, unknown]
          split <;> rfl
    have kept : withdrawn radix cache req = opened := by
      rw [withdrawn_created named outcome, unreserved, killTree, unknown]
    have known := (noTrace.branches s!"{parentId}/{cache.forkSeq}").1
    rw [kept, Dict.mem_iff_get?] at known
    exact taken (known ⟨br, opens.found⟩)

theorem absent_noTrace_iff (laws : radix.Laws) (balanced : Balanced locks cache) (named : req.branchId = some branchId)
    (absent : cache.branches.get? branchId = none) :
    NoTrace cache (withdrawn radix cache req) ↔ ¬ LeavesTrace cache req := by
  have traces : LeavesTrace cache req ↔ ∃ parentId parent, req.parentId = some parentId ∧
      cache.branches.get? parentId = some parent ∧ parent.ns = namespaceOf req.treeId req.extraKey branchId ∧
      if branchId = "" then s!"{parentId}/{cache.forkSeq}" ∉ cache.branches else Inherits cache parent := by
    simp only [LeavesTrace, named, Option.some_inj, exists_eq_left', absent]
  rw [traces]
  cases forks : req.parentId with
  | none =>
    obtain ⟨created, opens⟩ := createAgentTree_opens (Dict.get?_eq_none.1 absent)
      (namespaceOf req.treeId req.extraKey branchId)
    have outcome : openBranch radix cache branchId req.parentId (namespaceOf req.treeId req.extraKey branchId) =
        (.ok true, (cache.createAgentTree branchId (some (namespaceOf req.treeId req.extraKey branchId))).2) := by
      simp only [openBranch, absent, forks]
      rw [created]
      rfl
    have stillBalanced := createAgentTree_balanced balanced branchId
      (some (namespaceOf req.treeId req.extraKey branchId))
    rw [withdrawn_created named outcome, opens.noTrace_iff laws balanced stillBalanced]
    refine iff_of_true rfl ?_
    rintro ⟨_, _, ⟨⟩, _⟩
  | some parentId =>
    cases found : cache.branches.get? parentId with
    | none =>
      have refused : openBranch radix cache branchId req.parentId (namespaceOf req.treeId req.extraKey branchId) =
          (.error (.keyError parentId), cache) := by
        simp only [openBranch, absent, forks, found]
      rw [withdrawn_refused named refused]
      refine iff_of_true (.refl cache) ?_
      rintro ⟨_, parent, same, isBranch, _⟩
      cases same
      rw [found] at isBranch
      cases isBranch
    | some parent =>
      have only : (∃ wanted forked, some parentId = some wanted ∧
          cache.branches.get? wanted = some forked ∧
          forked.ns = namespaceOf req.treeId req.extraKey branchId ∧
          if branchId = "" then s!"{wanted}/{cache.forkSeq}" ∉ cache.branches else Inherits cache forked) ↔
        parent.ns = namespaceOf req.treeId req.extraKey branchId ∧
          if branchId = "" then s!"{parentId}/{cache.forkSeq}" ∉ cache.branches else Inherits cache parent := by
        simp only [Option.some_inj, exists_and_left, exists_eq_left', found]
      rw [only]
      by_cases sameNs : parent.ns = namespaceOf req.treeId req.extraKey branchId
      · rw [and_iff_right sameNs]
        split
        next unnamed =>
          subst unnamed
          rw [fork_unnamed_noTrace_iff laws balanced named absent forks found sameNs, not_not]
        next nonempty => exact fork_noTrace_iff laws balanced named absent forks found sameNs nonempty
      · have refused : ∃ raised, openBranch radix cache branchId req.parentId
            (namespaceOf req.treeId req.extraKey branchId) = (.error raised, cache) := by
          simp only [openBranch, absent, forks, found, ne_eq, sameNs, not_false_eq_true, if_true]
          exact ⟨_, rfl⟩
        obtain ⟨raised, refused⟩ := refused
        rw [withdrawn_refused named refused]
        exact iff_of_true (.refl cache) fun both => sameNs both.1

/-- A request that does not run leaves no trace exactly where it reserves nothing
for a branch of others, forks no tokens and has a name. -/
theorem withdrawn_noTrace_iff (laws : radix.Laws) (pageSize : Nat) (treeQuotaTokens : Option Int)
    {server : Server τ} (reached : Reachable (Server.Step radix) always (.new pageSize treeQuotaTokens) server)
    (req : Req) : NoTrace server.cache (withdrawn radix server.cache req) ↔ ¬ LeavesTrace server.cache req := by
  have balanced := Server.run_balanced laws pageSize treeQuotaTokens reached
  cases named : req.branchId with
  | none =>
    refine iff_of_true ?_ ?_
    · simp only [withdrawn, prepareRequest, named, abortRequest]
      exact .refl server.cache
    · rintro ⟨branchId, isNamed, _⟩
      rw [named] at isNamed
      cases isNamed
  | some branchId =>
    cases found : server.cache.branches.get? branchId with
    | some br => exact existing_noTrace_iff radix named found
    | none => exact absent_noTrace_iff laws balanced named found

/-- A branch with tokens. -/
def occupied : TreeRadixCache Nat :=
  [.createAgentTree "a" (some "t"), .extendTree "a" [1, 2]].foldl (perform referenceCache) (new 1 none)

theorem occupied_reached : Reachable (Server.Step referenceCache) always (.new 1 none) ⟨occupied, 0⟩ :=
  Server.reachable_methods [.createAgentTree "a" (some "t"), .extendTree "a" [1, 2]] (.new 1 none)

/-- A fork of the branch, under a name of its own. -/
def forkRequest : Req := ⟨some "t", some "b", some "a", false, some 4, none, false⟩

theorem forkRequest_noTrace_iff :
    NoTrace occupied (withdrawn referenceCache occupied forkRequest) ↔ ¬ LeavesTrace occupied forkRequest :=
  withdrawn_noTrace_iff referenceCache_laws 1 none occupied_reached forkRequest

/-- An aborted request of a branch that was there keeps its reservation, and an
aborted fork has saved tokens. -/
theorem aborted_requests_leave_traces :
    Reachable (Server.Step referenceCache) always (.new 1 none) ⟨occupied, 0⟩ ∧
      ¬ NoTrace occupied (withdrawn referenceCache occupied ⟨some "t", some "a", none, false, some 4, none, false⟩) ∧
      ¬ NoTrace occupied (withdrawn referenceCache occupied forkRequest) := by
  refine ⟨occupied_reached, ?_, ?_⟩
  · intro noTrace
    exact absurd (noTrace.reserved "t") (by decide)
  · intro noTrace
    exact absurd (noTrace.saved "t") (by decide)

end Agentfork.Sglang.TreeRadixCache

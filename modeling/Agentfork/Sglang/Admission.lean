import Agentfork.Sglang.BranchRows

/-! # What is left to refuse after the admission

A request that `prepare_request` has let in finds its branch in its namespace
when it completes, unless the branch has been killed since. What the completion
still checks, it checks before SGLang's own part: that the tokens extend what the
branch has committed, and that the quota bears what the branch has not reserved.
Nothing else can raise. -/

namespace Agentfork.Sglang.TreeRadixCache

open LockTree Transition TreeCacheLifecycle

variable {τ : Type} [DecidableEq τ] {radix : RadixCache τ} {cache before middle after : TreeRadixCache τ}
  {branchId ns : String} {br : AgentBranch τ}

/-! ## A branch stays in its namespace -/

/-- The branch is there afterwards, in the namespace it had. -/
def Stays (branchId : String) (before after : TreeRadixCache τ) : Prop :=
  ∀ br, before.branches.get? branchId = some br →
    ∃ later, after.branches.get? branchId = some later ∧ later.ns = br.ns

namespace Stays

omit [DecidableEq τ] in
theorem of_branches (same : after.branches = before.branches) : Stays branchId before after :=
  fun br found => ⟨br, by rw [same, found], rfl⟩

omit [DecidableEq τ] in
theorem trans (first : Stays branchId before middle) (second : Stays branchId middle after) :
    Stays branchId before after := by
  intro br found
  obtain ⟨later, foundLater, sameNs⟩ := first br found
  obtain ⟨last, foundLast, stillNs⟩ := second later foundLater
  exact ⟨last, foundLast, stillNs.trans sameNs⟩

omit [DecidableEq τ] in
/-- A branch is added. -/
theorem of_add {stored : String} (absent : before.branches.get? stored = none)
    (rows : after.branches = before.branches.insert stored br) : Stays branchId before after := by
  intro old found
  have differs : branchId ≠ stored := fun same => by
    rw [same, absent] at found
    cases found
  exact ⟨old, by rw [rows, Dict.get?_insert, if_neg differs, found], rfl⟩

end Stays

omit [DecidableEq τ] in
theorem SameRows.stays (same : SameRows before after) : Stays branchId before after := by
  intro br found
  have row : after.row branchId = some (br.ns, br.parentId) := by
    rw [same branchId, TreeRadixCache.row, found]
    rfl
  obtain ⟨later, foundLater, isRow⟩ := Option.map_eq_some_iff.1 row
  exact ⟨later, foundLater, (Prod.mk.inj isRow).1⟩

omit [DecidableEq τ] in
theorem createAgentTree_stays (cache : TreeRadixCache τ) (created : String) (given : Option String) :
    Stays branchId cache (cache.createAgentTree created given).2 := by
  rw [createAgentTree]
  split
  next => exact .of_branches rfl
  next absent => exact .of_add (Dict.get?_eq_none.2 absent) rfl

theorem forkBranch_stays (cache : TreeRadixCache τ) (parentId : String) (childId : Option String) :
    Stays branchId cache (cache.forkBranch radix parentId childId).2 := by
  cases found : cache.branches.get? parentId with
  | none =>
    simp only [forkBranch, found]
    exact .of_branches rfl
  | some parent =>
    simp only [forkBranch, found]
    split
    next => exact .of_branches rfl
    next absent => exact .of_add (Dict.get?_eq_none.2 absent) rfl

theorem killTree_stays {killed : String} (spared : branchId ≠ killed) (cache : TreeRadixCache τ) :
    Stays branchId cache (cache.killTree radix killed).2 :=
  fun br found => ⟨br, (killTree_elsewhere spared).trans found, rfl⟩

/-- Every method but the kill of the branch leaves it. -/
theorem perform_stays (cache : TreeRadixCache τ) (op : Op τ) (spared : op ≠ .killTree branchId) :
    Stays branchId cache (cache.perform radix op) := by
  cases op with
  | createAgentTree created given => exact createAgentTree_stays cache created given
  | forkBranch parentId childId => exact forkBranch_stays cache parentId childId
  | extendTree extended tokenIds => exact (extendTree_sameRows cache extended tokenIds).stays
  | reserve reserving numTokens => exact (reserve_sameRows cache reserving numTokens).stays
  | demoteBranch demoted => exact (demoteBranch_sameRows cache demoted).stays
  | promoteBranch promoted => exact (promoteBranch_sameRows cache promoted).stays
  | invalidateTree invalidated => exact (invalidateTree_sameRows cache invalidated).stays
  | killTree killed =>
    have differs : branchId ≠ killed := fun same => spared (by rw [same])
    exact killTree_stays differs cache
  | matchTreePrefix matched tokenIds => exact (matchTreePrefix_sameRows cache matched tokenIds).stays
  | evict numTokens => exact .of_branches rfl

/-! ## The request path -/

theorem openBranch_stays (cache : TreeRadixCache τ) (opened : String) (parentId : Option String) (ns : String) :
    Stays branchId cache (openBranch radix cache opened parentId ns).2 := by
  rw [openBranch.eq_def]
  split
  next =>
    split
    next => exact .of_branches rfl
    next => split <;> first | exact .of_branches rfl | (split <;> exact .of_branches rfl)
  next =>
    split
    next => exact createAgentTree_stays cache opened (some ns)
    next parent =>
      split
      next => exact .of_branches rfl
      next =>
        split
        next => exact .of_branches rfl
        next => exact forkBranch_stays cache parent (some opened)

/-- A branch that is said to be new was not there. -/
theorem openBranch_created {opened : String} {parentId : Option String}
    (outcome : openBranch radix cache opened parentId ns = (.ok true, after)) : cache.branches.get? opened = none := by
  cases found : cache.branches.get? opened with
  | none => rfl
  | some br =>
    simp only [openBranch, found] at outcome
    split at outcome
    next => cases outcome
    next =>
      cases parentId with
      | none => cases outcome
      | some wanted =>
        simp only at outcome
        split at outcome <;> cases outcome

/-- A refused request kills the branch that it has just opened and no other. -/
theorem prepareRequest_stays (cache : TreeRadixCache τ) (req : Req) :
    Stays branchId cache (prepareRequest radix cache req).2.2 := by
  rw [prepareRequest]
  split
  next => exact .of_branches rfl
  next opening named =>
    have opens : Stays branchId cache (openBranch radix cache opening req.parentId
      (namespaceOf req.treeId req.extraKey opening)).2 := openBranch_stays cache opening req.parentId _
    simp only
    split
    next raised refused outcome =>
      rw [outcome] at opens
      exact opens
    next created opened outcome =>
      rw [outcome] at opens
      have reserves : Stays branchId opened (reserveFor opened opening req.branchReserveTokens).2 :=
        (reserveFor_sameRows opened opening req.branchReserveTokens).stays
      split
      next reserved reservation =>
        rw [reservation] at reserves
        exact opens.trans reserves
      next raised reserved reservation =>
        rw [reservation] at reserves
        simp only
        split
        next isNew =>
          by_cases here : branchId = opening
          · subst here
            subst isNew
            intro br found
            have absent := openBranch_created outcome
            rw [found] at absent
            cases absent
          · exact (opens.trans reserves).trans (killTree_stays here reserved)
        next => exact opens.trans reserves

theorem handle_stays (cache : TreeRadixCache τ) (op : ControlOp) (spared : op ≠ .kill branchId) :
    Stays branchId cache (handle radix cache op).2 := by
  cases op with
  | create created treeId => exact createAgentTree_stays cache created _
  | fork forked parentId =>
    cases parentId with
    | none => exact .of_branches rfl
    | some parentId => exact forkBranch_stays cache parentId (some forked)
  | kill killed =>
    have differs : branchId ≠ killed := fun same => spared (by rw [same])
    exact killTree_stays differs cache
  | reserve reserving tokens =>
    cases tokens with
    | none => exact .of_branches rfl
    | some numTokens => exact (reserve_sameRows cache reserving numTokens).stays
  | demote demoted => exact (demoteBranch_sameRows cache demoted).stays
  | promote promoted => exact (promoteBranch_sameRows cache promoted).stays
  | invalidate invalidated => exact (invalidateTree_sameRows cache invalidated).stays
  | telemetry asked =>
    rw [handle]
    split <;> exact .of_branches rfl
  | other operation => exact .of_branches rfl

theorem cacheFinishedReq_stays (cache : TreeRadixCache τ) {req : Req}
    (spared : req.branchEnd = true → req.branchId ≠ some branchId) (isInsert : Bool) (tokenIds : List τ)
    (kvLenToHandle : Nat) (left : Tree τ) :
    Stays branchId cache (cache.cacheFinishedReq radix req isInsert tokenIds kvLenToHandle left).2 := by
  have commits : Stays branchId cache (cache.commitRequest radix req.branchId isInsert
    (tokenIds.take kvLenToHandle) left).2 := (commitRequest_sameRows cache req.branchId isInsert _ left).stays
  rw [cacheFinishedReq]
  split
  next outcome =>
    rw [outcome] at commits
    exact commits
  next committed outcome =>
    rw [outcome] at commits
    split
    next ended named =>
      simp only
      split
      next ends =>
        have differs : branchId ≠ ended := fun same => spared ends (by rw [named, same])
        exact commits.trans (killTree_stays differs committed)
      next => exact commits
    next => exact commits

/-- Nobody kills the branch: no operation, no request that ends it, no abort of
the request that opened it, and no reset. -/
def Leaves (branchId : String) (_ : Server τ) : Option (Call τ) → Prop
  | some (.method op) => op ≠ .killTree branchId
  | some (.handle op) => op ≠ .kill branchId
  | some (.cacheFinishedReq req _ _ _ _) => req.branchEnd = true → req.branchId ≠ some branchId
  | some (.abortRequest req) => req.treeBranchCreated = true → req.branchId ≠ some branchId
  | some .reset => False
  | _ => True

theorem step_stays {server later : Server τ} {action : Option (Call τ)} (leaves : Leaves branchId server action)
    (taken : Server.Step radix server action later) : Stays branchId server.cache later.cache := by
  cases action with
  | none =>
    obtain ⟨-, onlyTree⟩ := taken
    rw [onlyTree]
    exact .of_branches rfl
  | some call =>
    obtain ⟨served, -⟩ := taken
    rw [served]
    cases call with
    | method op => exact perform_stays server.cache op leaves
    | reset => exact leaves.elim
    | cacheUnfinishedReq req fillIds left =>
      exact (commitRequest_sameRows server.cache req.branchId true fillIds left).stays
    | cacheFinishedReq req isInsert tokenIds kvLenToHandle left =>
      exact cacheFinishedReq_stays server.cache leaves isInsert tokenIds kvLenToHandle left
    | prepareRequest req => exact prepareRequest_stays server.cache req
    | abortRequest req =>
      simp only [serve, abortRequest]
      split
      next aborted named =>
        split
        next created =>
          have differs : branchId ≠ aborted := fun same => leaves created (by rw [named, same])
          exact killTree_stays differs server.cache
        next => exact .of_branches rfl
      next => exact .of_branches rfl
    | handle op => exact handle_stays server.cache op leaves

theorem run_stays {server later : Server τ} (run : Reachable (Server.Step radix) (Leaves branchId) server later) :
    Stays branchId server.cache later.cache := by
  refine run.invariant (motive := fun reached => Stays branchId server.cache reached.cache) (.of_branches rfl) ?_
  exact fun _ _ _ stays leaves taken => stays.trans (step_stays leaves taken)

/-! ## The admission -/

theorem orElse_ne_empty (first : Option String) {second : String} (nonempty : second ≠ "") :
    orElse first second ≠ "" := by
  cases first with
  | none => exact nonempty
  | some given =>
    rw [orElse]
    split
    next => exact nonempty
    next differs => exact differs

theorem namespaceOf_ne_empty (treeId extraKey : Option String) (nonempty : branchId ≠ "") :
    namespaceOf treeId extraKey branchId ≠ "" := by
  have tree := orElse_ne_empty treeId nonempty
  cases extraKey with
  | none => exact tree
  | some key =>
    simp only [namespaceOf]
    split
    next => exact tree
    next filled =>
      intro empty
      have lengths := congrArg String.length empty
      simp at lengths
      exact filled lengths.2

theorem orElse_of_nonempty {given : String} (nonempty : given ≠ "") (second : String) :
    orElse (some given) second = given := if_neg nonempty

theorem openBranch_found {opened : String} {parentId : Option String} {created : Bool} (named : opened ≠ "")
    (nonempty : ns ≠ "") (outcome : openBranch radix cache opened parentId ns = (.ok created, after)) :
    ∃ br, after.branches.get? opened = some br ∧ br.ns = ns := by
  cases found : cache.branches.get? opened with
  | some br =>
    simp only [openBranch, found] at outcome
    split at outcome
    next => cases outcome
    next sameNs =>
      have unchanged : after = cache := by
        cases parentId with
        | none => exact (Prod.mk.inj outcome).2.symm
        | some wanted =>
          simp only at outcome
          split at outcome
          next => cases outcome
          next => exact (Prod.mk.inj outcome).2.symm
      exact ⟨br, by rw [unchanged, found], not_not.1 sameNs⟩
  | none =>
    have absent := Dict.get?_eq_none.1 found
    cases parentId with
    | none =>
      simp only [openBranch, found, createAgentTree, if_neg absent, orElse_of_nonempty nonempty] at outcome
      obtain ⟨-, rfl⟩ := Prod.mk.inj outcome
      exact ⟨_, (Dict.get?_insert _ _ _ _).trans (if_pos rfl), rfl⟩
    | some parentId =>
      cases foundParent : cache.branches.get? parentId with
      | none =>
        simp only [openBranch, found, foundParent] at outcome
        cases outcome
      | some parent =>
        simp only [openBranch, found, foundParent] at outcome
        split at outcome
        next => cases outcome
        next sameNs =>
          simp only [forkBranch, foundParent, orElse_of_nonempty named, if_neg absent] at outcome
          obtain ⟨-, rfl⟩ := Prod.mk.inj outcome
          exact ⟨_, (Dict.get?_insert _ _ _ _).trans (if_pos rfl), not_not.1 sameNs⟩

/-- An admitted request has its branch, in the namespace that it goes on with. -/
theorem prepareRequest_admitted {req : Req} (named : req.branchId = some branchId) (nonempty : branchId ≠ "")
    (admitted : (prepareRequest radix cache req).1 = none) :
    ∃ br, (prepareRequest radix cache req).2.2.branches.get? branchId = some br ∧
      (prepareRequest radix cache req).2.1.extraKey = some br.ns := by
  simp only [prepareRequest, named] at admitted ⊢
  split at admitted
  next => cases admitted
  next created opened outcome =>
    obtain ⟨br, found, sameNs⟩ := openBranch_found nonempty (namespaceOf_ne_empty _ _ nonempty) outcome
    have stays : Stays branchId opened (reserveFor opened branchId req.branchReserveTokens).2 :=
      (reserveFor_sameRows opened branchId req.branchReserveTokens).stays
    obtain ⟨later, foundLater, stillNs⟩ := stays br found
    split at admitted
    next reserved reservation =>
      rw [reservation] at foundLater
      exact ⟨later, foundLater, by rw [stillNs, sameNs]⟩
    next => cases admitted

/-! ## The completion -/

/-- The whole pages of the tokens extend what the branch has committed. -/
def ExtendsCommitted (radix : RadixCache τ) (cache : TreeRadixCache τ) (br : AgentBranch τ) (tokenIds : List τ) : Prop :=
  br.tokenIds <+: radix.pageAligned cache.pageSize tokenIds

/-- The quota bears what is neither cached nor reserved. -/
def Affordable (radix : RadixCache τ) (cache : TreeRadixCache τ) (br : AgentBranch τ) (tokenIds : List τ) : Prop :=
  let charge := requestCharge radix cache br tokenIds
  ∀ quota, cache.treeQuotaTokens = some quota →
    cache.chargedTokens br.ns + cache.reservedTokens br.ns + (charge - fromReserve br charge) ≤ quota

/-- How the commit of a request to its branch ends. -/
structure CommitEnds (radix : RadixCache τ) (cache : TreeRadixCache τ) (br : AgentBranch τ) (tokenIds : List τ)
    (outcome : Except TreeError Unit) : Prop where
  returns : ExtendsCommitted radix cache br tokenIds → Affordable radix cache br tokenIds → outcome = .ok ()
  prefix_refused : ¬ ExtendsCommitted radix cache br tokenIds → outcome = .error (.valueError (prefixMessage br.branchId))
  quota_refused : ExtendsCommitted radix cache br tokenIds → ¬ Affordable radix cache br tokenIds → QuotaExceeded outcome

/-- SGLang's own part has cached the whole pages of the tokens. -/
def OwnCaches (radix : RadixCache τ) (cache : TreeRadixCache τ) (left : Tree τ) (ns : String) (tokenIds : List τ) : Prop :=
  radix.pageAligned cache.pageSize tokenIds = [] ∨ left.Cached ns (radix.pageAligned cache.pageSize tokenIds)

omit [DecidableEq τ] in
theorem validateCharge_ok_iff {tokens : Int} : cache.validateCharge br tokens = .ok () ↔
    ∀ quota, cache.treeQuotaTokens = some quota →
      cache.chargedTokens br.ns + cache.reservedTokens br.ns + (tokens - fromReserve br tokens) ≤ quota := by
  cases limit : cache.treeQuotaTokens with
  | none => simp only [validateCharge, limit, reduceCtorEq, false_implies, implies_true]
  | some quota =>
    rw [validateCharge_eq_ok limit]
    constructor
    · intro fits other same
      cases same
      exact fits
    · exact fun fits => fits quota rfl

omit [DecidableEq τ] in
theorem validateCharge_error {tokens : Int} {raised : TreeError}
    (outcome : cache.validateCharge br tokens = .error raised) : ∃ message, raised = .treeQuotaExceeded message := by
  simp only [validateCharge] at outcome
  split at outcome
  next => cases outcome
  next =>
    split at outcome
    next =>
      cases outcome
      exact ⟨_, rfl⟩
    next => cases outcome

omit [DecidableEq τ] in
/-- The code's two tests say that the committed tokens are a prefix. -/
theorem prefix_tests {committed candidate : List τ} :
    (candidate.length < committed.length ∨ candidate.take committed.length ≠ committed) ↔
      ¬ committed <+: candidate := by
  rw [List.prefix_iff_eq_take, ← not_le, ← not_and_or, not_iff_not]
  constructor
  · exact fun both => both.2.symm
  · intro same
    refine ⟨?_, same.symm⟩
    rw [same]
    exact List.length_take_le' _ _

theorem commitRequestUpdate_ok (laws : radix.Laws) {prepared : Prepared τ}
    (whole : prepared.key.tokenIds = [] ∨ cache.tree.Cached prepared.key.extraKey prepared.key.tokenIds)
    (valid : cache.validateCharge prepared.br prepared.charged = .ok ()) :
    (cache.commitRequestUpdate radix prepared).1 = .ok () := by
  have found := match_whole laws prepared.key whole
  have stillValid : TreeRadixCache.validateCharge { cache with tree := (radix.matchPrefix cache.tree prepared.key).1 }
      prepared.br prepared.charged = .ok () := valid
  simp only [commitRequestUpdate, found, ne_eq, not_true_eq_false, if_false, charge, stillValid]

/-- Where the tokens extend what is committed, the quota alone decides. -/
theorem prepareRequestUpdate_extended (laws : radix.Laws) (found : cache.branches.get? branchId = some br)
    {tokenIds : List τ} (extended : ExtendsCommitted radix cache br tokenIds) :
    let key : RadixKey τ := ⟨radix.pageAligned cache.pageSize tokenIds, br.ns⟩
    let matched : TreeRadixCache τ := { cache with tree := (radix.matchPrefix cache.tree key).1 }
    cache.prepareRequestUpdate radix branchId tokenIds =
      match cache.validateCharge br (requestCharge radix cache br tokenIds) with
      | .error raised => (.error raised, matched)
      | .ok () => (.ok ⟨branchId, br, key, (radix.matchPrefix cache.tree key).2.deviceIndices,
          requestCharge radix cache br tokenIds⟩, matched) := by
  intro key matched
  have passes := fun tests => prefix_tests.1 tests extended
  have bound : (radix.matchPrefix cache.tree key).2.deviceIndices ≤ key.tokenIds.length := laws.match_bound _ _
  have longer : br.tokenIds.length ≤ key.tokenIds.length := extended.length_le
  have charged : ¬ requestCharge radix cache br tokenIds < 0 := by
    have most : max (radix.matchPrefix cache.tree key).2.deviceIndices br.tokenIds.length ≤ key.tokenIds.length :=
      max_le bound longer
    change ¬ ((key.tokenIds.length : Int) -
      (max (radix.matchPrefix cache.tree key).2.deviceIndices br.tokenIds.length : Nat) < 0)
    omega
  simp only [prepareRequestUpdate, found, if_neg passes]
  exact if_neg charged

theorem commitRequest_ends (laws : radix.Laws) (found : cache.branches.get? branchId = some br) {tokenIds : List τ}
    {left : Tree τ} (own : OwnCaches radix cache left br.ns tokenIds) :
    CommitEnds radix cache br tokenIds (cache.commitRequest radix (some branchId) true tokenIds left).1 := by
  by_cases extended : ExtendsCommitted radix cache br tokenIds
  · have prepared := prepareRequestUpdate_extended laws found extended
    cases valid : cache.validateCharge br (requestCharge radix cache br tokenIds) with
    | error raised =>
      simp only [valid] at prepared
      obtain ⟨message, rfl⟩ := validateCharge_error valid
      refine ⟨fun _ affordable => ?_, fun refused => absurd extended refused, fun _ _ => ⟨message, ?_⟩⟩
      · rw [validateCharge_ok_iff.2 affordable] at valid
        cases valid
      · simp only [commitRequest, prepared]
    | ok _ =>
      simp only [valid] at prepared
      have returns : (cache.commitRequest radix (some branchId) true tokenIds left).1 = .ok () := by
        simp only [commitRequest, prepared]
        exact commitRequestUpdate_ok laws own valid
      exact ⟨fun _ _ => returns, fun refused => absurd extended refused,
        fun _ dear => absurd (validateCharge_ok_iff.1 valid) dear⟩
  · have tests := prefix_tests.2 extended
    have refused : (cache.commitRequest radix (some branchId) true tokenIds left).1 =
        .error (.valueError (prefixMessage br.branchId)) := by
      simp only [commitRequest, prepareRequestUpdate, found, if_pos tests]
    exact ⟨fun extending => absurd extending extended, fun _ => refused, fun extending => absurd extending extended⟩

theorem cacheFinishedReq_outcome (cache : TreeRadixCache τ) (req : Req) (isInsert : Bool) (tokenIds : List τ)
    (kvLenToHandle : Nat) (left : Tree τ) : (cache.cacheFinishedReq radix req isInsert tokenIds kvLenToHandle left).1 =
      (cache.commitRequest radix req.branchId isInsert (tokenIds.take kvLenToHandle) left).1 := by
  rw [cacheFinishedReq]
  split
  next outcome => rw [outcome]
  next outcome =>
    rw [outcome]
    split <;> rfl

/-- How the completions of a request end, chunk by chunk and at its finish. -/
structure CompletionsEnd (radix : RadixCache τ) (cache : TreeRadixCache τ) (br : AgentBranch τ) (req : Req) : Prop where
  unfinished : ∀ fillIds left, OwnCaches radix cache left br.ns fillIds →
    CommitEnds radix cache br fillIds (cache.cacheUnfinishedReq radix req fillIds left).1
  finished : ∀ tokenIds kvLenToHandle left, OwnCaches radix cache left br.ns (tokenIds.take kvLenToHandle) →
    CommitEnds radix cache br (tokenIds.take kvLenToHandle)
      (cache.cacheFinishedReq radix req true tokenIds kvLenToHandle left).1
  skipped : ∀ tokenIds kvLenToHandle left,
    (cache.cacheFinishedReq radix req false tokenIds kvLenToHandle left).1 = .ok ()

/-- Whatever happens after the admission, as long as nobody kills the branch the
completions of the request find it in the namespace the request goes on with, and
raise where the tokens do not extend what the branch has committed or the quota
does not bear them, and nowhere else. -/
theorem admitted_completions_end (laws : radix.Laws) (admitting : Server τ) {server : Server τ} {req done : Req}
    (named : req.branchId = some branchId) (nonempty : branchId ≠ "")
    (admitted : (prepareRequest radix admitting.cache req).1 = none) (sameBranch : done.branchId = some branchId)
    (later : Reachable (Server.Step radix) (Leaves branchId)
      ⟨(prepareRequest radix admitting.cache req).2.2, admitting.locks⟩ server) :
    ∃ br, server.cache.branches.get? branchId = some br ∧
      (prepareRequest radix admitting.cache req).2.1.extraKey = some br.ns ∧
      CompletionsEnd radix server.cache br done := by
  obtain ⟨first, foundFirst, extraKey⟩ := prepareRequest_admitted named nonempty admitted
  obtain ⟨br, found, sameNs⟩ := run_stays later first foundFirst
  refine ⟨br, found, by rw [extraKey, sameNs], fun fillIds left own => ?_, fun tokenIds kvLenToHandle left own => ?_,
    fun tokenIds kvLenToHandle left => ?_⟩
  · rw [cacheUnfinishedReq, sameBranch]
    exact commitRequest_ends laws found own
  · rw [cacheFinishedReq_outcome, sameBranch]
    exact commitRequest_ends laws found own
  · rw [cacheFinishedReq_outcome, sameBranch]
    rfl

/-- A request for the branch "a". -/
def requestA : Req := ⟨some "t", some "a", none, false, none, none, false⟩

/-- The cache once the request is in, and once its branch has tokens. -/
def admittedA (quota : Option Int) : TreeRadixCache Nat := (prepareRequest referenceCache (new 1 quota) requestA).2.2

def extendedA : TreeRadixCache Nat := (admittedA none).serve referenceCache (.method (.extendTree "a" [1, 2, 3]))

theorem requestA_completions_end : ∃ br, extendedA.branches.get? "a" = some br ∧
    (prepareRequest referenceCache (new 1 none : TreeRadixCache Nat) requestA).2.1.extraKey = some br.ns ∧
    CompletionsEnd referenceCache extendedA br { requestA with branchEnd := true } := by
  have step : Server.Step referenceCache ⟨admittedA none, 0⟩ (some (.method (.extendTree "a" [1, 2, 3])))
      ⟨extendedA, 0⟩ := ⟨rfl, rfl⟩
  have leaves : Leaves "a" ⟨admittedA none, 0⟩ (some (.method (.extendTree "a" [1, 2, 3]))) := by
    change Op.extendTree "a" [1, 2, 3] ≠ .killTree "a"
    decide
  have later : Reachable (Server.Step referenceCache) (Leaves "a") ⟨admittedA none, 0⟩ ⟨extendedA, 0⟩ :=
    .tail .refl leaves step
  exact admitted_completions_end referenceCache_laws (.new 1 none) rfl (by decide) (by decide) rfl later

/-- An admitted request raises after a kill of its branch, after another request
has committed other tokens, and where the quota is short. -/
theorem admitted_requests_raise :
    let opened := admittedA (some 2)
    let killed := opened.serve referenceCache (.handle (.kill "a"))
    let committed := opened.serve referenceCache
      (.cacheUnfinishedReq requestA [1, 2] (referenceCache.insert opened.tree ⟨[1, 2], "t"⟩))
    (prepareRequest referenceCache (new 1 (some 2) : TreeRadixCache Nat) requestA).1 = none ∧
      (killed.cacheUnfinishedReq referenceCache requestA [1, 3] killed.tree).1 = .error (.keyError "a") ∧
      (prepareRequest referenceCache opened requestA).1 = none ∧
      (committed.branches.get? "a").map AgentBranch.tokenIds = some [1, 2] ∧
      (committed.cacheUnfinishedReq referenceCache requestA [1, 3] committed.tree).1 =
        .error (.valueError (prefixMessage "a")) ∧
      QuotaExceeded (opened.cacheUnfinishedReq referenceCache requestA [1, 2, 3] opened.tree).1 := by
  intro opened killed committed
  refine ⟨by decide, by decide, by decide, by decide, by decide, ⟨_, rfl⟩⟩

end Agentfork.Sglang.TreeRadixCache

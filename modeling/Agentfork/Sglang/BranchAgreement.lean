import Agentfork.Library.LaggingCopy
import Agentfork.Sglang.BranchRows
import Agentfork.Sglang.Exclusion

/-! # Client and server agree on the branches

The server makes and deletes branches, the client notes it in a later section of
the call. What the server has done and the client has not noted leads from what
the client has tracked to what the server holds, as long as the client notes the
changes of one id in the order of the server. Nothing in the backend orders
them, so a fork and a kill of the same child can pass each other. -/

namespace Agentfork.Sglang.HttpBackend

open LaggingCopy SharedMarks Transition TreeRadixCache

/-! ## Changes that are not noted yet -/

/-- What the client has tracked of a branch. -/
def Client.record (client : Client) (branchId : BranchId) : Option Row :=
  (client.namespaces.get? branchId).bind fun ns => (client.parents.get? branchId).map fun parentId => (ns, parentId)

/-- What the call makes of the branch on the server. -/
def HttpCall.change (branchId : BranchId) (call : HttpCall) : Option (Option Row) :=
  match call.op with
  | .createTree treeId => if treeId = branchId then some (some (treeId, none)) else none
  | .forkBranch _ childId => if childId = some branchId then some (some (call.ns, call.parentId)) else none
  | .kill treeId => if treeId = branchId then some none else none
  | .generate _ _ _ => none

/-- A branch is made only where there is none. -/
def rowChanges : Changes (Option Row) (Option Row) where
  allowed change found := change.isSome = true → found = none
  result change := change

/-- The server has done the work of the call and the client has not noted it. -/
def HttpCall.pending (call : HttpCall) : Bool :=
  call.op.changes.isSome && match call.phase, call.op with
    | .answered (.ok _), _ => true
    | .replied (.ok _), _ => true
    | .tracking, .forkBranch _ _ => true
    | _, _ => false

def changesOf (unnoted : List Nat) (calls : List HttpCall) (branchId : BranchId) : List (Option Row) :=
  unnoted.filterMap fun c => (calls[c]?).bind (HttpCall.change branchId)

variable {client after : Client} {call next : HttpCall} {branchId : BranchId} {calls calls' : List HttpCall}
  {unnoted : List Nat}

theorem change_isSome : (call.change branchId).isSome = true ↔ call.op.changes = some branchId := by
  unfold HttpCall.change HttpOp.changes
  cases call.op with
  | createTree treeId => by_cases same : treeId = branchId <;> simp [same]
  | forkBranch parentId childId => by_cases same : childId = some branchId <;> simp [same]
  | kill treeId => by_cases same : treeId = branchId <;> simp [same]
  | generate id branchEnd reserveTokens => simp

/-- A call changes one branch. -/
theorem change_elsewhere {change : Option Row} (isChange : call.change branchId = some change) {other : BranchId}
    (differs : other ≠ branchId) : call.change other = none := by
  have changes : call.op.changes = some branchId := change_isSome.1 (by rw [isChange]; rfl)
  cases isOther : call.change other with
  | none => rfl
  | some otherChange =>
    have same := (change_isSome.1 (by rw [isOther]; rfl)).symm.trans changes
    exact absurd (Option.some.inj same) differs

theorem change_congr (sameOp : next.op = call.op) (sameNs : next.ns = call.ns)
    (sameParent : next.parentId = call.parentId) : next.change branchId = call.change branchId := by
  unfold HttpCall.change
  rw [sameOp, sameNs, sameParent]

theorem changesOf_congr (same : ∀ c ∈ unnoted, (calls'[c]?).bind (HttpCall.change branchId) =
    (calls[c]?).bind (HttpCall.change branchId)) : changesOf unnoted calls' branchId = changesOf unnoted calls branchId :=
  List.filterMap_congr same

/-- A call that goes on and keeps its change. -/
theorem changesOf_set {c : Nat} (found : calls[c]? = some call)
    (sameChange : c ∈ unnoted → next.change branchId = call.change branchId) :
    changesOf unnoted (calls.set c next) branchId = changesOf unnoted calls branchId := by
  refine changesOf_congr fun other member => ?_
  by_cases same : c = other
  · subst same
    rw [List.getElem?_set_self (List.getElem?_eq_some_iff.1 found).1, found]
    exact sameChange member
  · rw [List.getElem?_set_ne same]

theorem changesOf_append (unnoted : List Nat) (calls : List HttpCall) (branchId : BranchId) (c : Nat)
    (found : calls[c]? = some call) :
    changesOf (unnoted ++ [c]) calls branchId =
      changesOf unnoted calls branchId ++ (call.change branchId).toList := by
  unfold changesOf
  rw [List.filterMap_append]
  congr 1
  cases isChange : call.change branchId with
  | none => rw [List.filterMap_cons_none (by rw [found]; exact isChange)]; rfl
  | some change => rw [List.filterMap_cons_some (by rw [found]; exact isChange)]; rfl

/-- A call of `kill` leaves no branch, the others leave one. -/
theorem kills_of_change (isNone : call.change branchId = some none) : call.op = .kill branchId := by
  unfold HttpCall.change at isNone
  cases op : call.op with
  | createTree treeId => rw [op] at isNone; simp only at isNone; split at isNone <;> cases isNone
  | forkBranch parentId childId => rw [op] at isNone; simp only at isNone; split at isNone <;> cases isNone
  | kill treeId =>
    rw [op] at isNone
    simp only at isNone
    split at isNone
    · next same => rw [same]
    · cases isNone
  | generate id branchEnd reserveTokens => rw [op] at isNone; cases isNone

/-! ## Sections -/

/-- Namespace and parent of the call are those of the branch that it uses. -/
def HttpCall.Captured (call : HttpCall) (client : Client) (branchId : BranchId) : Prop :=
  ∃ parentId, client.record branchId = some (call.ns, parentId) ∧
    match call.op with
    | .forkBranch _ _ => call.parentId = some branchId
    | _ => call.parentId = parentId

def Client.SameKeys (client : Client) : Prop :=
  ∀ branchId, branchId ∈ client.namespaces ↔ branchId ∈ client.parents

theorem Client.record_of_namespace (sameKeys : client.SameKeys) {ns : String}
    (found : client.namespaces.get? branchId = some ns) : ∃ parentId, client.record branchId = some (ns, parentId) := by
  obtain ⟨parentId, isParent⟩ := Dict.mem_iff_get?.1 ((sameKeys branchId).1 (Dict.mem_of_get? found))
  exact ⟨parentId, by rw [Client.record, found, isParent]; rfl⟩

theorem Client.record_congr (sameNamespaces : after.namespaces = client.namespaces)
    (sameParents : after.parents = client.parents) (branchId : BranchId) :
    after.record branchId = client.record branchId := by
  rw [Client.record, Client.record, sameNamespaces, sameParents]

theorem Client.record_insert {ns : String} {parentId : Option BranchId}
    (namespaces : after.namespaces = client.namespaces.insert branchId ns)
    (parents : after.parents = client.parents.insert branchId parentId) (other : BranchId) :
    after.record other = if other = branchId then some (ns, parentId) else client.record other := by
  rw [Client.record, Client.record, namespaces, parents, Dict.get?_insert, Dict.get?_insert]
  by_cases same : other = branchId
  · rw [if_pos same, if_pos same, if_pos same]; rfl
  · rw [if_neg same, if_neg same, if_neg same]

theorem Client.record_erase (namespaces : after.namespaces = client.namespaces.erase branchId)
    (parents : after.parents = client.parents.erase branchId) (other : BranchId) :
    after.record other = if other = branchId then none else client.record other := by
  rw [Client.record, Client.record, namespaces, parents, Dict.get?_erase, Dict.get?_erase]
  by_cases same : other = branchId
  · rw [if_pos same, if_pos same, if_pos same]; rfl
  · rw [if_neg same, if_neg same, if_neg same]

theorem Client.SameKeys.insert {ns : String} {parentId : Option BranchId} (sameKeys : client.SameKeys)
    (namespaces : after.namespaces = client.namespaces.insert branchId ns)
    (parents : after.parents = client.parents.insert branchId parentId) : after.SameKeys := by
  intro other
  rw [namespaces, parents, Dict.mem_insert, Dict.mem_insert, sameKeys other]

theorem Client.SameKeys.erase (sameKeys : client.SameKeys)
    (namespaces : after.namespaces = client.namespaces.erase branchId)
    (parents : after.parents = client.parents.erase branchId) : after.SameKeys := by
  intro other
  rw [namespaces, parents, Dict.mem_erase, Dict.mem_erase, sameKeys other]

theorem onBranch_of_uses (uses : call.uses branchId = true) : call.op.onBranch branchId = true :=
  ((Bool.and_eq_true _ _).mp uses).2

theorem outstanding_of_uses (uses : call.uses branchId = true) : call.phase.outstanding = true :=
  ((Bool.and_eq_true _ _).mp uses).1

theorem enterFork_captures {parentId : BranchId} {childId : Option BranchId} (fork : call.op = .forkBranch parentId childId)
    (sameKeys : client.SameKeys) (uses : (call.enterFork parentId client).2.uses branchId = true) :
    branchId ∉ client.closing ∧ (call.enterFork parentId client).2.Captured client branchId := by
  unfold HttpCall.enterFork at uses ⊢
  by_cases marked : parentId ∈ client.closing
  · rw [if_pos marked] at uses; cases uses
  · rw [if_neg marked] at uses ⊢
    cases isNs : client.namespaces.get? parentId with
    | none => rw [isNs] at uses; cases uses
    | some ns =>
      simp only [isNs, HttpCall.uses, fork, HttpOp.onBranch] at uses ⊢
      obtain rfl : parentId = branchId := of_decide_eq_true ((Bool.and_eq_true _ _).mp uses).2
      obtain ⟨grandparentId, record⟩ := Client.record_of_namespace sameKeys isNs
      refine ⟨marked, grandparentId, record, ?_⟩
      simp only

theorem enterGenerate_captures {id : BranchId} {branchEnd : Bool} {reserveTokens : Option Int}
    (generate : call.op = .generate id branchEnd reserveTokens)
    (uses : (call.enterGenerate id client).2.uses branchId = true) :
    branchId ∉ client.closing ∧ (call.enterGenerate id client).2.Captured client branchId := by
  unfold HttpCall.enterGenerate at uses ⊢
  by_cases marked : id ∈ client.closing
  · rw [if_pos marked] at uses; cases uses
  · rw [if_neg marked] at uses ⊢
    cases isNs : client.namespaces.get? id with
    | none => rw [isNs] at uses; cases uses
    | some ns =>
      cases isParent : client.parents.get? id with
      | none => rw [isNs, isParent] at uses; cases uses
      | some parentId =>
        simp only [isNs, isParent, HttpCall.uses, generate, HttpOp.onBranch] at uses ⊢
        obtain rfl : id = branchId := of_decide_eq_true ((Bool.and_eq_true _ _).mp uses).2
        refine ⟨marked, parentId, by rw [Client.record, isNs, isParent]; rfl, ?_⟩
        simp only

theorem note_not_outstanding (reply : Except HttpError Nat) (client : Client) (call : HttpCall) :
    (call.note reply client).2.phase.outstanding = false := by
  unfold HttpCall.note
  split <;> first | rfl | (split <;> rfl)

/-- A fork or an inference goes on from its request to a phase without one. -/
theorem begun_of_uses {timedOut : Bool} (taken : call.runSection timedOut client = some (after, next))
    (notKill : ∀ treeId, call.op ≠ .kill treeId) (uses : next.uses branchId = true) :
    call.begin timedOut client = (after, next) := by
  have outstanding := outstanding_of_uses uses
  unfold HttpCall.runSection at taken
  split at taken
  · exact Option.some.inj taken
  · next op => exact absurd op (notKill _)
  · next op => exact absurd op (notKill _)
  · next reply _ =>
    have idle := note_not_outstanding reply client call
    rw [Option.some.inj taken, outstanding] at idle
    cases idle
  · cases taken; cases outstanding
  · next op => exact absurd op (notKill _)
  · cases taken

/-- Only its first section makes a call a user of a branch; it reads what the client
has tracked of the branch. -/
theorem section_captures {timedOut : Bool} (taken : call.runSection timedOut client = some (after, next))
    (sameKeys : client.SameKeys) (uses : next.uses branchId = true) :
    branchId ∉ client.closing ∧ next.Captured client branchId := by
  have onBranch : call.op.onBranch branchId = true := section_op taken ▸ onBranch_of_uses uses
  cases op : call.op with
  | createTree treeId => rw [op] at onBranch; cases onBranch
  | kill treeId => rw [op] at onBranch; cases onBranch
  | forkBranch parentId childId =>
    have begun := begun_of_uses taken (fun treeId => by rw [op]; exact HttpOp.noConfusion) uses
    rw [HttpCall.begin, op] at begun
    cases childId with
    | none => cases begun; cases uses
    | some childId =>
      obtain rfl : (call.enterFork parentId client).2 = next := congrArg Prod.snd begun
      exact enterFork_captures op sameKeys uses
  | generate id branchEnd reserveTokens =>
    have begun := begun_of_uses taken (fun treeId => by rw [op]; exact HttpOp.noConfusion) uses
    rw [HttpCall.begin, op] at begun
    simp only at begun
    split at begun
    · cases begun; cases uses
    · obtain rfl : (call.enterGenerate id client).2 = next := congrArg Prod.snd begun
      exact enterGenerate_captures op uses

/-- A section that does not note the change keeps it to be noted. -/
theorem section_pending {timedOut : Bool} (taken : call.runSection timedOut client = some (after, next))
    (counted : ∀ branchId, call.uses branchId = true → 0 < client.activeOn branchId)
    (pending : call.pending = true) (quiet : call.notes = false) :
    next.pending = true ∧ next.ns = call.ns ∧ next.parentId = call.parentId := by
  obtain ⟨changes, phase⟩ := (Bool.and_eq_true _ _).mp pending
  unfold HttpCall.runSection at taken
  split at taken
  · next entered => rw [entered] at phase; cases phase
  · next waiting _ => rw [waiting] at phase; cases phase
  · next waiting _ => rw [waiting] at phase; cases phase
  · next reply replied =>
    cases reply with
    | error raised => rw [replied] at phase; cases phase
    | ok payload =>
      cases op : call.op with
      | createTree treeId => rw [HttpCall.notes, replied, op] at quiet; cases quiet
      | kill treeId => rw [HttpCall.notes, replied, op] at quiet; cases quiet
      | generate id branchEnd reserveTokens => rw [op] at changes; cases changes
      | forkBranch parentId childId =>
        have positive : 0 < client.activeOn parentId := counted parentId (by
          rw [HttpCall.uses, replied, op]; exact decide_eq_true rfl)
        obtain ⟨left, isLeft, -⟩ := leave_of_active positive
        simp only [HttpCall.note, op, isLeft] at taken
        cases taken
        refine ⟨?_, rfl, rfl⟩
        refine (Bool.and_eq_true _ _).mpr ⟨changes, ?_⟩
        simp only [HttpCall.goTo, op]
  · next tracking op => rw [HttpCall.notes, tracking, op] at quiet; cases quiet
  · next releasing _ => rw [releasing] at phase; cases phase
  · cases taken

/-! ## The server -/

section Server

variable {τ : Type} [DecidableEq τ] {radix : RadixCache τ} {cache : TreeRadixCache τ}

open TreeCacheLifecycle

/-- The request of a branch that is there makes and deletes none. -/
theorem prepareRequest_sameRows {req : Req} (named : req.branchId = some branchId)
    (held : cache.row branchId ≠ none) : SameRows cache (prepareRequest radix cache req).2.2 := by
  cases found : cache.branches.get? branchId with
  | none => rw [TreeRadixCache.row, found] at held; exact absurd rfl held
  | some br =>
    have opened : ∀ ns, (∃ raised, openBranch radix cache branchId req.parentId ns = (.error raised, cache)) ∨
        openBranch radix cache branchId req.parentId ns = (.ok false, cache) := by
      intro ns
      simp only [openBranch, found]
      split
      · exact Or.inl ⟨_, rfl⟩
      · split
        · split
          · exact Or.inl ⟨_, rfl⟩
          · exact Or.inr rfl
        · exact Or.inr rfl
    simp only [prepareRequest, named]
    obtain ⟨raised, refused⟩ | isOpen := opened (namespaceOf req.treeId req.extraKey branchId)
    · rw [refused]
      exact .of_branches rfl
    · rw [isOpen]
      have reserves := reserveFor_sameRows cache branchId req.branchReserveTokens
      simp only [Bool.false_eq_true, if_false]
      split
      · next outcome => rw [outcome] at reserves; exact reserves
      · next outcome => rw [outcome] at reserves; exact reserves

/-- What the call does to the branches of the server. -/
inductive Serves (cache : TreeRadixCache τ) (call : HttpCall) :
    Except HttpError Nat × TreeRadixCache τ → Prop where
  | kept {reply : Except HttpError Nat} {after : TreeRadixCache τ} (same : SameRows cache after)
      (noChange : (reply.toBool && call.op.changes.isSome) = false) : Serves cache call (reply, after)
  | changed {payload : Nat} {after : TreeRadixCache τ} (branchId : BranchId) (change : Option Row)
      (isChange : call.change branchId = some change) (allowed : rowChanges.allowed change (cache.row branchId))
      (rows : ∀ other, after.row other = if other = branchId then change else cache.row other) :
      Serves cache call (.ok payload, after)

theorem orElse_self (branchId : String) : orElse (some (orElse (some branchId) branchId)) branchId = branchId := by
  simp [orElse]

theorem serve_serves (named : ∀ parentId, call.op ≠ .forkBranch parentId (some ""))
    (captured : ∀ branchId, call.op.onBranch branchId = true → ∃ parentId,
      cache.row branchId = some (call.ns, parentId) ∧
        match call.op with
        | .forkBranch _ _ => call.parentId = some branchId
        | _ => True)
    (chosen : ∀ parentId, call.op ≠ .forkBranch parentId none) :
    Serves cache call (call.serve radix cache) := by
  unfold HttpCall.serve
  cases op : call.op with
  | createTree treeId =>
    obtain ⟨refused, same⟩ | ⟨made, absent, rows⟩ :=
      createAgentTree_rows cache treeId (some (orElse (some treeId) treeId))
    · cases outcome : cache.createAgentTree treeId (some (orElse (some treeId) treeId)) with
      | mk result after =>
        rw [outcome] at refused same
        cases result with
        | ok br => cases refused
        | error raised =>
          simp only [handle, outcome]
          exact .kept same rfl
    · cases outcome : cache.createAgentTree treeId (some (orElse (some treeId) treeId)) with
      | mk result after =>
        rw [outcome] at made rows
        cases result with
        | error raised => cases made
        | ok br =>
          simp only [handle, outcome]
          rw [orElse_self] at rows
          refine .changed treeId (some (treeId, none)) ?_ (fun _ => absent) rows
          simp [HttpCall.change, op]
  | forkBranch parentId childId =>
    cases childId with
    | none => exact absurd op (chosen parentId)
    | some childId =>
      obtain ⟨grandparentId, row, isParent⟩ := captured parentId (by rw [op]; exact decide_eq_true rfl)
      rw [op] at isParent
      have childNamed : childId ≠ "" := fun empty => named parentId (by rw [op, empty])
      obtain ⟨refused, same⟩ | ⟨made, absent, rows⟩ := forkBranch_rows radix row childNamed
      · cases outcome : cache.forkBranch radix parentId (some childId) with
        | mk result after =>
          rw [outcome] at refused same
          cases result with
          | ok br => cases refused
          | error raised =>
            simp only [handle, Option.getD_some, outcome]
            exact .kept same rfl
      · cases outcome : cache.forkBranch radix parentId (some childId) with
        | mk result after =>
          rw [outcome] at made rows
          cases result with
          | error raised => cases made
          | ok br =>
            simp only [handle, Option.getD_some, outcome]
            refine .changed childId (some (call.ns, call.parentId)) ?_ (fun _ => absent) ?_
            · simp [HttpCall.change, op]
            · rw [isParent]; exact rows
  | kill treeId =>
    simp only [handle]
    refine .changed treeId none ?_ (fun isSome => by cases isSome) (killTree_row cache treeId)
    simp [HttpCall.change, op]
  | generate branchId branchEnd reserveTokens =>
    obtain ⟨parentId, row, -⟩ := captured branchId (by rw [op]; exact decide_eq_true rfl)
    have same : SameRows cache (prepareRequest radix cache (call.request branchId branchEnd reserveTokens)).2.2 :=
      prepareRequest_sameRows rfl (by rw [row]; exact Option.some_ne_none _)
    simp only
    split
    · next outcome =>
      rw [outcome] at same
      exact .kept same (by rw [op]; rfl)
    · next outcome =>
      rw [outcome] at same
      exact .kept same rfl

end Server

/-! ## The condition and the invariant -/

/-- The calls of the server that make or delete no branch. -/
def keepsBranches {τ : Type} : Call τ → Bool
  | .method (.createAgentTree _ _) | .method (.forkBranch _ _) | .method (.killTree _) => false
  | .method _ => true
  | .reset => false
  | .cacheUnfinishedReq _ _ _ => true
  | .cacheFinishedReq req _ _ _ _ => !req.branchEnd
  | .prepareRequest _ => false
  | .abortRequest req => !req.treeBranchCreated
  | .handle (.create _ _) | .handle (.fork _ _) | .handle (.kill _) => false
  | .handle _ => true

/-- Every request is answered, no inference ends its branch, and branches are made
and deleted through the backend only. -/
def answered {τ : Type} : HttpAction τ → Bool
  | .call (.generate _ branchEnd _) => !branchEnd
  | .lose _ _ => false
  | .internal call => keepsBranches call
  | _ => true

/-- The client notes the creations and kills of one id in the order in which the
server has done them, and a child has a name. -/
def System.inOrder {τ : Type} (system : System τ) : HttpAction τ → Bool
  | .call (.forkBranch _ (some childId)) => childId ≠ ""
  | .run c _ =>
    match system.calls[c]? with
    | none => true
    | some call => !call.notes || call.op.changes.all fun branchId =>
      (system.unnoted.find? fun other =>
        ((system.calls[other]?).bind (HttpCall.change branchId)).isSome) = some c
  | _ => true

def orderly {τ : Type} (system : System τ) (action : HttpAction τ) : Prop :=
  answered action = true ∧ system.inOrder action = true

instance {τ : Type} (system : System τ) (action : HttpAction τ) : Decidable (orderly system action) :=
  inferInstanceAs (Decidable (_ ∧ _))

variable {τ : Type} [DecidableEq τ] {radix : RadixCache τ} {cache : TreeRadixCache τ}
  {before system : System τ} {action : HttpAction τ}

theorem serve_sameRows (cache : TreeRadixCache τ) {call : Call τ} (keeps : keepsBranches call = true) :
    SameRows cache (cache.serve radix call) := by
  cases call with
  | method op =>
    cases op with
    | createAgentTree created given => cases keeps
    | forkBranch parentId childId => cases keeps
    | killTree killed => cases keeps
    | extendTree extended tokenIds => exact extendTree_sameRows cache extended tokenIds
    | reserve reserving numTokens => exact reserve_sameRows cache reserving numTokens
    | demoteBranch demoted => exact demoteBranch_sameRows cache demoted
    | promoteBranch promoted => exact promoteBranch_sameRows cache promoted
    | invalidateTree invalidated => exact invalidateTree_sameRows cache invalidated
    | matchTreePrefix matched tokenIds => exact matchTreePrefix_sameRows cache matched tokenIds
    | evict numTokens => exact .of_branches rfl
  | reset => cases keeps
  | cacheUnfinishedReq req fillIds left => exact commitRequest_sameRows cache req.branchId true fillIds left
  | cacheFinishedReq req isInsert tokenIds kvLenToHandle left =>
    exact cacheFinishedReq_sameRows cache (by simpa [keepsBranches] using keeps) isInsert tokenIds kvLenToHandle left
  | prepareRequest req => cases keeps
  | abortRequest req =>
    have notNew : req.treeBranchCreated = false := by simpa [keepsBranches] using keeps
    simp only [TreeRadixCache.serve, TreeCacheLifecycle.abortRequest, notNew, Bool.false_eq_true, if_false]
    split <;> exact .of_branches rfl
  | handle op =>
    cases op with
    | create created treeId => cases keeps
    | fork forked parentId => cases keeps
    | kill killed => cases keeps
    | reserve reserving tokens =>
      cases tokens with
      | none => exact .of_branches rfl
      | some numTokens => exact reserve_sameRows cache reserving numTokens
    | demote demoted => exact demoteBranch_sameRows cache demoted
    | promote promoted => exact promoteBranch_sameRows cache promoted
    | invalidate invalidated => exact invalidateTree_sameRows cache invalidated
    | telemetry asked =>
      simp only [TreeRadixCache.serve, TreeCacheLifecycle.handle]
      split <;> exact .of_branches rfl
    | other operation => exact .of_branches rfl

/-- What has been done and not noted leads from the client to the server. -/
structure Following (system : System τ) : Prop where
  balance : system.Balance
  sameKeys : system.client.SameKeys
  pending : ∀ c ∈ system.unnoted, ∃ call, system.calls[c]? = some call ∧ call.pending = true
  distinct : system.unnoted.Nodup
  leads : ∀ branchId, Leads rowChanges (system.client.record branchId)
    (changesOf system.unnoted system.calls branchId) (system.cache.row branchId)
  captured : ∀ call ∈ system.calls, ∀ branchId, call.uses branchId = true →
    call.Captured system.client branchId ∧ changesOf system.unnoted system.calls branchId = []
  named : ∀ call ∈ system.calls, ∀ parentId, call.op ≠ .forkBranch parentId (some "")
  chosen : ∀ call ∈ system.calls, call.phase.outstanding = true → ∀ parentId, call.op ≠ .forkBranch parentId none

namespace Following

omit [DecidableEq τ] in
theorem start (pageSize : Nat) (treeQuotaTokens : Option Int) :
    Following (System.start (.new pageSize treeQuotaTokens) : System τ) where
  balance := Balanced.empty roles
  sameKeys := fun _ => Iff.rfl
  pending := fun _ member => absurd member List.not_mem_nil
  distinct := List.nodup_nil
  leads := fun _ => rfl
  captured := fun _ member => absurd member List.not_mem_nil
  named := fun _ member => absurd member List.not_mem_nil
  chosen := fun _ member => absurd member List.not_mem_nil

omit [DecidableEq τ] in
theorem row_of_settled (following : Following system)
    (settled : changesOf system.unnoted system.calls branchId = []) :
    system.client.record branchId = system.cache.row branchId := by
  have leads := following.leads branchId
  rw [settled] at leads
  exact leads

omit [DecidableEq τ] in
/-- A branch that is tracked and not being killed has no change to be noted. -/
theorem settled (following : Following system) {row : Row} (record : system.client.record branchId = some row)
    (unmarked : branchId ∉ system.client.closing) : changesOf system.unnoted system.calls branchId = [] := by
  have leads := following.leads branchId
  cases isChanges : changesOf system.unnoted system.calls branchId with
  | nil => rfl
  | cons change later =>
    rw [isChanges, record] at leads
    have isNone : change = none := by
      cases change with
      | none => rfl
      | some made => exact nomatch leads.1 rfl
    have member : change ∈ changesOf system.unnoted system.calls branchId := by
      rw [isChanges]; exact List.mem_cons_self
    obtain ⟨c, isUnnoted, isChange⟩ := List.mem_filterMap.1 member
    obtain ⟨call, found, pending⟩ := following.pending c isUnnoted
    rw [found, isNone] at isChange
    have kill : call.op = .kill branchId := kills_of_change isChange
    have marking : call.phase.marking = true := by
      have phase := ((Bool.and_eq_true _ _).mp pending).2
      cases isPhase : call.phase with
      | tracking => rw [isPhase, kill] at phase; cases phase
      | answered reply => rfl
      | replied reply => rfl
      | entered => rw [isPhase] at phase; cases phase
      | awaitTurn => rw [isPhase] at phase; cases phase
      | awaitIdle => rfl
      | requested => rfl
      | releasing outcome => rfl
      | finished outcome => rw [isPhase] at phase; cases phase
    have marks : call.marks branchId = true := (marks_of_kill kill marking).trans (decide_eq_true rfl)
    have marked : system.client.isClosing branchId = true :=
      Balanced.marked_of_claims following.balance (List.mem_of_getElem? found) marks
    exact absurd (of_decide_eq_true marked) unmarked

omit [DecidableEq τ] in
/-- The cache changes in nothing that the client notes. -/
theorem sameRows (following : Following system) {after : TreeRadixCache τ} (same : SameRows system.cache after) :
    Following { system with cache := after } :=
  { following with leads := fun branchId => by rw [same branchId]; exact following.leads branchId }

theorem changesOf_goTo {c : Nat} (found : calls[c]? = some call) (phase : Phase) (branchId : BranchId) :
    changesOf unnoted (calls.set c (call.goTo phase)) branchId = changesOf unnoted calls branchId :=
  changesOf_set found fun _ => change_congr rfl rfl rfl

omit [DecidableEq τ] in
/-- The request of a call moves on. -/
theorem moved {c : Nat} {phase : Phase} (following : Following system) (found : system.calls[c]? = some call)
    (was : call.phase.outstanding = true) (isOut : phase.outstanding = true)
    (pending : call.pending = true → (call.goTo phase).pending = true) :
    Following { system with calls := system.calls.set c (call.goTo phase) } where
  balance := following.balance.pass found rfl was isOut
  sameKeys := following.sameKeys
  pending := by
    intro other member
    obtain ⟨held, isHeld, isPending⟩ := following.pending other member
    by_cases same : c = other
    · subst same
      obtain rfl : call = held := Option.some.inj (found.symm.trans isHeld)
      exact ⟨_, List.getElem?_set_self (List.getElem?_eq_some_iff.1 found).1, pending isPending⟩
    · exact ⟨held, by rw [List.getElem?_set_ne same, isHeld], isPending⟩
  distinct := following.distinct
  leads := by
    intro branchId
    change Leads rowChanges _ (changesOf _ (system.calls.set c (call.goTo phase)) branchId) _
    rw [changesOf_goTo found]
    exact following.leads branchId
  captured := by
    intro user member branchId uses
    change _ ∧ changesOf _ (system.calls.set c (call.goTo phase)) branchId = []
    rw [changesOf_goTo found]
    obtain old | rfl := List.mem_or_eq_of_mem_set member
    · exact following.captured user old branchId uses
    · have onBranch : (call.goTo phase).op.onBranch branchId = true := onBranch_of_uses uses
      have used : call.uses branchId = true := (Bool.and_eq_true _ _).mpr ⟨was, onBranch⟩
      exact following.captured call (List.mem_of_getElem? found) branchId used
  named := by
    intro user member
    obtain old | rfl := List.mem_or_eq_of_mem_set member
    · exact following.named user old
    · exact following.named call (List.mem_of_getElem? found)
  chosen := by
    intro user member outstanding
    obtain old | rfl := List.mem_or_eq_of_mem_set member
    · exact following.chosen user old outstanding
    · exact following.chosen call (List.mem_of_getElem? found) was

omit [DecidableEq τ] in
/-- The server makes or deletes a branch for a call whose answer is under way. -/
theorem changed {c payload : Nat} (following : Following system) (found : system.calls[c]? = some call)
    (answered : call.phase = .answered (.ok payload)) (fresh : c ∉ system.unnoted) {change : Option Row}
    (isChange : call.change branchId = some change)
    (allowed : rowChanges.allowed change (system.cache.row branchId)) {after : TreeRadixCache τ}
    (rows : ∀ other, after.row other = if other = branchId then change else system.cache.row other) :
    Following { system with cache := after, unnoted := system.unnoted ++ [c] } := by
  have changes : call.op.changes = some branchId := change_isSome.1 (by rw [isChange]; rfl)
  have unused : ∀ user ∈ system.calls, user.uses branchId = false := by
    intro user isUser
    cases used : user.uses branchId with
    | false => rfl
    | true =>
      obtain ⟨⟨parentId, record, -⟩, settled⟩ := following.captured user isUser branchId used
      cases change with
      | some made =>
        have absent : system.cache.row branchId = none := allowed rfl
        rw [following.row_of_settled settled, absent] at record
        cases record
      | none =>
        have killing : call.killing branchId = true := by
          rw [HttpCall.killing, answered, kills_of_change isChange]
          exact decide_eq_true rfl
        have noUser := following.balance.alone branchId call (List.mem_of_getElem? found) killing
        exact absurd used (List.countP_eq_zero.1 noUser user isUser)
  refine { following with pending := ?_, distinct := ?_, leads := ?_, captured := ?_ }
  · intro other member
    obtain old | new := List.mem_append.1 member
    · exact following.pending other old
    · rw [List.mem_singleton.1 new]
      refine ⟨call, found, (Bool.and_eq_true _ _).mpr ⟨by rw [changes]; rfl, ?_⟩⟩
      rw [answered]
  · exact List.nodup_append.2 ⟨following.distinct, List.nodup_singleton c, fun other member otherC isC same => by
      rw [List.mem_singleton.1 isC] at same
      exact fresh (same ▸ member)⟩
  · intro other
    change Leads rowChanges _ (changesOf (system.unnoted ++ [c]) system.calls other) (after.row other)
    rw [changesOf_append _ _ _ _ found, rows]
    by_cases same : other = branchId
    · subst same
      rw [if_pos rfl, isChange]
      exact (following.leads other).append allowed
    · rw [if_neg same, change_elsewhere isChange same, Option.toList_none, List.append_nil]
      exact following.leads other
  · intro user isUser other uses
    have differs : other ≠ branchId := fun same => by
      rw [same, unused user isUser] at uses
      cases uses
    obtain ⟨captured, settled⟩ := following.captured user isUser other uses
    refine ⟨captured, ?_⟩
    change changesOf (system.unnoted ++ [c]) system.calls other = []
    rw [changesOf_append _ _ _ _ found, settled, change_elsewhere isChange differs]
    rfl

omit [DecidableEq τ] in
theorem chosen_set {c : Nat} {timedOut : Bool} (following : Following system)
    (taken : call.runSection timedOut system.client = some (after, next)) :
    ∀ user ∈ system.calls.set c next, user.phase.outstanding = true →
      ∀ parentId, user.op ≠ .forkBranch parentId none := by
  intro user member outstanding parentId fork
  obtain old | rfl := List.mem_or_eq_of_mem_set member
  · exact following.chosen user old outstanding parentId fork
  · have op : call.op = .forkBranch parentId none := (section_op taken).symm.trans fork
    have uses : user.uses parentId = true := by
      rw [HttpCall.uses, outstanding, fork]
      exact decide_eq_true rfl
    have begun := begun_of_uses taken (fun treeId => by rw [op]; exact HttpOp.noConfusion) uses
    rw [HttpCall.begin, op] at begun
    cases begun
    cases outstanding

omit [DecidableEq τ] in
theorem named_set {c : Nat} {timedOut : Bool} (following : Following system) (found : system.calls[c]? = some call)
    (taken : call.runSection timedOut system.client = some (after, next)) :
    ∀ user ∈ system.calls.set c next, ∀ parentId, user.op ≠ .forkBranch parentId (some "") := by
  intro user member
  obtain old | rfl := List.mem_or_eq_of_mem_set member
  · exact following.named user old
  · rw [section_op taken]
    exact following.named call (List.mem_of_getElem? found)

omit [DecidableEq τ] in
/-- A section that notes nothing. -/
theorem quiet {c : Nat} {timedOut : Bool} (following : Following system) (found : system.calls[c]? = some call)
    (taken : call.runSection timedOut system.client = some (after, next)) (quiet : call.notes = false)
    (sameNamespaces : after.namespaces = system.client.namespaces) (sameParents : after.parents = system.client.parents)
    (balance : Balanced roles after.activeOn after.isClosing (system.calls.set c next)) :
    Following { system with calls := system.calls.set c next, client := after } := by
  have record := Client.record_congr sameNamespaces sameParents
  have counted : ∀ branchId, call.uses branchId = true → 0 < system.client.activeOn branchId :=
    fun _ uses => Balanced.active_pos following.balance (List.mem_of_getElem? found) uses
  have pendingNext : c ∈ system.unnoted → next.pending = true ∧ next.ns = call.ns ∧ next.parentId = call.parentId := by
    intro member
    obtain ⟨held, isHeld, pending⟩ := following.pending c member
    obtain rfl : call = held := Option.some.inj (found.symm.trans isHeld)
    exact section_pending taken counted pending quiet
  have sameChanges : ∀ branchId, changesOf system.unnoted (system.calls.set c next) branchId =
      changesOf system.unnoted system.calls branchId := fun branchId => changesOf_set found fun member =>
    change_congr (section_op taken) (pendingNext member).2.1 (pendingNext member).2.2
  constructor
  case balance => exact balance
  case sameKeys =>
    intro branchId
    change branchId ∈ after.namespaces ↔ branchId ∈ after.parents
    rw [sameNamespaces, sameParents]
    exact following.sameKeys branchId
  case pending =>
    intro other member
    obtain ⟨held, isHeld, isPending⟩ := following.pending other member
    by_cases same : c = other
    · subst same
      exact ⟨next, List.getElem?_set_self (List.getElem?_eq_some_iff.1 found).1, (pendingNext member).1⟩
    · exact ⟨held, by rw [List.getElem?_set_ne same, isHeld], isPending⟩
  case distinct => exact following.distinct
  case leads =>
    intro branchId
    change Leads rowChanges (after.record branchId) (changesOf system.unnoted (system.calls.set c next) branchId) _
    rw [record, sameChanges]
    exact following.leads branchId
  case captured =>
    intro user member branchId uses
    change (∃ parentId, after.record branchId = _ ∧ _) ∧ changesOf _ (system.calls.set c next) branchId = []
    rw [record, sameChanges]
    obtain old | rfl := List.mem_or_eq_of_mem_set member
    · exact following.captured user old branchId uses
    · obtain ⟨unmarked, captured⟩ := section_captures taken following.sameKeys uses
      obtain ⟨parentId, isRecord, isParent⟩ := captured
      exact ⟨⟨parentId, isRecord, isParent⟩, following.settled isRecord unmarked⟩
  case named => exact following.named_set found taken
  case chosen => exact following.chosen_set taken

omit [DecidableEq τ] in
/-- A section that notes the first change of its branch. -/
theorem noted {c : Nat} {timedOut : Bool} (following : Following system) (found : system.calls[c]? = some call)
    (taken : call.runSection timedOut system.client = some (after, next))
    (first : (system.unnoted.find? fun other =>
      ((system.calls[other]?).bind (HttpCall.change branchId)).isSome) = some c)
    (record : ∀ change, call.change branchId = some change → after.record branchId = change)
    (elsewhere : ∀ other, other ≠ branchId → after.record other = system.client.record other)
    (sameKeys : after.SameKeys) (idle : next.phase.outstanding = false)
    (balance : Balanced roles after.activeOn after.isClosing (system.calls.set c next)) :
    Following { system with
      calls := system.calls.set c next, client := after, unnoted := system.unnoted.erase c } := by
  obtain ⟨change, isChange, changes⟩ := filterMap_erase_first first
  replace isChange : call.change branchId = some change := by rw [found] at isChange; exact isChange
  have isNoted : c ∉ system.unnoted.erase c := following.distinct.not_mem_erase
  have sameChanges : ∀ other, changesOf (system.unnoted.erase c) (system.calls.set c next) other =
      changesOf (system.unnoted.erase c) system.calls other := fun other =>
    changesOf_set found fun member => absurd member isNoted
  have otherChanges : ∀ other, other ≠ branchId → changesOf (system.unnoted.erase c) system.calls other =
      changesOf system.unnoted system.calls other := by
    intro other differs
    refine filterMap_erase_of_none ?_
    rw [found]
    exact change_elsewhere isChange differs
  constructor
  case balance => exact balance
  case sameKeys => exact sameKeys
  case pending =>
    intro other member
    obtain ⟨held, isHeld, isPending⟩ := following.pending other (List.mem_of_mem_erase member)
    have differs : c ≠ other := fun same => isNoted (same ▸ member)
    exact ⟨held, by rw [List.getElem?_set_ne differs, isHeld], isPending⟩
  case distinct => exact following.distinct.erase c
  case leads =>
    intro other
    change Leads rowChanges (after.record other)
      (changesOf (system.unnoted.erase c) (system.calls.set c next) other) (system.cache.row other)
    rw [sameChanges]
    by_cases same : other = branchId
    · subst same
      have leads := following.leads other
      rw [changesOf, changes] at leads
      rw [record change isChange]
      exact leads.2
    · rw [elsewhere other same, otherChanges other same]
      exact following.leads other
  case captured =>
    intro user member other uses
    obtain old | rfl := List.mem_or_eq_of_mem_set member
    · obtain ⟨captured, settled⟩ := following.captured user old other uses
      have differs : other ≠ branchId := by
        intro same
        rw [same, changesOf, changes] at settled
        cases settled
      change (∃ parentId, after.record other = _ ∧ _) ∧
        changesOf (system.unnoted.erase c) (system.calls.set c next) other = []
      rw [elsewhere other differs, sameChanges, otherChanges other differs]
      exact ⟨captured, settled⟩
    · rw [outstanding_of_uses uses] at idle
      cases idle
  case named => exact following.named_set found taken
  case chosen => exact following.chosen_set taken

omit [DecidableEq τ] in
theorem joined {op : HttpOp} (following : Following system)
    (named : ∀ parentId, op ≠ .forkBranch parentId (some "")) :
    Following { system with calls := system.calls ++ [⟨op, .entered, "", none⟩] } := by
  have sameChanges : ∀ branchId, changesOf system.unnoted (system.calls ++ [⟨op, .entered, "", none⟩]) branchId =
      changesOf system.unnoted system.calls branchId := by
    intro branchId
    refine changesOf_congr fun c member => ?_
    obtain ⟨call, found, -⟩ := following.pending c member
    rw [List.getElem?_append_left (List.getElem?_eq_some_iff.1 found).1]
  constructor
  case balance => exact following.balance.join (fun _ => rfl) (fun _ => rfl)
  case sameKeys => exact following.sameKeys
  case pending =>
    intro c member
    obtain ⟨call, found, pending⟩ := following.pending c member
    exact ⟨call, by rw [List.getElem?_append_left (List.getElem?_eq_some_iff.1 found).1, found], pending⟩
  case distinct => exact following.distinct
  case leads =>
    intro branchId
    change Leads rowChanges _ (changesOf system.unnoted (system.calls ++ [_]) branchId) _
    rw [sameChanges]
    exact following.leads branchId
  case captured =>
    intro user member branchId uses
    change _ ∧ changesOf system.unnoted (system.calls ++ [_]) branchId = []
    rw [sameChanges]
    obtain old | new := List.mem_append.1 member
    · exact following.captured user old branchId uses
    · rw [List.mem_singleton.1 new] at uses
      cases uses
  case named =>
    intro user member
    obtain old | new := List.mem_append.1 member
    · exact following.named user old
    · rw [List.mem_singleton.1 new]
      exact named
  case chosen =>
    intro user member outstanding
    obtain old | new := List.mem_append.1 member
    · exact following.chosen user old outstanding
    · rw [List.mem_singleton.1 new] at outstanding
      cases outstanding

/-- The server handles a request whose call knows the branch it is about. -/
theorem served (radix : RadixCache τ) {c : Nat} (following : Following system) (found : system.calls[c]? = some call)
    (requested : call.phase = .requested) : Serves system.cache call (call.serve radix system.cache) := by
  have member : call ∈ system.calls := List.mem_of_getElem? found
  refine serve_serves (following.named call member) (fun branchId onBranch => ?_)
    (following.chosen call member (by rw [requested]; rfl))
  have uses : call.uses branchId = true := by
    rw [HttpCall.uses, requested, onBranch]
    rfl
  obtain ⟨⟨parentId, record, isParent⟩, settled⟩ := following.captured call member branchId uses
  refine ⟨parentId, (following.row_of_settled settled).symm.trans record, ?_⟩
  cases op : call.op with
  | forkBranch _ _ => rw [op] at isParent; exact isParent
  | createTree _ => exact trivial
  | kill _ => exact trivial
  | generate _ _ _ => exact trivial

theorem serve {c : Nat} (following : Following before) (taken : System.Step radix before (.serve c) system) :
    Following system := by
  obtain ⟨call, found, taken⟩ := Option.bind_eq_some_iff.1 taken
  split at taken
  · next requested =>
    have notPending : call.pending ≠ true := by
      rw [HttpCall.pending, requested, Bool.and_false]
      exact Bool.false_ne_true
    have serves := following.served radix found requested
    cases outcome : call.serve radix before.cache with
    | mk reply after =>
      rw [outcome] at taken serves
      have moves : Following { before with calls := before.calls.set c (call.goTo (.answered reply)) } :=
        following.moved found (by rw [requested]; rfl) rfl fun pending => absurd pending notPending
      cases serves with
      | kept same noChange =>
        simp only [noChange, Bool.false_eq_true, if_false] at taken
        cases taken
        exact moves.sameRows same
      | changed branchId change isChange allowed rows =>
        have isSome : call.op.changes.isSome = true := by
          rw [change_isSome.1 (by rw [isChange]; rfl)]
          rfl
        simp only [isSome, Except.toBool, Bool.and_true, if_true] at taken
        cases taken
        have fresh : c ∉ before.unnoted := by
          intro member
          obtain ⟨held, isHeld, pending⟩ := following.pending c member
          rw [Option.some.inj (found.symm.trans isHeld)] at notPending
          exact notPending pending
        exact moves.changed (List.getElem?_set_self (List.getElem?_eq_some_iff.1 found).1) rfl fresh
          ((change_congr rfl rfl rfl).trans isChange) allowed rows
  · cases taken

theorem run {c : Nat} {timedOut : Bool} (following : Following before)
    (ordered : before.inOrder (.run c timedOut) = true)
    (taken : System.Step radix before (.run c timedOut) system) : Following system := by
  have balance : system.Balance := following.balance.step taken
  obtain ⟨call, found, taken⟩ := Option.bind_eq_some_iff.1 taken
  obtain ⟨⟨after, next⟩, executed, rfl⟩ := Option.map_eq_some_iff.1 taken
  have first : ∀ {branchId}, call.notes = true → call.op.changes = some branchId →
      (before.unnoted.find? fun other =>
        ((before.calls[other]?).bind (HttpCall.change branchId)).isSome) = some c := by
    intro branchId notes changes
    rw [System.inOrder, found] at ordered
    simp only [notes, changes, Bool.not_true, Bool.false_or, Option.all_some] at ordered
    exact of_decide_eq_true ordered
  cases section_tracks executed with
  | kept quiet sameNamespaces sameParents =>
    simp only [quiet, Bool.false_eq_true, if_false]
    exact following.quiet found executed quiet sameNamespaces sameParents balance
  | created treeId payload op phase done namespaces parents =>
    have notes : call.notes = true := by rw [HttpCall.notes, phase, op]
    have record := Client.record_insert namespaces parents
    simp only [notes, if_true]
    refine following.noted found executed (first notes (by rw [op]; rfl)) (fun change isChange => ?_)
      (fun other differs => by rw [record, if_neg differs]) (following.sameKeys.insert namespaces parents)
      (by rw [done]; rfl) balance
    rw [HttpCall.change, op] at isChange
    rw [record, if_pos rfl]
    exact Option.some.inj ((if_pos rfl).symm.trans isChange)
  | forked parentId childId op phase done namespaces parents =>
    have notes : call.notes = true := by rw [HttpCall.notes, phase, op]
    have record := Client.record_insert namespaces parents
    simp only [notes, if_true]
    refine following.noted found executed (first notes (by rw [op]; rfl)) (fun change isChange => ?_)
      (fun other differs => by rw [record, if_neg differs]) (following.sameKeys.insert namespaces parents)
      (by rw [done]; rfl) balance
    rw [HttpCall.change, op] at isChange
    rw [record, if_pos rfl]
    exact Option.some.inj ((if_pos rfl).symm.trans isChange)
  | killed treeId freed op phase done namespaces parents =>
    have notes : call.notes = true := by rw [HttpCall.notes, phase, op]
    have record := Client.record_erase namespaces parents
    simp only [notes, if_true]
    refine following.noted found executed (first notes (by rw [op]; rfl)) (fun change isChange => ?_)
      (fun other differs => by rw [record, if_neg differs]) (following.sameKeys.erase namespaces parents)
      (by rw [done]; rfl) balance
    rw [HttpCall.change, op] at isChange
    rw [record, if_pos rfl]
    exact Option.some.inj ((if_pos rfl).symm.trans isChange)

/-- A step that meets the condition. -/
theorem step (following : Following before) (allowed : orderly before action)
    (taken : System.Step radix before action system) : Following system := by
  cases action with
  | call op =>
    cases taken
    refine following.joined fun parentId unnamed => ?_
    have named := allowed.2
    rw [unnamed] at named
    simp [System.inOrder] at named
  | run c timedOut => exact following.run allowed.2 taken
  | serve c => exact following.serve taken
  | receive c =>
    obtain ⟨call, found, taken⟩ := Option.bind_eq_some_iff.1 taken
    split at taken
    · next reply answered =>
      cases taken
      refine following.moved found (by rw [answered]; rfl) rfl fun pending => ?_
      obtain ⟨changes, phase⟩ := (Bool.and_eq_true _ _).mp pending
      refine (Bool.and_eq_true _ _).mpr ⟨changes, ?_⟩
      rw [answered] at phase
      cases reply with
      | ok payload => rfl
      | error raised => cases phase
    · cases taken
  | lose c again => exact nomatch allowed.1
  | internal call =>
    cases taken
    exact following.sameRows (serve_sameRows before.cache allowed.1)

theorem of_reachable {pageSize : Nat} {treeQuotaTokens : Option Int}
    (reached : Reachable (System.Step radix) orderly (.start (.new pageSize treeQuotaTokens)) system) :
    Following system :=
  reached.invariant (start pageSize treeQuotaTokens) fun _ _ _ following allowed taken => following.step allowed taken

end Following

/-! ## Agreement -/

/-- The tracked branches are those of the server. -/
def System.Agrees (system : System τ) : Prop :=
  ∀ branchId, system.client.namespaces.get? branchId = (system.cache.branches.get? branchId).map (·.ns) ∧
    system.client.parents.get? branchId = (system.cache.branches.get? branchId).map (·.parentId)

def Phase.isFinished : Phase → Bool
  | .finished _ => true
  | _ => false

/-- No call is in progress. -/
def System.Quiet (system : System τ) : Prop := ∀ call ∈ system.calls, call.phase.isFinished = true

instance (system : System τ) : Decidable system.Quiet :=
  inferInstanceAs (Decidable (∀ call ∈ system.calls, _))

omit [DecidableEq τ] in
theorem Following.agrees (following : Following system) (quiet : system.Quiet) : system.Agrees := by
  have noChange : system.unnoted = [] := by
    refine List.eq_nil_iff_forall_not_mem.2 fun c member => ?_
    obtain ⟨call, found, pending⟩ := following.pending c member
    have finished := quiet call (List.mem_of_getElem? found)
    have phase := ((Bool.and_eq_true _ _).mp pending).2
    cases isPhase : call.phase with
    | finished outcome => rw [isPhase] at phase; cases phase
    | _ => rw [isPhase] at finished; cases finished
  intro branchId
  have same : system.client.record branchId = system.cache.row branchId :=
    following.row_of_settled (by rw [noChange]; rfl)
  have sameKeys := following.sameKeys branchId
  unfold Client.record row at same
  cases isNs : system.client.namespaces.get? branchId with
  | none =>
    cases isParent : system.client.parents.get? branchId with
    | some parentId =>
      have tracked := sameKeys.2 (Dict.mem_of_get? isParent)
      exact absurd tracked (Dict.get?_eq_none.1 isNs)
    | none =>
      rw [isNs] at same
      cases isBranch : system.cache.branches.get? branchId with
      | none => exact ⟨rfl, rfl⟩
      | some br => rw [isBranch] at same; cases same
  | some ns =>
    cases isParent : system.client.parents.get? branchId with
    | none =>
      have tracked := sameKeys.1 (Dict.mem_of_get? isNs)
      exact absurd tracked (Dict.get?_eq_none.1 isParent)
    | some parentId =>
      rw [isNs, isParent] at same
      cases isBranch : system.cache.branches.get? branchId with
      | none => rw [isBranch] at same; cases same
      | some br =>
        rw [isBranch] at same
        obtain ⟨sameNs, sameParent⟩ := Prod.mk.inj (Option.some.inj same)
        exact ⟨congrArg some sameNs, congrArg some sameParent⟩

/-- As long as the client notes the changes of each id in the order of the server,
both hold the same branches whenever no call is in progress, and no inference makes
a branch. -/
theorem client_and_server_agree {pageSize : Nat} {treeQuotaTokens : Option Int}
    (reached : Reachable (System.Step radix) orderly (.start (.new pageSize treeQuotaTokens)) system) :
    (system.Quiet → system.Agrees) ∧
      ∀ call ∈ system.calls, call.op.changes = none → call.phase = .requested →
        SameRows system.cache (call.serve radix system.cache).2 := by
  have following := Following.of_reachable reached
  refine ⟨following.agrees, fun call member noChange requested => ?_⟩
  obtain ⟨c, found⟩ := List.mem_iff_getElem?.1 member
  have serves := following.served radix found requested
  cases outcome : call.serve radix system.cache with
  | mk reply after =>
    rw [outcome] at serves
    cases serves with
    | kept same _ => exact same
    | changed branchId change isChange _ _ =>
      have changes : call.op.changes = some branchId := change_isSome.1 (by rw [isChange]; rfl)
      rw [noChange] at changes
      cases changes

/-- A child is forked, used and killed, each call after the other. -/
def oneByOne : List (HttpAction Nat) :=
  [.call (.createTree "a"), .run 0 false, .serve 0, .receive 0, .run 0 false,
    .call (.forkBranch "a" (some "b")), .run 1 false, .serve 1, .receive 1, .run 1 false, .run 1 false,
    .call (.generate "b" false none), .run 2 false, .serve 2, .receive 2, .run 2 false,
    .call (.kill "b"), .run 3 false, .serve 3, .receive 3, .run 3 false, .run 3 false]

theorem oneByOne_reached : Reachable (System.Step referenceCache) orderly (.start (.new 1 none))
    (runFrom (System.step referenceCache) (.start (.new 1 none)) oneByOne) :=
  reachable_runFrom (by decide) (by decide)

theorem oneByOne_agrees :
    (runFrom (System.step referenceCache) (.start (.new 1 none)) oneByOne).Agrees :=
  (client_and_server_agree oneByOne_reached).1 (by decide)

/-- The fork of a child is answered, the child is killed, and only then does the fork
track it. -/
def passing : List (HttpAction Nat) :=
  [.call (.createTree "a"), .run 0 false, .serve 0, .receive 0, .run 0 false,
    .call (.forkBranch "a" (some "b")), .run 1 false, .serve 1, .receive 1, .run 1 false,
    .call (.kill "b"), .run 2 false, .serve 2, .receive 2, .run 2 false, .run 2 false, .run 1 false]

/-- The killed child stays tracked. -/
theorem fork_and_kill_pass : ¬ ∀ system : System Nat,
    Reachable (System.Step referenceCache) (fun _ action => answered action = true) (.start (.new 1 none)) system →
      system.Quiet → system.Agrees := by
  intro claimed
  let system := runFrom (System.step referenceCache) (.start (.new 1 none)) passing
  have agrees := claimed system (reachable_runFrom (by decide) (by decide)) (by decide) "b"
  exact absurd agrees.1 (by decide)

end Agentfork.Sglang.HttpBackend

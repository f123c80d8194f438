import Agentfork.Sglang.ServerRuns

/-! # Which branches there are

Namespace and parent of a branch are given when it is made. The methods that make
or delete no branch leave all of them alone. -/

namespace Agentfork.Sglang.TreeRadixCache

open TreeCacheLifecycle

variable {τ : Type} {cache before middle after : TreeRadixCache τ} {branchId ns : String} {br : AgentBranch τ}

/-- Namespace and parent of a branch. -/
abbrev Row := String × Option String

def row (cache : TreeRadixCache τ) (branchId : String) : Option Row :=
  (cache.branches.get? branchId).map fun br => (br.ns, br.parentId)

def SameRows (before after : TreeRadixCache τ) : Prop := ∀ branchId, after.row branchId = before.row branchId

namespace SameRows

theorem of_branches (same : after.branches = before.branches) : SameRows before after :=
  fun branchId => by rw [row, row, same]

theorem trans (first : SameRows before middle) (second : SameRows middle after) : SameRows before after :=
  fun branchId => (second branchId).trans (first branchId)

theorem of_rows {stored : String} {old : AgentBranch τ} (found : before.branches.get? stored = some old)
    (storedBack : after.branches.get? stored = some br)
    (elsewhere : ∀ other, other ≠ stored → after.branches.get? other = before.branches.get? other)
    (sameNs : br.ns = old.ns) (sameParent : br.parentId = old.parentId) : SameRows before after := by
  intro branchId
  by_cases here : branchId = stored
  · subst here
    rw [row, row, found, storedBack, Option.map_some, Option.map_some, sameNs, sameParent]
  · rw [row, row, elsewhere branchId here]

/-- A branch is stored back. -/
theorem of_replace {stored : String} {old : AgentBranch τ} (found : before.branches.get? stored = some old)
    (rows : after.branches = before.branches.insert stored br) (sameNs : br.ns = old.ns)
    (sameParent : br.parentId = old.parentId) : SameRows before after :=
  of_rows found (by rw [rows, Dict.get?_insert, if_pos rfl])
    (fun other differs => by rw [rows, Dict.get?_insert, if_neg differs]) sameNs sameParent

end SameRows

variable [DecidableEq τ] {radix : RadixCache τ}

/-! ## Methods that leave the branches -/

omit [DecidableEq τ] in
theorem reserve_sameRows (cache : TreeRadixCache τ) (reserving : String) (numTokens : Int) :
    SameRows cache (cache.reserve reserving numTokens).2 := by
  rw [reserve]
  split
  next => exact .of_branches rfl
  next =>
    cases found : cache.branches.get? reserving with
    | none => exact .of_branches rfl
    | some br =>
      simp only
      split
      next => exact .of_branches rfl
      next => exact .of_replace found rfl rfl rfl

theorem demoteBranch_sameRows (cache : TreeRadixCache τ) (demoted : String) :
    SameRows cache (cache.demoteBranch radix demoted).2 := by
  cases found : cache.branches.get? demoted with
  | none =>
    simp only [demoteBranch, found]
    exact .of_branches rfl
  | some br =>
    simp only [demoteBranch, found]
    split
    next => exact .of_replace found rfl rfl rfl
    next => exact .of_branches rfl

theorem promoteBranch_sameRows (cache : TreeRadixCache τ) (promoted : String) :
    SameRows cache (cache.promoteBranch radix promoted).2 := by
  cases found : cache.branches.get? promoted with
  | none =>
    simp only [promoteBranch, found]
    exact .of_branches rfl
  | some br =>
    simp only [promoteBranch, found]
    split
    next => exact .of_replace found rfl rfl rfl
    next => exact .of_branches rfl

theorem repin_sameRows (cache : TreeRadixCache τ) (repinned : String) (br : AgentBranch τ) :
    SameRows cache (cache.repin radix repinned br) := by
  rw [repin]
  split
  next => exact promoteBranch_sameRows cache repinned
  next => exact .of_branches rfl

theorem invalidateTree_sameRows (cache : TreeRadixCache τ) (invalidated : String) :
    SameRows cache (cache.invalidateTree radix invalidated).2 := by
  cases found : cache.branches.get? invalidated with
  | none =>
    simp only [invalidateTree, found]
    exact .of_branches rfl
  | some br =>
    have repinned : SameRows cache (cache.repin radix invalidated br) := repin_sameRows cache invalidated br
    simp only [invalidateTree, found]
    split
    next => exact repinned
    next pinned foundPinned => exact repinned.trans (.of_replace foundPinned rfl rfl rfl)

theorem extendTree_sameRows (cache : TreeRadixCache τ) (extended : String) (tokenIds : List τ) :
    SameRows cache (cache.extendTree radix extended tokenIds).2 := by
  cases found : cache.branches.get? extended with
  | none =>
    simp only [extendTree, found]
    exact .of_branches rfl
  | some br =>
    simp only [extendTree, found]
    split
    next => exact .of_branches rfl
    next paid after outcome =>
      let matched : TreeRadixCache τ := { cache with
        tree := (radix.matchPrefix cache.tree ⟨br.tokenIds ++ tokenIds, br.ns⟩).1 }
      have isBranch : matched.branches.get? extended = some br := found
      obtain ⟨⟨reserved, rfl⟩, -, stored, elsewhere, -, -⟩ := payment_spec isBranch outcome
      have paid : SameRows cache after := .of_rows found stored elsewhere rfl rfl
      exact paid.trans (.of_replace stored rfl rfl rfl)

omit [DecidableEq τ] in
theorem matchTreePrefix_sameRows (cache : TreeRadixCache τ) (matched : String) (tokenIds : List τ) :
    SameRows cache (cache.matchTreePrefix radix matched tokenIds).2 := by
  cases found : cache.branches.get? matched with
  | none =>
    simp only [matchTreePrefix, found]
    exact .of_branches rfl
  | some br =>
    simp only [matchTreePrefix, found]
    exact .of_branches rfl

theorem commitRequestUpdate_sameRows {prepared : Prepared τ}
    (found : cache.branches.get? prepared.branchId = some prepared.br) :
    SameRows cache (cache.commitRequestUpdate radix prepared).2 := by
  simp only [commitRequestUpdate]
  split
  next => exact .of_branches rfl
  next =>
    split
    next => exact .of_branches rfl
    next charged paid outcome =>
      obtain ⟨rfl, rfl⟩ := charge_spec outcome
      let matched : TreeRadixCache τ := { cache with tree := (radix.matchPrefix cache.tree prepared.key).1 }
      let payer : AgentBranch τ := { prepared.br with
        reservedTokens := prepared.br.reservedTokens - fromReserve prepared.br prepared.charged }
      have pays : SameRows cache (matched.setBranch prepared.branchId payer) := .of_replace found rfl rfl rfl
      have stored : (matched.setBranch prepared.branchId payer).branches.get? prepared.branchId = some payer :=
        (Dict.get?_insert _ _ _ _).trans (if_pos rfl)
      exact pays.trans (.of_replace stored rfl rfl rfl)

theorem commitRequest_sameRows (cache : TreeRadixCache τ) (named : Option String) (isInsert : Bool)
    (tokenIds : List τ) (left : Tree τ) : SameRows cache (cache.commitRequest radix named isInsert tokenIds left).2 := by
  rw [commitRequest.eq_def]
  split
  next committing =>
    cases outcome : cache.prepareRequestUpdate radix committing tokenIds with
    | mk result after =>
      cases result with
      | error raised =>
        obtain ⟨tree, -, onlyTree⟩ := prepareRequestUpdate_tree radix cache committing tokenIds
        rw [outcome] at onlyTree
        exact .of_branches (by rw [show after = _ from onlyTree])
      | ok prepared =>
        obtain ⟨rfl, found, -, -, -, rfl⟩ := prepareRequestUpdate_spec outcome
        let swapped : TreeRadixCache τ := { cache with tree := left }
        have isBranch : swapped.branches.get? prepared.branchId = some prepared.br := found
        have swaps : SameRows cache swapped := .of_branches rfl
        exact swaps.trans (commitRequestUpdate_sameRows isBranch)
  next => exact .of_branches rfl

theorem cacheFinishedReq_sameRows (cache : TreeRadixCache τ) {req : Req} (goesOn : req.branchEnd = false)
    (isInsert : Bool) (tokenIds : List τ) (kvLenToHandle : Nat) (left : Tree τ) :
    SameRows cache (cache.cacheFinishedReq radix req isInsert tokenIds kvLenToHandle left).2 := by
  have commits : SameRows cache (cache.commitRequest radix req.branchId isInsert
    (tokenIds.take kvLenToHandle) left).2 := commitRequest_sameRows cache req.branchId isInsert _ left
  rw [cacheFinishedReq]
  split
  next outcome =>
    rw [outcome] at commits
    exact commits
  next committed outcome =>
    rw [outcome] at commits
    split
    next ended named =>
      simp only [goesOn, Bool.false_eq_true, if_false]
      exact commits
    next => exact commits

omit [DecidableEq τ] in
theorem reserveFor_sameRows (cache : TreeRadixCache τ) (reserving : String) (tokens : Option Int) :
    SameRows cache (reserveFor cache reserving tokens).2 := by
  rw [reserveFor.eq_def]
  split
  next =>
    split
    next => exact .of_branches rfl
    next => exact reserve_sameRows cache reserving _
  next => exact .of_branches rfl

/-! ## Methods that make or delete a branch -/

omit [DecidableEq τ] in
theorem createAgentTree_rows (cache : TreeRadixCache τ) (created : String) (given : Option String) :
    ((cache.createAgentTree created given).1.toBool = false ∧
      SameRows cache (cache.createAgentTree created given).2) ∨
    ((cache.createAgentTree created given).1.toBool = true ∧ cache.row created = none ∧
      ∀ other, (cache.createAgentTree created given).2.row other =
        if other = created then some (orElse given created, none) else cache.row other) := by
  rw [createAgentTree]
  split
  next => exact Or.inl ⟨rfl, .of_branches rfl⟩
  next absent =>
    refine Or.inr ⟨rfl, by rw [row, Dict.get?_eq_none.2 absent]; rfl, fun other => ?_⟩
    rw [row, row]
    change ((cache.branches.insert created _).get? other).map _ = _
    rw [Dict.get?_insert]
    split <;> rfl

/-- The fork of a branch that is there. -/
theorem forkBranch_rows (radix : RadixCache τ) {parentId : String} {grandparentId : Option String}
    (parent : cache.row parentId = some (ns, grandparentId)) {child : String} (named : child ≠ "") :
    ((cache.forkBranch radix parentId (some child)).1.toBool = false ∧
      SameRows cache (cache.forkBranch radix parentId (some child)).2) ∨
    ((cache.forkBranch radix parentId (some child)).1.toBool = true ∧ cache.row child = none ∧
      ∀ other, (cache.forkBranch radix parentId (some child)).2.row other =
        if other = child then some (ns, some parentId) else cache.row other) := by
  obtain ⟨parent, found, isParent⟩ := Option.map_eq_some_iff.1 parent
  obtain rfl : parent.ns = ns := (Prod.mk.inj isParent).1
  have sameChild : orElse (some child) s!"{parentId}/{cache.forkSeq}" = child := by
    rw [orElse]; exact if_neg named
  simp only [forkBranch, found, sameChild]
  split
  next => exact Or.inl ⟨rfl, .of_branches rfl⟩
  next absent =>
    refine Or.inr ⟨rfl, by rw [row, Dict.get?_eq_none.2 absent]; rfl, fun other => ?_⟩
    rw [row, row]
    change ((cache.branches.insert child _).get? other).map _ = _
    rw [Dict.get?_insert]
    split <;> rfl

theorem killTree_gone (cache : TreeRadixCache τ) (killed : String) :
    (cache.killTree radix killed).2.branches.get? killed = none := by
  cases found : cache.branches.get? killed with
  | none => simp only [killTree, found]
  | some br =>
    simp only [killTree, found]
    split
    next gone => exact gone
    next pinned _ => exact (Dict.get?_erase _ _ _).trans (if_pos rfl)

theorem killTree_row (cache : TreeRadixCache τ) (killed other : String) :
    (cache.killTree radix killed).2.row other = if other = killed then none else cache.row other := by
  by_cases same : other = killed
  · subst same
    rw [if_pos rfl, row, killTree_gone]
    rfl
  · rw [if_neg same, row, row, killTree_elsewhere same]

end Agentfork.Sglang.TreeRadixCache

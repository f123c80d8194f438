import Agentfork.Kv.ExactAdmission

/-! # Caches that hold the same

Two caches with the same limits that agree with one set model answer every later
call alike, apart from the serial numbers of their forks. They need not have come
there by the same calls. -/

namespace Agentfork.Kv

open Transition

variable {τ : Type} [DecidableEq τ]

/-! ## Models with the same branches -/

namespace PrefixModel

/-- The same branches, whatever their order. -/
def Same (first second : PrefixModel τ) : Prop := ∀ treeId, first.live.get? treeId = second.live.get? treeId

namespace Same

variable {first second : PrefixModel τ}

theorem owners (same : Same first second) (ns : String) (path : List τ) :
    first.owners ns path = second.owners ns path := by
  ext treeId
  rw [mem_owners, mem_owners, same treeId]

end Same

/-- The branches of `base` and copies of one of them under new ids. -/
structure Copies (base : PrefixModel τ) (parentId : String) (ids : List String) (model : PrefixModel τ) : Prop where
  live : ∀ treeId, model.live.get? treeId =
    if treeId ∈ ids then base.live.get? parentId else base.live.get? treeId
  fresh : ∀ treeId ∈ ids, base.live.get? treeId = none

namespace Copies

variable {base first second model : PrefixModel τ} {parentId : String} {ids : List String}

omit [DecidableEq τ] in
/-- Every copy is like a branch of `base`, and the branches of `base` are still there. -/
theorem branch_iff (copies : Copies base parentId ids model) (branch : Live τ) :
    (∃ treeId, model.live.get? treeId = some branch) ↔ ∃ treeId, base.live.get? treeId = some branch := by
  constructor
  · rintro ⟨treeId, live⟩
    rw [copies.live] at live
    split at live
    · exact ⟨parentId, live⟩
    · exact ⟨treeId, live⟩
  · rintro ⟨treeId, live⟩
    refine ⟨treeId, ?_⟩
    rw [copies.live, if_neg]
    · exact live
    · intro member
      rw [copies.fresh treeId member] at live
      cases live

theorem cached (copies : Copies base parentId ids model) (ns : String) : model.cached ns = base.cached ns := by
  ext path
  rw [mem_cached, mem_cached]
  refine and_congr_right fun _ => ?_
  have of_branch : ∀ model : PrefixModel τ, (model.owners ns path).Nonempty ↔
      ∃ branch, (∃ treeId, model.live.get? treeId = some branch) ∧ branch.ns = ns ∧ path <+: branch.tokens := by
    intro model
    constructor
    · rintro ⟨treeId, owner⟩
      obtain ⟨branch, live, goesThrough⟩ := mem_owners.1 owner
      exact ⟨branch, ⟨treeId, live⟩, goesThrough⟩
    · rintro ⟨branch, ⟨treeId, live⟩, goesThrough⟩
      exact ⟨treeId, mem_owners.2 ⟨branch, live, goesThrough⟩⟩
  rw [of_branch, of_branch]
  simp only [copies.branch_iff]

theorem totalCached (copies : Copies base parentId ids model) : model.totalCached = base.totalCached := by
  have namespaces : model.namespaces = base.namespaces := by
    ext ns
    rw [mem_namespaces, mem_namespaces]
    constructor
    · rintro ⟨treeId, branch, live, here⟩
      obtain ⟨other, live⟩ := (copies.branch_iff branch).1 ⟨treeId, live⟩
      exact ⟨other, branch, live, here⟩
    · rintro ⟨treeId, branch, live, here⟩
      obtain ⟨other, live⟩ := (copies.branch_iff branch).2 ⟨treeId, live⟩
      exact ⟨other, branch, live, here⟩
  rw [PrefixModel.totalCached, PrefixModel.totalCached, namespaces]
  exact Finset.sum_congr rfl fun ns _ => congrArg Finset.card (copies.cached ns)

omit [DecidableEq τ] in
theorem same (left : Copies base parentId ids first) (right : Copies base parentId ids second) : first.Same second :=
  fun treeId => (left.live treeId).trans (right.live treeId).symm

end Copies

end PrefixModel

theorem Agrees.congr {cache : TreeKVCache τ} {first second : PrefixModel τ} (agrees : Agrees cache first)
    (same : first.Same second) : Agrees cache second where
  trees treeId := by rw [← same]; exact agrees.trees treeId
  tokens treeId := by rw [← same]; exact agrees.tokens treeId
  roots ns := by
    rw [agrees.roots]
    simp only [same _]
  holds ns tree found := (agrees.holds ns tree found).congr fun path _ => same.owners ns path
  ends treeId branch tree live := agrees.ends treeId branch tree ((same treeId).trans live)
  resident := agrees.resident

/-! ## What a caller sees -/

/-- A result without the serial number of the fork. -/
def visible : Except CacheError Value → Except CacheError Value
  | .ok (.tree tid) => .ok (.tree { tid with childSeq := 0 })
  | .ok (.tokens count) => .ok (.tokens count)
  | .error raised => .error raised

/-- A fork is given the id of its child. -/
def Op.named : Op τ → Bool
  | .forkBranch _ childId => childId.any (· ≠ "")
  | _ => true

omit [DecidableEq τ] in
theorem Op.named_fork {parentId : String} {childId : Option String}
    (named : (Op.forkBranch parentId childId : Op τ).named = true) : ∃ child, childId = some child ∧ child ≠ "" := by
  obtain ⟨child, isChild, nonempty⟩ := (Option.any_eq_true _ _).1 named
  exact ⟨child, isChild, of_decide_eq_true nonempty⟩

theorem childName_given {child : String} (nonempty : child ≠ "") (parentId : String) (seq : Nat) :
    TreeKVCache.childName parentId (some child) seq = child := by
  rw [TreeKVCache.childName]
  exact if_neg nonempty

/-- A fork that succeeds gives the child the parent's sequence. -/
theorem Agrees.forkBranch_ok {cache : TreeKVCache τ} {model : PrefixModel τ} (agrees : Agrees cache model)
    {parentId child : String} (nonempty : child ≠ "") {value : Value}
    (forked : (cache.apply (.forkBranch parentId (some child))).1 = .ok value) :
    ∃ parent, model.live.get? parentId = some parent ∧ model.live.get? child = none ∧
      model.next (.forkBranch parentId (some child)) (.ok value) = ⟨model.live.insert child parent⟩ := by
  simp only [TreeKVCache.apply, Prod.map_fst, TreeKVCache.forkBranch, childName_given nonempty] at forked
  cases parentFound : cache.trees.get? parentId with
  | none =>
    simp only [parentFound] at forked
    cases forked
  | some tid =>
    obtain ⟨parent, live, sameNs⟩ := agrees.branch_of_tree parentFound
    obtain ⟨tree, rootFound⟩ := agrees.root_of_branch live
    rw [sameNs] at rootFound
    simp only [parentFound, agrees.tokens_of_branch live, rootFound] at forked
    split at forked
    · cases forked
    · next absent =>
      cases forked
      refine ⟨parent, live, agrees.tree_absent.1 (Dict.get?_eq_none.2 absent), ?_⟩
      simp only [PrefixModel.next, live]

omit [DecidableEq τ] in
/-- The model does not look at the serial number. -/
theorem next_visible (model : PrefixModel τ) (op : Op τ) (result : Except CacheError Value) :
    model.next op (visible result) = model.next op result := by
  cases result with
  | error raised => rfl
  | ok value => cases value <;> cases op <;> rfl

/-- The limits that a cache was made with. -/
def TreeKVCache.limits (cache : TreeKVCache τ) : Nat × Option Nat := (cache.capacity, cache.perTreeBudget)

theorem Agrees.limits_perform {cache : TreeKVCache τ} {model : PrefixModel τ} (agrees : Agrees cache model)
    (op : Op τ) : (cache.perform op).limits = cache.limits := by
  have of_still : ∀ {before after : TreeKVCache τ}, before.Still after → after.limits = before.limits := by
    intro before after still
    rw [still]
    rfl
  rw [TreeKVCache.perform, TreeKVCache.apply.eq_def]
  cases op with
  | createTree treeId =>
    simp only [Prod.map_snd, TreeKVCache.createTree]
    split <;> rfl
  | forkBranch parentId childId =>
    simp only [Prod.map_snd, TreeKVCache.forkBranch]
    repeat' split
    all_goals rfl
  | extend now treeId tokens =>
    cases live : model.live.get? treeId with
    | none => simp only [agrees.extend_absent live, Prod.map_snd, id]
    | some branch =>
      have outcome := agrees.extend_outcome live now tokens
      split at outcome
      next => exact of_still outcome.2
      next =>
        split at outcome
        next => exact of_still outcome.2
        next => exact (of_still outcome.2).trans rfl
  | kill treeId =>
    simp only [Prod.map_snd, TreeKVCache.kill]
    repeat' split
    all_goals rfl
  | matchPrefix now tokens => rfl
  | matchTreePrefix now treeId tokens =>
    simp only [Prod.map_snd, TreeKVCache.matchTreePrefix]
    repeat' split
    all_goals rfl

/-! ## Two caches -/

/-- Both caches hold what the model says, within the same limits. -/
structure SameHoldings (first second : TreeKVCache τ) (model : PrefixModel τ) : Prop where
  left : Agrees first model
  right : Agrees second model
  limits : second.limits = first.limits

namespace SameHoldings

variable {first second : TreeKVCache τ} {model : PrefixModel τ}

theorem resident (same : SameHoldings first second model) : second.residentTokens = first.residentTokens := by
  have left := same.left.resident
  have right := same.right.resident
  change _ = ((first.reachableTokens : Nat) : Int) at left
  change _ = ((second.reachableTokens : Nat) : Int) at right
  rw [same.left.reachableTokens_eq] at left
  rw [same.right.reachableTokens_eq] at right
  exact right.trans left.symm

theorem present_iff (same : SameHoldings first second model) (treeId : String) :
    treeId ∈ second.trees ↔ treeId ∈ first.trees := by
  have absent := same.right.tree_absent.trans (same.left.tree_absent : first.trees.get? treeId = none ↔ _).symm
  rw [Dict.get?_eq_none, Dict.get?_eq_none, not_iff_not] at absent
  exact absent

theorem forkBranch (same : SameHoldings first second model) (parentId : String) {child : String} (nonempty : child ≠ "") :
    visible (Except.map .tree (first.forkBranch parentId (some child)).1) =
      visible (Except.map .tree (second.forkBranch parentId (some child)).1) := by
  simp only [TreeKVCache.forkBranch, childName_given nonempty, same.present_iff]
  cases live : model.live.get? parentId with
  | none => simp only [same.left.tree_absent.2 live, same.right.tree_absent.2 live]
  | some branch =>
    obtain ⟨tid, found, sameNs⟩ := same.left.tree_of_branch live
    obtain ⟨other, otherFound, otherNs⟩ := same.right.tree_of_branch live
    obtain ⟨tree, rootFound⟩ := same.left.root_of_branch live
    obtain ⟨otherTree, otherRootFound⟩ := same.right.root_of_branch live
    simp only [found, otherFound, same.left.tokens_of_branch live, same.right.tokens_of_branch live, sameNs, otherNs,
      rootFound, otherRootFound]
    split
    next => rfl
    next => simp only [Except.map, visible]

theorem extend (same : SameHoldings first second model) (now : Nat) (treeId : String) (tokens : List τ) :
    (first.extend now treeId tokens).1 = (second.extend now treeId tokens).1 := by
  cases live : model.live.get? treeId with
  | none => rw [same.left.extend_absent live, same.right.extend_absent live]
  | some branch =>
    have resident := same.resident
    rw [TreeKVCache.residentTokens, TreeKVCache.residentTokens] at resident
    obtain ⟨capacity, budget⟩ := Prod.mk.inj same.limits
    have outcome := same.left.extend_outcome live now tokens
    have otherOutcome := same.right.extend_outcome live now tokens
    have message : second.budgetMessage branch.ns = first.budgetMessage branch.ns := by
      rw [TreeKVCache.budgetMessage, TreeKVCache.budgetMessage, budget]
    rw [capacity, budget, resident, message] at otherOutcome
    split at outcome
    next exceeds =>
      rw [if_pos exceeds] at otherOutcome
      exact outcome.1.trans otherOutcome.1.symm
    next notOver =>
      rw [if_neg notOver] at otherOutcome
      split at outcome
      next full =>
        rw [if_pos full] at otherOutcome
        exact outcome.1.trans otherOutcome.1.symm
      next notFull =>
        rw [if_neg notFull] at otherOutcome
        exact outcome.1.trans otherOutcome.1.symm

theorem kill (same : SameHoldings first second model) (treeId : String) :
    (first.kill treeId).1 = (second.kill treeId).1 := by
  cases live : model.live.get? treeId with
  | none => simp only [TreeKVCache.kill, same.left.tree_absent.2 live, same.right.tree_absent.2 live]
  | some branch => rw [same.left.kill_result live, same.right.kill_result live]

theorem matchTreePrefix (same : SameHoldings first second model) (now : Nat) (treeId : String) (tokens : List τ) :
    (first.matchTreePrefix now treeId tokens).1 = (second.matchTreePrefix now treeId tokens).1 := by
  cases live : model.live.get? treeId with
  | none => simp only [TreeKVCache.matchTreePrefix, same.left.tree_absent.2 live, same.right.tree_absent.2 live]
  | some branch => rw [same.left.matchTreePrefix_result live, same.right.matchTreePrefix_result live]

/-- Every call gives the same visible result on both, and they go on to hold the same. -/
theorem perform (same : SameHoldings first second model) (op : Op τ) (named : op.named = true)
    (allowed : ∀ treeId, op = .createTree treeId → model.live.get? treeId = none → Agrees.Unused model treeId) :
    visible (first.apply op).1 = visible (second.apply op).1 ∧
      SameHoldings (first.perform op) (second.perform op) (model.next op (first.apply op).1) := by
  have sameResult : visible (first.apply op).1 = visible (second.apply op).1 := by
    cases op with
    | createTree treeId =>
      simp only [TreeKVCache.apply, Prod.map_fst, TreeKVCache.createTree, same.present_iff]
      split <;> rfl
    | forkBranch parentId childId =>
      obtain ⟨child, rfl, nonempty⟩ := Op.named_fork named
      exact same.forkBranch parentId nonempty
    | extend now treeId tokens => simp only [TreeKVCache.apply, Prod.map_fst, same.extend now treeId tokens]
    | kill treeId => simp only [TreeKVCache.apply, Prod.map_fst, same.kill treeId]
    | matchPrefix now tokens =>
      have matched : (first.matchPrefix now tokens).1 = (second.matchPrefix now tokens).1 :=
        eq_of_forall_ge_iff fun bound => (Alike.matchPrefix_le same.left now tokens bound).trans
          (Alike.matchPrefix_le same.right now tokens bound).symm
      simp only [TreeKVCache.apply, Prod.map_fst, matched]
    | matchTreePrefix now treeId tokens =>
      simp only [TreeKVCache.apply, Prod.map_fst, same.matchTreePrefix now treeId tokens]
  refine ⟨sameResult, same.left.perform op allowed, ?_, ?_⟩
  · rw [← next_visible, sameResult, next_visible]
    exact same.right.perform op allowed
  · rw [same.right.limits_perform, same.left.limits_perform, same.limits]

/-- A whole run of calls that creates no root. -/
theorem results (same : SameHoldings first second model) {ops : List (Op τ)}
    (named : ∀ op ∈ ops, op.named = true ∧ ∀ treeId, op ≠ .createTree treeId) :
    (first.results ops).map visible = (second.results ops).map visible := by
  induction ops generalizing first second model with
  | nil => rfl
  | cons op ops inductionHypothesis =>
    obtain ⟨isNamed, notCreate⟩ := named op List.mem_cons_self
    obtain ⟨sameResult, stillSame⟩ := same.perform op isNamed fun treeId isCreate => absurd isCreate (notCreate treeId)
    simp only [TreeKVCache.results, List.map_cons, sameResult]
    exact congrArg _ (inductionHypothesis stillSame fun later member => named later (List.mem_cons_of_mem _ member))

end SameHoldings

end Agentfork.Kv

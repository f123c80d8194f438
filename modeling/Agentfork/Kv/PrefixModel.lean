import Agentfork.Kv.TreeCache

/-! # What the cache is for

Each live branch has a namespace and a token sequence, and a namespace caches
exactly the nonempty prefixes of the sequences of its live branches. The model
follows a run by looking only at which calls succeed and which id a fork got. -/

namespace Agentfork.Kv

/-- A live branch. -/
structure Live (τ : Type) where
  ns : String
  tokens : List τ
  deriving DecidableEq

structure PrefixModel (τ : Type) where
  live : Dict String (Live τ)

namespace PrefixModel

variable {τ : Type} [DecidableEq τ]

def init : PrefixModel τ := ⟨.empty⟩

/-- The branches after a call with the given result. -/
def next (model : PrefixModel τ) : Op τ → Except CacheError Value → PrefixModel τ
  | .createTree treeId, .ok _ => ⟨model.live.insert treeId ⟨treeId, []⟩⟩
  | .forkBranch parentId _, .ok (.tree tid) =>
    match model.live.get? parentId with
    | none => model
    | some parent => ⟨model.live.insert tid.treeId parent⟩
  | .extend _ treeId tokens, .ok _ =>
    match model.live.get? treeId with
    | none => model
    | some branch => ⟨model.live.insert treeId { branch with tokens := branch.tokens ++ tokens }⟩
  | .kill treeId, .ok _ => ⟨model.live.erase treeId⟩
  | _, _ => model

/-- The prefixes that one id contributes to a namespace. -/
def share (model : PrefixModel τ) (ns treeId : String) : Finset (List τ) :=
  match model.live.get? treeId with
  | none => ∅
  | some branch => if branch.ns = ns then prefixes branch.tokens else ∅

/-- The set a namespace caches. -/
def cached (model : PrefixModel τ) (ns : String) : Finset (List τ) :=
  model.live.keys.toFinset.biUnion (model.share ns)

/-- The part of it that branches other than `treeId` account for. -/
def cachedByOthers (model : PrefixModel τ) (treeId ns : String) : Finset (List τ) :=
  (model.live.keys.toFinset.erase treeId).biUnion (model.share ns)

def namespaces (model : PrefixModel τ) : Finset String :=
  (model.live.values.map Live.ns).toFinset

def totalCached (model : PrefixModel τ) : Nat :=
  ∑ ns ∈ model.namespaces, (model.cached ns).card

/-- The branches of a namespace whose sequence goes through `path`. -/
def owners (model : PrefixModel τ) (ns : String) (path : List τ) : Finset String :=
  model.live.keys.toFinset.filter fun treeId =>
    (model.live.get? treeId).any fun branch => branch.ns = ns ∧ path <+: branch.tokens

theorem mem_owners {model : PrefixModel τ} {ns treeId : String} {path : List τ} :
    treeId ∈ model.owners ns path ↔
      ∃ branch, model.live.get? treeId = some branch ∧ branch.ns = ns ∧ path <+: branch.tokens := by
  simp only [owners, Finset.mem_filter, List.mem_toFinset, Dict.mem_keys, Dict.mem_iff_get?]
  cases model.live.get? treeId <;> simp

theorem mem_share {model : PrefixModel τ} {ns treeId : String} {path : List τ} :
    path ∈ model.share ns treeId ↔ path ≠ [] ∧ treeId ∈ model.owners ns path := by
  rw [mem_owners, share]
  cases model.live.get? treeId with
  | none => simp
  | some branch =>
    by_cases here : branch.ns = ns <;> simp [here, mem_prefixes]

theorem mem_cached {model : PrefixModel τ} {ns : String} {path : List τ} :
    path ∈ model.cached ns ↔ path ≠ [] ∧ (model.owners ns path).Nonempty := by
  simp only [cached, Finset.mem_biUnion, mem_share]
  constructor
  · rintro ⟨treeId, _, nonempty, owner⟩
    exact ⟨nonempty, treeId, owner⟩
  · rintro ⟨nonempty, treeId, owner⟩
    exact ⟨treeId, (Finset.mem_filter.1 owner).1, nonempty, owner⟩

theorem mem_cachedByOthers {model : PrefixModel τ} {treeId ns : String} {path : List τ} :
    path ∈ model.cachedByOthers treeId ns ↔
      path ≠ [] ∧ ((model.owners ns path).erase treeId).Nonempty := by
  simp only [cachedByOthers, Finset.mem_biUnion, mem_share, Finset.mem_erase]
  constructor
  · rintro ⟨other, ⟨differs, _⟩, nonempty, owner⟩
    exact ⟨nonempty, other, Finset.mem_erase.2 ⟨differs, owner⟩⟩
  · rintro ⟨nonempty, other, owner⟩
    obtain ⟨differs, owner⟩ := Finset.mem_erase.1 owner
    exact ⟨other, ⟨differs, (Finset.mem_filter.1 owner).1⟩, nonempty, owner⟩

omit [DecidableEq τ] in
theorem mem_namespaces {model : PrefixModel τ} {ns : String} :
    ns ∈ model.namespaces ↔ ∃ treeId branch, model.live.get? treeId = some branch ∧ branch.ns = ns := by
  simp only [namespaces, List.mem_toFinset, List.mem_map, Dict.mem_values]
  constructor
  · rintro ⟨branch, ⟨treeId, found⟩, here⟩
    exact ⟨treeId, branch, found, here⟩
  · rintro ⟨treeId, branch, found, here⟩
    exact ⟨branch, ⟨treeId, found⟩, here⟩

/-- Owners after a branch has been set to a new sequence in its namespace. -/
theorem owners_insert {model : PrefixModel τ} {treeId ns : String} {branch : Live τ} {path : List τ} :
    (PrefixModel.mk (model.live.insert treeId branch)).owners ns path =
      if branch.ns = ns ∧ path <+: branch.tokens then insert treeId (model.owners ns path)
      else (model.owners ns path).erase treeId := by
  ext other
  rw [mem_owners]
  simp only [Dict.get?_insert]
  by_cases holds : branch.ns = ns ∧ path <+: branch.tokens
  · rw [if_pos holds]
    by_cases same : other = treeId <;> simp [same, holds, mem_owners]
  · rw [if_neg holds]
    by_cases same : other = treeId
    · simpa [same] using holds
    · simp [same, mem_owners]

theorem owners_erase {model : PrefixModel τ} {treeId ns : String} {path : List τ} :
    (PrefixModel.mk (model.live.erase treeId)).owners ns path = (model.owners ns path).erase treeId := by
  ext other
  rw [mem_owners, Finset.mem_erase, mem_owners]
  simp only [Dict.get?_erase]
  by_cases same : other = treeId <;> simp [same]

theorem not_mem_owners {model : PrefixModel τ} {treeId ns : String} {path : List τ}
    (absent : model.live.get? treeId = none) : treeId ∉ model.owners ns path := by
  rw [mem_owners, absent]
  simp

/-- When all branches are on the way to one of them, its sequence is what is cached. -/
theorem totalCached_of_longest {model : PrefixModel τ} {ns treeId : String} {tokens : List τ}
    (longest : model.live.get? treeId = some ⟨ns, tokens⟩)
    (within : ∀ other branch, model.live.get? other = some branch → branch.ns = ns ∧ branch.tokens <+: tokens) :
    model.totalCached = tokens.length := by
  have one : model.namespaces = {ns} := by
    ext other
    rw [mem_namespaces, Finset.mem_singleton]
    constructor
    · rintro ⟨otherId, branch, found, rfl⟩
      exact (within otherId branch found).1
    · rintro rfl
      exact ⟨treeId, _, longest, rfl⟩
  have cached : model.cached ns = prefixes tokens := by
    ext path
    rw [mem_cached, mem_prefixes]
    refine and_congr_right fun _ => ⟨fun owned => ?_, fun isPrefix => ?_⟩
    · obtain ⟨owner, member⟩ := owned
      obtain ⟨branch, found, _, isPrefix⟩ := mem_owners.1 member
      exact isPrefix.trans (within owner branch found).2
    · exact ⟨treeId, mem_owners.2 ⟨_, longest, rfl, isPrefix⟩⟩
  rw [totalCached, one, Finset.sum_singleton, cached, card_prefixes]

end PrefixModel

end Agentfork.Kv

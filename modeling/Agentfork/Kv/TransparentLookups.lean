import Agentfork.Kv.ExactAdmission

/-! # Lookups change nothing that anybody sees

A lookup splits nodes and touches access times. The run with the lookups and the
run without them go through caches that are alike, so they answer alike. -/

namespace Agentfork.Kv

open Transition

variable {τ : Type} [DecidableEq τ]

namespace Op

def isLookup : Op τ → Bool
  | .matchPrefix _ _ | .matchTreePrefix _ _ _ => true
  | _ => false

/-- The call without its reading of the clock. -/
def timeless : Op τ → Op τ
  | .extend _ treeId tokens => .extend 0 treeId tokens
  | op => op

end Op

/-- The second run is the first one with lookups in between; its calls happen at
times of their own. -/
inductive Interposed : List (Op τ) → List (Op τ) → Prop where
  | nil : Interposed [] []
  | lookup {ops mixed : List (Op τ)} {op : Op τ} : op.isLookup = true → Interposed ops mixed →
      Interposed ops (op :: mixed)
  | call {ops mixed : List (Op τ)} {op again : Op τ} : op.isLookup = false → again.timeless = op.timeless →
      Interposed ops mixed → Interposed (op :: ops) (again :: mixed)

namespace TreeKVCache

/-- Of each call that is no lookup: its result, and the counters after it. -/
def observed (cache : TreeKVCache τ) : List (Op τ) → List (Except CacheError Value × Int × CacheStats)
  | [] => []
  | op :: ops =>
    let after := cache.perform op
    if op.isLookup then after.observed ops
    else ((cache.apply op).1, after.residentTokens, after.stats) :: after.observed ops

theorem observed_lookup (cache : TreeKVCache τ) {op : Op τ} (isLookup : op.isLookup = true) (ops : List (Op τ)) :
    cache.observed (op :: ops) = (cache.perform op).observed ops := if_pos isLookup

theorem observed_call (cache : TreeKVCache τ) {op : Op τ} (notLookup : op.isLookup = false) (ops : List (Op τ)) :
    cache.observed (op :: ops) = ((cache.apply op).1, (cache.perform op).residentTokens,
      (cache.perform op).stats) :: (cache.perform op).observed ops := by
  rw [observed, if_neg (by rw [notLookup]; exact Bool.false_ne_true)]

end TreeKVCache

namespace Alike

variable {first second : TreeKVCache τ} {model : PrefixModel τ}

/-- A lookup on one side only. -/
theorem lookup (alike : Alike first second model) {op : Op τ} (isLookup : op.isLookup = true) :
    Alike first (second.perform op) model := by
  have sameModel : ∀ result, model.next op result = model := by
    intro result
    cases op with
    | matchPrefix | matchTreePrefix => cases result <;> rfl
    | _ => cases isLookup
  have right := alike.right.perform op fun treeId isCreate => by subst isCreate; cases isLookup
  rw [sameModel] at right
  refine ⟨alike.left, right, ?_⟩
  have sameBooks : second.Still (second.perform op) := by
    cases op with
    | matchPrefix now tokens => rfl
    | matchTreePrefix now treeId tokens =>
      simp only [TreeKVCache.perform, TreeKVCache.apply, TreeKVCache.matchTreePrefix]
      split
      · rfl
      · split <;> rfl
    | _ => cases isLookup
  rw [TreeKVCache.Still, sameBooks, alike.still]

/-- The same call on both sides, at different times. -/
theorem retimed (alike : Alike first second model) {op again : Op τ} (same : again.timeless = op.timeless)
    (allowed : ∀ treeId, op = .createTree treeId → model.live.get? treeId = none → Agrees.Unused model treeId) :
    (second.apply again).1 = (first.apply op).1 ∧
      Alike (first.perform op) (second.perform again) (model.next op (first.apply op).1) := by
  cases op with
  | extend now treeId tokens =>
    cases again with
    | extend later other others =>
      simp only [Op.timeless, Op.extend.injEq, true_and] at same
      obtain ⟨rfl, rfl⟩ := same
      obtain ⟨sameResult, still⟩ := alike.extend now later other others
      have sameAnswer : (second.apply (.extend later other others)).1 = (first.apply (.extend now other others)).1 := by
        simp only [TreeKVCache.apply, Prod.map_fst, sameResult]
      have left := alike.left.perform (.extend now other others) allowed
      have right := alike.right.perform (.extend later other others) fun _ creates => by cases creates
      have sameModel : ∀ result, model.next (.extend later other others) result =
          model.next (.extend now other others) result := fun result => by cases result <;> rfl
      rw [sameAnswer, sameModel] at right
      exact ⟨sameAnswer, left, right, still⟩
    | _ => cases same
  | _ =>
    cases again <;> cases same
    obtain ⟨sameResult, stillAlike⟩ := alike.perform _ allowed
    exact ⟨sameResult.symm, stillAlike⟩

theorem stats (alike : Alike first second model) : second.stats = first.stats := by rw [alike.still]

end Alike

namespace Tracked

theorem observed_alike {ops mixed : List (Op τ)} (interposed : Interposed ops mixed) {state : Tracked τ}
    {second : TreeKVCache τ} (alike : Alike state.cache second state.model)
    (free : Meets (fun state op => some (state.step op)) NamespaceFree state ops) :
    second.observed mixed = state.cache.observed ops := by
  induction interposed generalizing state second with
  | nil => rfl
  | lookup isLookup _ inductionHypothesis =>
    rw [TreeKVCache.observed_lookup second isLookup]
    exact inductionHypothesis (alike.lookup isLookup) free
  | @call ops mixed op again notLookup same _ inductionHypothesis =>
    have againNotLookup : again.isLookup = false := by
      cases op <;> cases again <;> cases same
      all_goals exact notLookup
    obtain ⟨sameAnswer, stillAlike⟩ := alike.retimed same (unused_of_free alike.left free.1)
    have sameStats := stillAlike.stats
    rw [TreeKVCache.observed_call second againNotLookup, TreeKVCache.observed_call state.cache notLookup, sameAnswer,
      TreeKVCache.residentTokens, TreeKVCache.residentTokens, sameStats]
    exact congrArg _ (inductionHypothesis stillAlike free.2)

/-- Every run answers and counts the same with lookups in between as without them. -/
theorem lookups_are_transparent {capacityTokens : Int} {perTreeBudget : Option Int} {start : TreeKVCache τ}
    {ops mixed : List (Op τ)} (created : TreeKVCache.new capacityTokens perTreeBudget = .ok start)
    (free : Meets (fun state op => some (state.step op)) NamespaceFree ⟨start, PrefixModel.init⟩ ops)
    (interposed : Interposed ops mixed) : start.observed mixed = start.observed ops := by
  have agrees := Agrees.of_new created
  have alike : Alike start start PrefixModel.init := ⟨agrees, agrees, rfl⟩
  exact observed_alike interposed alike free

/-- A fork, a divergence and a kill with two lookups that split the only node. -/
theorem forked_lookups_are_transparent :
    let ops : List (Op Nat) := [.createTree "p", .extend 1 "p" [1, 2, 3, 4], .forkBranch "p" (some "c"), .kill "p"]
    let mixed : List (Op Nat) := [.createTree "p", .extend 1 "p" [1, 2, 3, 4], .matchPrefix 2 [1, 2, 9],
      .forkBranch "p" (some "c"), .matchTreePrefix 3 "c" [1, 9], .kill "p"]
    (TreeKVCache.fresh 100 none).observed mixed = (TreeKVCache.fresh 100 none).observed ops := by
  have created : TreeKVCache.new 100 none = .ok (.fresh 100 none : TreeKVCache Nat) := rfl
  refine lookups_are_transparent created (by decide) ?_
  exact .call rfl rfl (.call rfl rfl (.lookup rfl (.call rfl rfl (.lookup rfl (.call rfl rfl .nil)))))

end Tracked

end Agentfork.Kv

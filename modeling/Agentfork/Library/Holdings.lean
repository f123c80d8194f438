import Mathlib.Algebra.Order.Group.Multiset
import Mathlib.Data.Finset.Erase

/-! # What the tasks of a list hold

Tasks that each hold at most one thing of a kind: a lock, an id, a place in a
count. A table of what is held and the list of the tasks are about the same things
as long as each step of a task changes both alike. -/

namespace Agentfork

variable {α κ : Type}

/-- What the tasks hold, as often as it is held. -/
def holdings (held : α → Option κ) (tasks : List α) : Multiset κ := (tasks.filterMap held : Multiset κ)

variable {held : α → Option κ} {tasks : List α} {c : Nat} {before after : α} {key : κ}

theorem mem_holdings : key ∈ holdings held tasks ↔ ∃ task ∈ tasks, held task = some key := by
  simp [holdings, List.mem_filterMap]

@[simp] theorem holdings_nil : holdings held [] = 0 := rfl

theorem holdings_cons (task : α) (rest : List α) :
    holdings held (task :: rest) = (held task).elim 0 (fun key => {key}) + holdings held rest := by
  unfold holdings
  cases holds : held task with
  | none => simp [holds]
  | some key => simp [holds]

theorem holdings_append (first second : List α) :
    holdings held (first ++ second) = holdings held first + holdings held second := by
  simp [holdings, List.filterMap_append]

/-- A step of one task. -/
theorem holdings_set (found : tasks[c]? = some before) :
    holdings held (tasks.set c after) + (held before).elim 0 (fun key => {key}) =
      holdings held tasks + (held after).elim 0 (fun key => {key}) := by
  induction tasks generalizing c with
  | nil => cases found
  | cons task rest inductionHypothesis =>
    cases c with
    | zero =>
      cases found
      rw [List.set_cons_zero, holdings_cons, holdings_cons]
      ac_rfl
    | succ c =>
      rw [List.set_cons_succ, holdings_cons, holdings_cons, add_assoc, inductionHypothesis found, add_assoc]

theorem holdings_keeps (held : α → Option κ) (found : tasks[c]? = some before) (same : held after = held before) :
    holdings held (tasks.set c after) = holdings held tasks := by
  have moved := @holdings_set _ _ held _ _ _ after found
  rw [same] at moved
  exact add_right_cancel moved

theorem holdings_takes (held : α → Option κ) (found : tasks[c]? = some before) (free : held before = none)
    (takes : held after = some key) :
    holdings held (tasks.set c after) = key ::ₘ holdings held tasks := by
  have moved := @holdings_set _ _ held _ _ _ after found
  rw [free, takes, Option.elim_none, Option.elim_some, add_zero, add_comm] at moved
  exact moved

/-- What is held once is held by one task. -/
theorem same_holder {i j : Nat} {first second : α} (once : (holdings held tasks).Nodup) (isFirst : tasks[i]? = some first)
    (isSecond : tasks[j]? = some second) (firstHolds : held first = some key) (secondHolds : held second = some key) :
    i = j := by
  induction tasks generalizing i j with
  | nil => cases isFirst
  | cons task rest inductionHypothesis =>
    rw [holdings_cons] at once
    have apart : ∀ {k : Nat} {other : α}, held task = some key → rest[k]? = some other → held other ≠ some key := by
      intro k other holds isOther otherHolds
      have isHeld : key ∈ holdings held rest := mem_holdings.2 ⟨other, List.mem_of_getElem? isOther, otherHolds⟩
      rw [holds, Option.elim_some] at once
      exact Multiset.disjoint_left.1 (Multiset.nodup_add.1 once).2.2 (Multiset.mem_singleton_self key) isHeld
    cases i with
    | zero =>
      cases isFirst
      cases j with
      | zero => rfl
      | succ j => exact absurd secondHolds (apart firstHolds isSecond)
    | succ i =>
      cases j with
      | zero =>
        cases isSecond
        exact absurd firstHolds (apart secondHolds isFirst)
      | succ j => exact congrArg _ (inductionHypothesis (Multiset.nodup_add.1 once).2.1 isFirst isSecond)

variable [DecidableEq κ]

theorem holdings_lets_go (held : α → Option κ) (found : tasks[c]? = some before) (holds : held before = some key)
    (free : held after = none) :
    holdings held (tasks.set c after) = (holdings held tasks).erase key := by
  have moved := @holdings_set _ _ held _ _ _ after found
  rw [holds, free, Option.elim_none, Option.elim_some, add_zero, add_comm, Multiset.singleton_add] at moved
  rw [← moved, Multiset.erase_cons_head]

end Agentfork

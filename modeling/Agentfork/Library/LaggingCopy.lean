import Mathlib.Data.List.Basic

/-! # A copy that lags behind

An original takes changes, and a copy takes each of them some time later. While
changes are under way the two differ, but the changes lead from the copy to the
original, one after the other, and each finds what it needs. A copy that takes
the changes in their order stays on this way and ends at the original. -/

namespace Agentfork.LaggingCopy

variable {σ ε ι : Type}

/-- A change with what it needs to find and what it leaves. -/
structure Changes (σ ε : Type) where
  allowed : ε → σ → Prop
  result : ε → σ

/-- The changes lead from the copy to the original. -/
def Leads (changes : Changes σ ε) : σ → List ε → σ → Prop
  | copy, [], original => copy = original
  | copy, change :: later, original =>
    changes.allowed change copy ∧ Leads changes (changes.result change) later original

variable {changes : Changes σ ε} {copy original : σ} {underWay : List ε} {change : ε}

/-- The original takes one more change. -/
theorem Leads.append (leads : Leads changes copy underWay original) (allowed : changes.allowed change original) :
    Leads changes copy (underWay ++ [change]) (changes.result change) := by
  induction underWay generalizing copy with
  | nil =>
    cases leads
    exact ⟨allowed, rfl⟩
  | cons first later inductionHypothesis => exact ⟨leads.1, inductionHypothesis leads.2⟩

/-! ## The changes of one key among all that are under way -/

variable [DecidableEq ι] {changeOf : ι → Option ε} {pending : List ι} {i : ι}

theorem filterMap_erase_of_none (other : changeOf i = none) :
    (pending.erase i).filterMap changeOf = pending.filterMap changeOf := by
  induction pending with
  | nil => rfl
  | cons first later inductionHypothesis =>
    by_cases same : first = i
    · subst same
      rw [List.erase_cons_head, List.filterMap_cons_none other]
    · rw [List.erase_cons_tail (by simpa using same)]
      simp only [List.filterMap_cons, inductionHypothesis]

theorem filterMap_erase_first (first : (pending.find? fun other => (changeOf other).isSome) = some i) :
    ∃ change, changeOf i = some change ∧
      pending.filterMap changeOf = change :: (pending.erase i).filterMap changeOf := by
  induction pending with
  | nil => cases first
  | cons head later inductionHypothesis =>
    cases isChange : changeOf head with
    | some change =>
      rw [List.find?_cons_of_pos (by rw [isChange]; rfl)] at first
      cases first
      exact ⟨change, isChange, by rw [List.filterMap_cons_some isChange, List.erase_cons_head]⟩
    | none =>
      rw [List.find?_cons_of_neg (by rw [isChange]; exact Bool.false_ne_true)] at first
      obtain ⟨change, isFirst, equal⟩ := inductionHypothesis first
      have differs : head ≠ i := fun same => by
        rw [← same, isChange] at isFirst
        cases isFirst
      refine ⟨change, isFirst, ?_⟩
      rw [List.erase_cons_tail (by simpa using differs), List.filterMap_cons_none isChange, equal,
        List.filterMap_cons_none isChange]

end Agentfork.LaggingCopy

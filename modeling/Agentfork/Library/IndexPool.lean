import Mathlib.Data.List.Basic
import Mathlib.Data.List.Nodup
import Mathlib.Data.List.Range

/-! # A pool of indices

A pool hands out numbers below a capacity: one from a list of free ones, else the
next that was never handed out. An index may be given back, and it may be marked
as held after the fact, in any order, by one who finds it in use. -/

namespace Agentfork

structure IndexPool where
  /-- indices that were passed over or given back, the last one goes first -/
  free : List Nat
  next : Nat
  deriving DecidableEq, Repr

namespace IndexPool

def empty : IndexPool := ⟨[], 0⟩

def allocate (capacity : Nat) (pool : IndexPool) : Option (Nat × IndexPool) :=
  match pool.free.getLast? with
  | some index => some (index, { pool with free := pool.free.dropLast })
  | none => if capacity ≤ pool.next then none else some (pool.next, { pool with next := pool.next + 1 })

def release (index : Nat) (pool : IndexPool) : IndexPool :=
  if index ∈ pool.free then pool else { pool with free := pool.free ++ [index] }

/-- What lies between the cursor and an index beyond it becomes free. -/
def reserve (index : Nat) (pool : IndexPool) : IndexPool :=
  if index < pool.next then { pool with free := pool.free.erase index }
  else ⟨pool.free ++ (List.range' pool.next (index - pool.next)).filter fun i => i ∉ pool.free, index + 1⟩

def Held (pool : IndexPool) (index : Nat) : Prop := index < pool.next ∧ index ∉ pool.free

structure WellFormed (capacity : Nat) (pool : IndexPool) : Prop where
  nodup : pool.free.Nodup
  below : ∀ index ∈ pool.free, index < pool.next
  bounded : pool.next ≤ capacity

variable {capacity index : Nat} {pool after : IndexPool}

theorem wellFormed_empty (capacity : Nat) : empty.WellFormed capacity :=
  ⟨List.nodup_nil, fun _ member => absurd member List.not_mem_nil, Nat.zero_le capacity⟩

theorem not_held_empty (index : Nat) : ¬ empty.Held index := fun held => Nat.not_lt_zero index held.1

/-- An index that is handed out was not held, and is now. -/
theorem allocate_some (wellFormed : pool.WellFormed capacity) (allocated : pool.allocate capacity = some (index, after)) :
    after.WellFormed capacity ∧ index < capacity ∧ ¬ pool.Held index ∧
      ∀ other, after.Held other ↔ other = index ∨ pool.Held other := by
  unfold allocate at allocated
  cases isLast : pool.free.getLast? with
  | some last =>
    rw [isLast] at allocated
    cases allocated
    obtain ⟨front, isFree⟩ := List.getLast?_eq_some_iff.1 isLast
    have nodup := wellFormed.nodup
    have inFree : ∀ {other}, other ∈ pool.free ↔ other ∈ front ∨ other = index := by
      intro other
      rw [isFree, List.mem_append, List.mem_singleton]
    rw [isFree, List.nodup_append] at nodup
    have notFront : index ∉ front := fun member =>
      nodup.2.2 index member index (List.mem_singleton.2 rfl) rfl
    have isBelow := wellFormed.below index (inFree.2 (.inr rfl))
    have isFront : pool.free.dropLast = front := by rw [isFree, List.dropLast_concat]
    refine ⟨⟨?_, ?_, wellFormed.bounded⟩, Nat.lt_of_lt_of_le isBelow wellFormed.bounded,
      fun held => held.2 (inFree.2 (.inr rfl)), fun other => ?_⟩
    · rw [isFront]
      exact nodup.1
    · rw [isFront]
      exact fun other member => wellFormed.below other (inFree.2 (.inl member))
    · unfold Held
      rw [isFront, inFree]
      constructor
      · rintro ⟨below, notFree⟩
        by_cases here : other = index
        · exact .inl here
        · exact .inr ⟨below, fun member => member.elim notFree here⟩
      · rintro (rfl | ⟨below, notFree⟩)
        · exact ⟨isBelow, notFront⟩
        · exact ⟨below, fun member => notFree (.inl member)⟩
  | none =>
    rw [isLast] at allocated
    have isFree : pool.free = [] := List.getLast?_eq_none_iff.1 isLast
    simp only at allocated
    split at allocated
    · cases allocated
    · next room =>
      cases allocated
      refine ⟨⟨wellFormed.nodup, ?_, Nat.lt_of_not_le room⟩, Nat.lt_of_not_le room,
        fun held => Nat.lt_irrefl _ held.1, fun other => ?_⟩
      · exact fun other member => Nat.lt_succ_of_lt (wellFormed.below other member)
      · unfold Held
        simp only [isFree, List.not_mem_nil, not_false_iff, and_true]
        omega

/-- A pool is exhausted only when all indices are held. -/
theorem allocate_none (exhausted : pool.allocate capacity = none) (inside : index < capacity) : pool.Held index := by
  unfold allocate at exhausted
  cases isLast : pool.free.getLast? with
  | some last => rw [isLast] at exhausted; cases exhausted
  | none =>
    rw [isLast] at exhausted
    simp only at exhausted
    split at exhausted
    · next full =>
      unfold Held
      rw [List.getLast?_eq_none_iff.1 isLast]
      exact ⟨Nat.lt_of_lt_of_le inside full, List.not_mem_nil⟩
    · cases exhausted

theorem release_spec (wellFormed : pool.WellFormed capacity) (held : pool.Held index) :
    (pool.release index).WellFormed capacity ∧
      ∀ other, (pool.release index).Held other ↔ pool.Held other ∧ other ≠ index := by
  unfold release
  rw [if_neg held.2]
  refine ⟨⟨?_, ?_, wellFormed.bounded⟩, fun other => ?_⟩
  · rw [List.nodup_append]
    refine ⟨wellFormed.nodup, List.nodup_singleton index, fun first isFree second isIndex same => ?_⟩
    rw [List.mem_singleton.1 isIndex] at same
    exact held.2 (same ▸ isFree)
  · intro other member
    obtain isFree | isIndex := List.mem_append.1 member
    · exact wellFormed.below other isFree
    · exact List.mem_singleton.1 isIndex ▸ held.1
  · unfold Held
    rw [List.mem_append, List.mem_singleton]
    tauto

theorem reserve_spec (wellFormed : pool.WellFormed capacity) (inside : index < capacity) :
    (pool.reserve index).WellFormed capacity ∧
      ∀ other, (pool.reserve index).Held other ↔ pool.Held other ∨ other = index := by
  unfold reserve
  split
  · next before =>
    refine ⟨⟨wellFormed.nodup.erase index, fun other member => ?_, wellFormed.bounded⟩, fun other => ?_⟩
    · exact wellFormed.below other (List.mem_of_mem_erase member)
    · unfold Held
      rw [wellFormed.nodup.mem_erase_iff]
      constructor
      · rintro ⟨below, notFree⟩
        by_cases here : other = index
        · exact .inr here
        · exact .inl ⟨below, fun member => notFree ⟨here, member⟩⟩
      · rintro (⟨below, notFree⟩ | rfl)
        · exact ⟨below, fun member => notFree member.2⟩
        · exact ⟨before, fun member => member.1 rfl⟩
  · next beyond =>
    have skipped : ∀ other, other ∈ (List.range' pool.next (index - pool.next)).filter (fun i => i ∉ pool.free) ↔
        pool.next ≤ other ∧ other < index ∧ other ∉ pool.free := by
      intro other
      have inRange : pool.next ≤ other ∧ other < pool.next + (index - pool.next) ↔ pool.next ≤ other ∧ other < index := by
        omega
      rw [List.mem_filter, List.mem_range'_1, decide_eq_true_iff, inRange, and_assoc]
    refine ⟨⟨?_, fun other member => ?_, inside⟩, fun other => ?_⟩
    · rw [List.nodup_append]
      refine ⟨wellFormed.nodup, List.Nodup.filter _ List.nodup_range', fun first isFree second isSkipped same => ?_⟩
      exact ((skipped second).1 isSkipped).2.2 (same ▸ isFree)
    · obtain isFree | isSkipped := List.mem_append.1 member
      · have isBelow := wellFormed.below other isFree
        change other < index + 1
        omega
      · have isBefore := ((skipped other).1 isSkipped).2.1
        change other < index + 1
        omega
    · unfold Held
      simp only [List.mem_append, skipped]
      have below := wellFormed.below other
      constructor
      · rintro ⟨inNext, notFree⟩
        rw [not_or] at notFree
        by_cases here : other = index
        · exact .inr here
        · refine .inl ⟨?_, notFree.1⟩
          by_contra notBelow
          exact notFree.2 ⟨by omega, by omega, notFree.1⟩
      · rintro (⟨inNext, notFree⟩ | rfl)
        · exact ⟨by omega, by rintro (isFree | ⟨atLeast, _⟩) <;> [exact notFree isFree; omega]⟩
        · exact ⟨by omega, by rintro (isFree | ⟨_, before, _⟩) <;> [exact absurd (below isFree) (by omega); omega]⟩

/-- Whatever the order, the indices that were reserved are held, and no others. -/
theorem reserveAll_spec (wellFormed : pool.WellFormed capacity) {indices : List Nat}
    (inside : ∀ index ∈ indices, index < capacity) :
    (indices.foldl (fun pool index => pool.reserve index) pool).WellFormed capacity ∧
      ∀ other, (indices.foldl (fun pool index => pool.reserve index) pool).Held other ↔
        pool.Held other ∨ other ∈ indices := by
  induction indices generalizing pool with
  | nil => exact ⟨wellFormed, fun other => by simp⟩
  | cons first rest inductionHypothesis =>
    obtain ⟨stillWellFormed, held⟩ := reserve_spec wellFormed (inside first List.mem_cons_self)
    obtain ⟨wellFormedAfter, heldAfter⟩ := inductionHypothesis stillWellFormed fun index member =>
      inside index (List.mem_cons_of_mem first member)
    refine ⟨wellFormedAfter, fun other => ?_⟩
    rw [List.foldl_cons, heldAfter, held, List.mem_cons, or_assoc]

end IndexPool

end Agentfork

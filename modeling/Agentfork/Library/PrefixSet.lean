import Mathlib.Data.Finset.Card
import Mathlib.Data.Finset.Lattice.Fold
import Mathlib.Data.List.Infix
import Mathlib.Order.Lattice.Nat

/-! # Sets of prefixes

The nonempty prefixes of a sequence as a finite set, and the length of the
longest prefix of a sequence that a set contains. -/

namespace Agentfork

variable {τ : Type} [DecidableEq τ]

/-- The nonempty prefixes of a sequence. -/
def prefixes (tokens : List τ) : Finset (List τ) :=
  (Finset.range tokens.length).image fun length => tokens.take (length + 1)

theorem mem_prefixes {tokens path : List τ} : path ∈ prefixes tokens ↔ path ≠ [] ∧ path <+: tokens := by
  simp only [prefixes, Finset.mem_image, Finset.mem_range]
  constructor
  · rintro ⟨length, bound, rfl⟩
    refine ⟨fun empty => ?_, List.take_prefix _ _⟩
    have := congrArg List.length empty
    simp only [List.length_take, List.length_nil] at this
    omega
  · rintro ⟨nonempty, isPrefix⟩
    have positive := List.length_pos_of_ne_nil nonempty
    have bound := isPrefix.length_le
    refine ⟨path.length - 1, by omega, ?_⟩
    rw [Nat.sub_add_cancel positive]
    exact (List.prefix_iff_eq_take.1 isPrefix).symm

@[simp] theorem prefixes_nil : prefixes ([] : List τ) = ∅ := rfl

theorem card_prefixes (tokens : List τ) : (prefixes tokens).card = tokens.length := by
  rw [prefixes, Finset.card_image_of_injOn, Finset.card_range]
  intro first firstBound second secondBound same
  have lengths := congrArg List.length same
  simp only [Finset.coe_range, Set.mem_Iio, List.length_take] at firstBound secondBound lengths
  omega

theorem prefixes_subset {shorter tokens : List τ} (isPrefix : shorter <+: tokens) :
    prefixes shorter ⊆ prefixes tokens := fun _ member =>
  mem_prefixes.2 ⟨(mem_prefixes.1 member).1, (mem_prefixes.1 member).2.trans isPrefix⟩

/-- The length of the longest prefix of `tokens` in `cached`, 0 if none is. -/
def longestMatch (cached : Finset (List τ)) (tokens : List τ) : Nat :=
  (prefixes tokens ∩ cached).sup List.length

@[simp] theorem longestMatch_empty (tokens : List τ) : longestMatch ∅ tokens = 0 := by
  rw [longestMatch, Finset.inter_empty, Finset.sup_empty]
  rfl

/-- A length that separates the cached prefixes from the others is the longest match. -/
theorem longestMatch_eq {cached : Finset (List τ)} {tokens : List τ} {length : Nat}
    (bound : length ≤ tokens.length) (separates : ∀ other, 0 < other → other ≤ tokens.length →
      (tokens.take other ∈ cached ↔ other ≤ length)) : longestMatch cached tokens = length := by
  apply le_antisymm
  · apply Finset.sup_le
    intro path member
    rw [Finset.mem_inter, mem_prefixes] at member
    obtain ⟨⟨nonempty, isPrefix⟩, isCached⟩ := member
    rw [List.prefix_iff_eq_take.1 isPrefix] at isCached
    exact (separates _ (List.length_pos_of_ne_nil nonempty) isPrefix.length_le).1 isCached
  · cases length with
    | zero => exact Nat.zero_le _
    | succ length =>
      have isCached := (separates (length + 1) (Nat.succ_pos _) bound).2 le_rfl
      have longest : (tokens.take (length + 1)).length = length + 1 := by
        rw [List.length_take]; omega
      rw [← longest]
      refine Finset.le_sup (f := List.length) (Finset.mem_inter.2 ⟨mem_prefixes.2 ⟨?_, ?_⟩, isCached⟩)
      · intro empty; rw [empty] at longest; cases longest
      · exact List.take_prefix _ _

/-- The prefixes beyond the longest match are the ones not cached. -/
theorem card_uncached {cached : Finset (List τ)} {tokens : List τ} {length : Nat}
    (bound : length ≤ tokens.length) (separates : ∀ other, 0 < other → other ≤ tokens.length →
      (tokens.take other ∈ cached ↔ other ≤ length)) :
    (prefixes tokens \ cached).card = tokens.length - length := by
  have split : prefixes tokens \ cached = prefixes tokens \ prefixes (tokens.take length) := by
    ext path
    simp only [Finset.mem_sdiff, and_congr_right_iff, mem_prefixes, not_iff_not]
    rintro ⟨nonempty, isPrefix⟩
    have positive := List.length_pos_of_ne_nil nonempty
    have cut := List.prefix_iff_eq_take.1 isPrefix
    have threshold := separates path.length positive isPrefix.length_le
    rw [← cut] at threshold
    rw [threshold]
    constructor
    · intro short
      refine ⟨nonempty, ?_⟩
      rw [cut]
      exact List.take_prefix_take_left short
    · rintro ⟨_, shorter⟩
      exact shorter.length_le.trans (by rw [List.length_take]; omega)
  rw [split, Finset.card_sdiff_of_subset (prefixes_subset (List.take_prefix length tokens)),
    card_prefixes, card_prefixes, List.length_take, Nat.min_eq_left bound]

end Agentfork

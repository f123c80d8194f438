import Mathlib.Algebra.Order.BigOperators.Group.Finset
import Agentfork.Library.PrefixSet

/-! # What sequences share

The prefixes of several sequences together: how many there are when the sequences have
a common stem, and when the sequences share none. -/

namespace Agentfork

variable {τ : Type} [DecidableEq τ]

/-- A union is as large as its parts together only if no two of them meet. -/
theorem card_biUnion_eq_sum_iff {ι α : Type} [DecidableEq ι] [DecidableEq α] {indices : Finset ι} {part : ι → Finset α} :
    (indices.biUnion part).card = ∑ index ∈ indices, (part index).card ↔ (indices : Set ι).PairwiseDisjoint part := by
  refine ⟨fun same first isFirst second isSecond differ => Finset.disjoint_left.2 fun item inFirst inSecond => ?_,
    Finset.card_biUnion⟩
  -- without the item in the first part the union is the same, and the sum is smaller
  let fewer := Function.update part first ((part first).erase item)
  have union : indices.biUnion fewer = indices.biUnion part := by
    ext other
    simp only [Finset.mem_biUnion, fewer]
    constructor
    · rintro ⟨index, isIndex, inPart⟩
      by_cases here : index = first
      · subst here
        rw [Function.update_self] at inPart
        exact ⟨index, isIndex, Finset.mem_of_mem_erase inPart⟩
      · rw [Function.update_of_ne here] at inPart
        exact ⟨index, isIndex, inPart⟩
    · rintro ⟨index, isIndex, inPart⟩
      by_cases isItem : other = item
      · subst isItem
        exact ⟨second, isSecond, by rwa [Function.update_of_ne (Ne.symm differ)]⟩
      · by_cases here : index = first
        · subst here
          exact ⟨index, isIndex, by rw [Function.update_self]; exact Finset.mem_erase.2 ⟨isItem, inPart⟩⟩
        · exact ⟨index, isIndex, by rwa [Function.update_of_ne here]⟩
  have smaller : ∑ index ∈ indices, (fewer index).card < ∑ index ∈ indices, (part index).card := by
    refine Finset.sum_lt_sum (fun index _ => Finset.card_le_card ?_) ⟨first, isFirst, Finset.card_lt_card ?_⟩
    · by_cases here : index = first
      · subst here
        simp only [fewer, Function.update_self]
        exact Finset.erase_subset _ _
      · simp only [fewer, Function.update_of_ne here]
        exact subset_rfl
    · simp only [fewer, Function.update_self]
      exact Finset.erase_ssubset inFirst
  have bound : (indices.biUnion part).card ≤ ∑ index ∈ indices, (fewer index).card := union ▸ Finset.card_biUnion_le
  omega

theorem head_mem_prefixes {tokens : List τ} {token : τ} (isHead : tokens.head? = some token) : [token] ∈ prefixes tokens := by
  obtain ⟨rest, rfl⟩ := List.head?_eq_some_iff.1 isHead
  exact mem_prefixes.2 ⟨List.cons_ne_nil _ _, rest, rfl⟩

theorem head_of_mem_prefixes {tokens path : List τ} (isPrefix : path ∈ prefixes tokens) :
    ∃ token, path.head? = some token ∧ tokens.head? = some token := by
  obtain ⟨nonempty, rest, rfl⟩ := mem_prefixes.1 isPrefix
  cases path with
  | nil => exact absurd rfl nonempty
  | cons token path => exact ⟨token, rfl, rfl⟩

theorem prefixes_append (stem tail : List τ) :
    prefixes (stem ++ tail) = prefixes stem ∪ (prefixes tail).image (stem ++ ·) := by
  ext path
  simp only [Finset.mem_union, Finset.mem_image, mem_prefixes]
  constructor
  · rintro ⟨nonempty, onPath⟩
    obtain short | long := List.prefix_or_prefix_of_prefix onPath (List.prefix_append stem tail)
    · exact .inl ⟨nonempty, short⟩
    · obtain ⟨rest, rfl⟩ := long
      by_cases isEmpty : rest = []
      · rw [isEmpty, List.append_nil] at nonempty ⊢
        exact .inl ⟨nonempty, List.prefix_refl stem⟩
      · exact .inr ⟨rest, ⟨isEmpty, (List.prefix_append_right_inj stem).1 onPath⟩, rfl⟩
  · rintro (⟨nonempty, short⟩ | ⟨rest, ⟨nonempty, onPath⟩, rfl⟩)
    · exact ⟨nonempty, short.trans (List.prefix_append stem tail)⟩
    · exact ⟨List.append_ne_nil_of_right_ne_nil _ nonempty, (List.prefix_append_right_inj stem).2 onPath⟩

/-- The stem is counted once. -/
theorem card_prefixes_of_stem {ι : Type} [DecidableEq ι] (stem : List τ) (tails : ι → List τ) (indices : Finset ι) :
    (prefixes stem ∪ indices.biUnion fun index => prefixes (stem ++ tails index)).card =
      stem.length + (indices.biUnion fun index => prefixes (tails index)).card := by
  have same : prefixes stem ∪ (indices.biUnion fun index => prefixes (stem ++ tails index)) =
      prefixes stem ∪ (indices.biUnion fun index => prefixes (tails index)).image (stem ++ ·) := by
    ext path
    simp only [Finset.mem_union, Finset.mem_biUnion, prefixes_append, Finset.mem_image]
    constructor
    · rintro (onStem | ⟨index, isIndex, onStem | ⟨rest, onTail, rfl⟩⟩)
      · exact .inl onStem
      · exact .inl onStem
      · exact .inr ⟨rest, ⟨index, isIndex, onTail⟩, rfl⟩
    · rintro (onStem | ⟨rest, ⟨index, isIndex, onTail⟩, rfl⟩)
      · exact .inl onStem
      · exact .inr ⟨index, isIndex, .inr ⟨rest, onTail, rfl⟩⟩
  have apart : Disjoint (prefixes stem) ((indices.biUnion fun index => prefixes (tails index)).image (stem ++ ·)) := by
    refine Finset.disjoint_left.2 fun path onStem onTail => ?_
    obtain ⟨rest, isRest, rfl⟩ := Finset.mem_image.1 onTail
    obtain ⟨index, _, onTail⟩ := Finset.mem_biUnion.1 isRest
    have positive := List.length_pos_of_ne_nil (mem_prefixes.1 onTail).1
    have bound := (mem_prefixes.1 onStem).2.length_le
    rw [List.length_append] at bound
    omega
  rw [same, Finset.card_union_of_disjoint apart, card_prefixes,
    Finset.card_image_of_injective _ (List.append_right_injective stem)]

/-- Sequences have no prefix in common unless two of them begin with the same token. -/
theorem card_biUnion_prefixes_eq_iff {ι : Type} [DecidableEq ι] (tails : ι → List τ) (indices : Finset ι) :
    (indices.biUnion fun index => prefixes (tails index)).card = ∑ index ∈ indices, (tails index).length ↔
      ∀ first ∈ indices, ∀ second ∈ indices, first ≠ second →
        ∀ token, (tails first).head? = some token → (tails second).head? ≠ some token := by
  have sizes : ∑ index ∈ indices, (tails index).length = ∑ index ∈ indices, (prefixes (tails index)).card :=
    Finset.sum_congr rfl fun index _ => (card_prefixes _).symm
  rw [sizes, card_biUnion_eq_sum_iff]
  constructor
  · intro apart first isFirst second isSecond differ token isHead isHead'
    exact Finset.disjoint_left.1 (apart isFirst isSecond differ) (head_mem_prefixes isHead)
      (head_mem_prefixes isHead')
  · intro apart first isFirst second isSecond differ
    refine Finset.disjoint_left.2 fun path inFirst inSecond => ?_
    obtain ⟨token, isToken, isHead⟩ := head_of_mem_prefixes inFirst
    obtain ⟨token', isToken', isHead'⟩ := head_of_mem_prefixes inSecond
    obtain rfl : token = token' := Option.some.inj (isToken.symm.trans isToken')
    exact apart first isFirst second isSecond differ token isHead isHead'

theorem card_biUnion_prefixes_le {ι : Type} [DecidableEq ι] (tails : ι → List τ) (indices : Finset ι) :
    (indices.biUnion fun index => prefixes (tails index)).card ≤ ∑ index ∈ indices, (tails index).length :=
  Finset.card_biUnion_le.trans (Finset.sum_congr rfl fun _ _ => card_prefixes _).le

end Agentfork

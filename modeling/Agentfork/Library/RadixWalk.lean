import Agentfork.Library.RadixForest

/-! # What a descent does to a compressed prefix tree

`walk` splits at most one edge. The specification says that it changes no path
and no data but what `touch` refreshes, adds one node end, and returns the
length of the longest prefix that the forest holds. -/

namespace Agentfork

namespace RadixForest

variable {τ π γ : Type} [DecidableEq τ]

/-! ## Splitting one edge -/

theorem find_split {upper lower path : List τ} (payload : π) (children siblings : RadixForest τ π)
    (upperNonempty : upper ≠ []) (lowerNonempty : lower ≠ []) (below : ¬ path <+: upper) :
    (node upper payload (node lower payload children nil) siblings).find path =
      (node (upper ++ lower) payload children siblings).find path := by
  by_cases sameHead : upper.head? = path.head?
  · have wholeHead : (upper ++ lower).head? = path.head? :=
      (head?_append_ne upperNonempty).trans sameHead
    obtain above | ⟨rest, further, rfl⟩ | ⟨notAbove, notBelow⟩ := path_cases upper path
    · exact absurd above below
    · rw [find_below upperNonempty further]
      by_cases lowerHead : lower.head? = rest.head?
      · obtain above | ⟨tail, tailFurther, rfl⟩ | ⟨notAbove, notBelow⟩ :=
          path_cases lower rest
        · rw [find_on_edge further above, find_on_edge (by simp [further])
            ((List.prefix_append_right_inj upper).2 above)]
        · rw [find_below lowerNonempty tailFurther, ← List.append_assoc,
            find_below (by simp [upperNonempty]) tailFurther]
        · rw [find_diverging lowerHead notAbove notBelow, find_diverging wholeHead
            (fun above => notAbove ((List.prefix_append_right_inj upper).1 above))
            (fun below => notBelow ((List.prefix_append_right_inj upper).1 below))]
      · rw [find_beside lowerHead, find, find_diverging wholeHead]
        · intro above
          exact lowerHead (head?_eq_of_isPrefix further ((List.prefix_append_right_inj upper).1 above)).symm
        · intro below
          exact lowerHead (head?_eq_of_isPrefix lowerNonempty ((List.prefix_append_right_inj upper).1 below))
    · rw [find_diverging sameHead notAbove notBelow, find_diverging wholeHead]
      · intro above
        obtain inner | inner := List.prefix_or_prefix_of_prefix above (List.prefix_append upper lower)
        · exact notAbove inner
        · exact notBelow inner
      · exact fun below => notBelow ((List.prefix_append upper lower).trans below)
  · rw [find_beside sameHead, find_beside (by rwa [head?_append_ne upperNonempty])]

theorem ends_split {upper lower path : List τ} {value payload : π} {children siblings : RadixForest τ π}
    (upperNonempty : upper ≠ []) (lowerNonempty : lower ≠ []) :
    (node upper value (node lower payload children nil) siblings).Ends path ↔
      (node (upper ++ lower) payload children siblings).Ends path ∨ path = upper := by
  by_cases sameHead : upper.head? = path.head?
  · have wholeHead : (upper ++ lower).head? = path.head? :=
      (head?_append_ne upperNonempty).trans sameHead
    by_cases below : upper <+: path
    · obtain ⟨rest, rfl⟩ := below
      rw [ends_below upperNonempty]
      by_cases stops : rest = []
      · subst stops
        refine iff_of_true ?_ (.inr (List.append_nil upper))
        rw [ends_beside (by simpa using lowerNonempty)]
        rfl
      · have longer : upper ++ rest ≠ upper := by simpa using stops
        by_cases lowerHead : lower.head? = rest.head?
        · by_cases lowerBelow : lower <+: rest
          · obtain ⟨tail, rfl⟩ := lowerBelow
            rw [ends_below lowerNonempty, ← List.append_assoc, ends_below (by simp [upperNonempty])]
            refine (or_iff_left ?_).symm
            rw [List.append_assoc]
            exact longer
          · refine iff_of_false (ends_diverging lowerHead lowerBelow) ?_
            rintro (ends | equal)
            · refine ends_diverging wholeHead ?_ ends
              exact fun below => lowerBelow ((List.prefix_append_right_inj upper).1 below)
            · exact longer equal
        · rw [ends_beside lowerHead]
          refine iff_of_false stops ?_
          rintro (ends | equal)
          · refine ends_diverging wholeHead ?_ ends
            intro below
            exact lowerHead (head?_eq_of_isPrefix lowerNonempty ((List.prefix_append_right_inj upper).1 below))
          · exact longer equal
    · refine iff_of_false (ends_diverging sameHead below) ?_
      rintro (ends | equal)
      · exact ends_diverging wholeHead (fun whole => below ((List.prefix_append _ _).trans whole)) ends
      · exact below (equal ▸ List.prefix_refl _)
  · rw [ends_beside sameHead, ends_beside (by rwa [head?_append_ne upperNonempty])]
    refine (or_iff_left ?_).symm
    rintro rfl
    exact sameHead rfl

/-! ## The split that a walk makes -/

theorem splitParts_nonempty {edge tokens : List τ} (edgeNonempty : edge ≠ [])
    (sameHead : edge.head? = tokens.head?) (differs : ¬ edge <+: tokens) :
    edge.take (commonLength edge tokens) ≠ [] ∧ edge.drop (commonLength edge tokens) ≠ [] := by
  have positive := commonLength_pos edgeNonempty sameHead
  have bound := commonLength_lt differs
  constructor
  · intro empty
    have := congrArg List.length empty
    simp only [List.length_take, List.length_nil] at this
    omega
  · intro empty
    have := congrArg List.length empty
    simp only [List.length_drop, List.length_nil] at this
    omega

theorem walk_wellFormed (touch : π → π) {forest : RadixForest τ π} (wellFormed : forest.WellFormed)
    (tokens : List τ) : (walk touch tokens forest).1.WellFormed ∧
      ∀ key, (walk touch tokens forest).1.Missing key ↔ forest.Missing key := by
  induction forest generalizing tokens with
  | nil => simp [walk, WellFormed, Missing]
  | node edge payload children siblings belowHypothesis besideHypothesis =>
    obtain ⟨edgeNonempty, missing, childrenFormed, siblingsFormed⟩ := wellFormed
    simp only [walk]
    split
    · next sameHead =>
      split
      · exact ⟨⟨edgeNonempty, missing, (belowHypothesis childrenFormed _).1, siblingsFormed⟩,
          fun key => Iff.rfl⟩
      · next differs =>
        obtain ⟨upperNonempty, lowerNonempty⟩ := splitParts_nonempty edgeNonempty sameHead differs
        have sameKey := head?_eq_of_isPrefix upperNonempty (List.take_prefix (commonLength edge tokens) edge)
        refine ⟨⟨upperNonempty, sameKey ▸ missing,
          ⟨lowerNonempty, trivial, childrenFormed, trivial⟩, siblingsFormed⟩, fun key => ?_⟩
        simp only [Missing, sameKey]
    · have beside := besideHypothesis siblingsFormed tokens
      exact ⟨⟨edgeNonempty, (beside.2 _).2 missing, childrenFormed, beside.1⟩,
        fun key => and_congr_right fun _ => beside.2 key⟩

theorem walk_size (touch : π → π) (forest : RadixForest τ π) (tokens : List τ) :
    (walk touch tokens forest).1.size = forest.size := by
  induction forest generalizing tokens with
  | nil => rfl
  | node edge payload children siblings belowHypothesis besideHypothesis =>
    simp only [walk]
    split
    · split
      · simp only [size, belowHypothesis]
      · have bound := (commonLength_le edge tokens).1
        simp only [size, List.length_take, List.length_drop]
        omega
    · simp only [size, besideHypothesis]

/-- A walk changes no data but what `touch` refreshes. -/
theorem find_walk {touch : π → π} (view : π → γ) (untouched : ∀ value, view (touch value) = view value)
    {forest : RadixForest τ π} (wellFormed : forest.WellFormed) (tokens path : List τ) :
    ((walk touch tokens forest).1.find path).map view = (forest.find path).map view := by
  induction forest generalizing tokens path with
  | nil => rfl
  | node edge payload children siblings belowHypothesis besideHypothesis =>
    obtain ⟨edgeNonempty, missing, childrenFormed, siblingsFormed⟩ := wellFormed
    simp only [walk]
    split
    · next tokensHead =>
      split
      · simp only [find]
        split
        · split
          · simp [untouched]
          · split
            · exact belowHypothesis childrenFormed _ _
            · rfl
        · rfl
      · next differs =>
        obtain ⟨upperNonempty, lowerNonempty⟩ := splitParts_nonempty edgeNonempty tokensHead differs
        have whole := List.take_append_drop (commonLength edge tokens) edge
        by_cases above : path <+: edge.take (commonLength edge tokens)
        · by_cases empty : path = []
          · subst empty
            rw [find_beside (by simpa using upperNonempty), find_beside (by simpa using edgeNonempty)]
          · rw [find_on_edge empty above,
              find_on_edge empty (above.trans (List.take_prefix _ _))]
            simp [untouched]
        · have split := find_split payload children siblings upperNonempty lowerNonempty above
          rw [whole] at split
          rw [← split]
          congr 1
          simp only [find, if_neg above]
    · next otherHead =>
      by_cases sameHead : edge.head? = path.head?
      · simp only [find, if_pos sameHead]
      · simp only [find, if_neg sameHead]
        exact besideHypothesis siblingsFormed _ _

/-- A walk adds the end of what it matched to the node ends, and no other. -/
theorem ends_walk (touch : π → π) {forest : RadixForest τ π} (wellFormed : forest.WellFormed)
    (tokens path : List τ) : (walk touch tokens forest).1.Ends path ↔
      forest.Ends path ∨ path = tokens.take (walk touch tokens forest).2 := by
  induction forest generalizing tokens path with
  | nil => simp [walk, Ends]
  | node edge payload children siblings belowHypothesis besideHypothesis =>
    have wholeFormed := wellFormed
    obtain ⟨edgeNonempty, missing, childrenFormed, siblingsFormed⟩ := wellFormed
    simp only [walk]
    split
    · next tokensHead =>
      split
      · next isPrefix =>
        obtain ⟨rest, rfl⟩ := isPrefix
        simp only [List.drop_left, List.take_length_add_append]
        by_cases sameHead : edge.head? = path.head?
        · by_cases below : edge <+: path
          · obtain ⟨further, rfl⟩ := below
            rw [ends_below edgeNonempty, ends_below edgeNonempty, belowHypothesis childrenFormed,
              List.append_right_inj]
          · refine iff_of_false (ends_diverging sameHead below) ?_
            rintro (ends | equal)
            · exact ends_diverging sameHead below ends
            · exact below (equal ▸ List.prefix_append _ _)
        · rw [ends_beside sameHead, ends_beside sameHead]
          refine (or_iff_left ?_).symm
          rintro rfl
          exact sameHead (head?_append_ne edgeNonempty).symm
      · next differs =>
        obtain ⟨upperNonempty, lowerNonempty⟩ := splitParts_nonempty edgeNonempty tokensHead differs
        rw [ends_split upperNonempty lowerNonempty, List.take_append_drop, take_commonLength]
    · next otherHead =>
      by_cases sameHead : edge.head? = path.head?
      · have besides : path = tokens.take (walk touch tokens siblings).2 →
            (node edge payload children siblings).Ends path := by
          rintro rfl
          by_cases empty : tokens.take (walk touch tokens siblings).2 = []
          · rw [empty]; exact ends_nil_path wholeFormed
          · have sameKey := head?_eq_of_isPrefix empty (List.take_prefix (walk touch tokens siblings).2 tokens)
            exact absurd (sameHead.trans sameKey) otherHead
        simp only [Ends, if_pos sameHead] at besides ⊢
        exact (or_iff_left_of_imp besides).symm
      · simp only [ends_beside sameHead, besideHypothesis siblingsFormed]

/-- A walk matches the longest prefix that the forest holds. -/
theorem walk_matched (touch : π → π) {forest : RadixForest τ π} (wellFormed : forest.WellFormed)
    (tokens : List τ) : (walk touch tokens forest).2 ≤ tokens.length ∧
      ∀ length, 0 < length → length ≤ tokens.length →
        ((forest.find (tokens.take length)).isSome ↔ length ≤ (walk touch tokens forest).2) := by
  induction forest generalizing tokens with
  | nil => simp only [walk, find]; simp; omega
  | node edge payload children siblings belowHypothesis besideHypothesis =>
    obtain ⟨edgeNonempty, missing, childrenFormed, siblingsFormed⟩ := wellFormed
    have takeNonempty : ∀ length, 0 < length → length ≤ tokens.length → tokens.take length ≠ [] := by
      intro length positive bound empty
      have := congrArg List.length empty
      simp only [List.length_take, List.length_nil] at this
      omega
    have takeHead : ∀ length, 0 < length → length ≤ tokens.length →
        (tokens.take length).head? = tokens.head? := fun length positive bound =>
      head?_eq_of_isPrefix (takeNonempty length positive bound) (List.take_prefix length tokens)
    simp only [walk]
    split
    · next tokensHead =>
      split
      · next isPrefix =>
        obtain ⟨rest, rfl⟩ := isPrefix
        simp only [List.drop_left, List.length_append]
        have below := belowHypothesis childrenFormed rest
        refine ⟨by omega, fun length positive bound => ?_⟩
        by_cases short : length ≤ edge.length
        · rw [List.take_append_of_le_length short, find_on_edge _ (List.take_prefix _ _)]
          · exact iff_of_true rfl (by omega)
          · have nonempty := takeNonempty length positive (by simpa using bound)
            rwa [List.take_append_of_le_length short] at nonempty
        · obtain ⟨further, rfl⟩ := Nat.exists_eq_add_of_lt (Nat.lt_of_not_le short)
          have restNonempty : rest.take (further + 1) ≠ [] := by
            intro empty
            have := congrArg List.length empty
            simp only [List.length_take, List.length_nil] at this
            omega
          rw [Nat.add_assoc, List.take_length_add_append, find_below edgeNonempty restNonempty]
          rw [below.2 (further + 1) (by omega) (by omega)]
          omega
      · next differs =>
        have bounds := commonLength_le edge tokens
        refine ⟨bounds.2, fun length positive bound => ?_⟩
        have nonempty := takeNonempty length positive bound
        by_cases short : length ≤ commonLength edge tokens
        · have isPrefix : tokens.take length <+: edge := by
            have shared : tokens.take length = edge.take length := by
              rw [← Nat.min_eq_left short, ← List.take_take, ← List.take_take, take_commonLength]
            exact shared ▸ List.take_prefix _ _
          rw [find_on_edge nonempty isPrefix]
          exact iff_of_true rfl short
        · rw [find_diverging (tokensHead.trans (takeHead length positive bound).symm)]
          · exact iff_of_false (by simp) short
          · intro above
            have := le_commonLength above (List.take_prefix length tokens)
            simp only [List.length_take] at this
            omega
          · exact fun below => differs (below.trans (List.take_prefix _ _))
    · next otherHead =>
      have beside := besideHypothesis siblingsFormed tokens
      refine ⟨beside.1, fun length positive bound => ?_⟩
      rw [find_beside (by rwa [takeHead length positive bound])]
      exact beside.2 length positive bound

/-- What a walk has matched is where a node now ends. -/
theorem ends_matched (touch : π → π) {forest : RadixForest τ π} (wellFormed : forest.WellFormed)
    (tokens : List τ) :
    (walk touch tokens forest).1.Ends (tokens.take (walk touch tokens forest).2) :=
  (ends_walk touch wellFormed tokens _).2 (.inr rfl)

end RadixForest

end Agentfork

import Agentfork.Library.RadixTree

/-! # Leaves that are taken off

What a compressed prefix tree has when one of its leaves has gone, and which nodes
a walk has refreshed. An eviction that picks its leaves by their data can so be
told from what it picks. -/

namespace Agentfork.RadixForest

variable {τ π : Type} {forest : RadixForest τ π} {above path edge : List τ} {payload : π} {leaf : Bool}

/-- The number of nodes. -/
def count : RadixForest τ π → Nat
  | nil => 0
  | node _ _ children siblings => children.count + 1 + siblings.count

/-- The listed nodes of a forest are those beside its first node, that node and those below it. -/
theorem mem_nodes_node {first : List τ} {value : π} {children siblings : RadixForest τ π} :
    (path, edge, payload, leaf) ∈ (node first value children siblings).nodes above ↔
      (path, edge, payload, leaf) ∈ siblings.nodes above ∨
      (path = above ++ first ∧ edge = first ∧ payload = value ∧ (leaf = true ↔ children = nil)) ∨
      (path, edge, payload, leaf) ∈ children.nodes (above ++ first) := by
  cases children with
  | nil => simp [nodes]
  | node _ _ _ _ =>
    simp only [nodes, List.mem_append, List.mem_cons, Prod.mk.injEq]
    simp

theorem nodes_length (forest : RadixForest τ π) (above : List τ) : (forest.nodes above).length = forest.count := by
  induction forest generalizing above with
  | nil => rfl
  | node first value children siblings belowHypothesis besideHypothesis =>
    cases children with
    | nil =>
      rw [nodes, List.length_append, besideHypothesis, List.length_singleton, count, count]
      omega
    | node =>
      have below := belowHypothesis (above ++ first)
      rw [nodes, List.length_append, List.length_cons, besideHypothesis, below]
      · simp only [count]
        omega
      · intro empty
        cases empty

variable [DecidableEq τ]

/-- Every path leads to a leaf. -/
theorem exists_leaf (wellFormed : forest.WellFormed) (above : List τ) (found : (forest.find path).isSome) :
    ∃ rest edge payload, (above ++ path ++ rest, edge, payload, true) ∈ forest.nodes above := by
  induction forest generalizing above path with
  | nil => cases found
  | node first value children siblings belowHypothesis besideHypothesis =>
    obtain ⟨firstNonempty, missing, childrenFormed, siblingsFormed⟩ := wellFormed
    simp only [mem_nodes_node]
    by_cases sameHead : first.head? = path.head?
    · obtain onEdge | ⟨further, nonempty, rfl⟩ | ⟨notAbove, notBelow⟩ := path_cases first path
      · obtain ⟨rest, rfl⟩ := onEdge
        cases children with
        | nil => exact ⟨rest, path ++ rest, value, .inr (.inl ⟨List.append_assoc .., rfl, rfl, by simp⟩)⟩
        | node second other grandchildren cousins =>
          -- the node has children, and the first of them leads on
          have secondNonempty := childrenFormed.1
          have foundBelow : ((node second other grandchildren cousins).find second).isSome := by
            rw [find_on_edge secondNonempty (List.prefix_refl second)]
            rfl
          obtain ⟨more, edge, payload, member⟩ := belowHypothesis childrenFormed (above ++ (path ++ rest)) foundBelow
          refine ⟨rest ++ second ++ more, edge, payload, .inr (.inr ?_)⟩
          rw [show above ++ path ++ (rest ++ second ++ more) = above ++ (path ++ rest) ++ second ++ more by
            simp only [List.append_assoc]]
          exact member
      · rw [find_below firstNonempty nonempty] at found
        obtain ⟨rest, edge, payload, member⟩ := belowHypothesis childrenFormed (above ++ first) found
        refine ⟨rest, edge, payload, .inr (.inr ?_)⟩
        rw [← List.append_assoc above]
        exact member
      · rw [find_diverging sameHead notAbove notBelow] at found
        cases found
    · rw [find_beside sameHead] at found
      obtain ⟨rest, edge, payload, member⟩ := besideHypothesis siblingsFormed above found
      exact ⟨rest, edge, payload, .inl member⟩

/-- What is found after a removal was found before. -/
theorem find_of_removeAt (wellFormed : forest.WellFormed) {removed : List τ} {value : π}
    (found : (forest.removeAt removed).find path = some value) : forest.find path = some value := by
  induction forest generalizing path removed with
  | nil => cases found
  | node first payload children siblings belowHypothesis besideHypothesis =>
    obtain ⟨firstNonempty, missing, childrenFormed, siblingsFormed⟩ := wellFormed
    rw [removeAt] at found
    split at found
    · by_cases sameHead : first.head? = path.head?
      · rw [find_of_missing (sameHead ▸ missing)] at found
        cases found
      · rwa [find_beside sameHead]
    · split at found
      · split at found
        · rw [find] at found ⊢
          split at found
          · next sameHead =>
            rw [if_pos sameHead]
            split at found
            · next onEdge =>
              rw [if_pos onEdge]
              exact found
            · next notOnEdge =>
              rw [if_neg notOnEdge]
              split at found
              · next below =>
                rw [if_pos below]
                exact belowHypothesis childrenFormed found
              · cases found
          · next otherHead =>
            rw [if_neg otherHead]
            exact found
        · exact found
      · by_cases sameHead : first.head? = path.head?
        · rw [find, if_pos sameHead] at found ⊢
          exact found
        · rw [find_beside sameHead] at found ⊢
          exact besideHypothesis siblingsFormed found

/-- What a leaf takes with it, and what it leaves. -/
theorem removeAt_leaf (wellFormed : forest.WellFormed) (isLeaf : (above ++ path, edge, payload, true) ∈ forest.nodes above) :
    (forest.removeAt path).size + edge.length = forest.size ∧ (forest.removeAt path).count + 1 = forest.count ∧
      ∀ other, forest.Ends other → other ≠ path → (forest.removeAt path).Ends other := by
  induction forest generalizing above path with
  | nil => cases isLeaf
  | node first value children siblings belowHypothesis besideHypothesis =>
    obtain ⟨firstNonempty, missing, childrenFormed, siblingsFormed⟩ := wellFormed
    obtain beside | ⟨here, rfl, rfl, noChildren⟩ | below := mem_nodes_node.1 isLeaf
    · obtain ⟨rest, same, nonempty, found⟩ := find_of_mem_nodes siblingsFormed beside
      obtain rfl := List.append_cancel_left same
      have otherHead : first.head? ≠ path.head? := by
        intro sameHead
        rw [find_of_missing (sameHead ▸ missing)] at found
        cases found
      have notHere : first ≠ path := fun same => otherHead (congrArg List.head? same)
      obtain ⟨sizes, counts, ends⟩ := besideHypothesis siblingsFormed beside
      rw [removeAt, if_neg notHere, if_neg otherHead]
      refine ⟨by simp only [size]; omega, by simp only [count]; omega, fun other isEnd differs => ?_⟩
      by_cases sameHead : first.head? = other.head?
      · rw [Ends, if_pos sameHead] at isEnd ⊢
        exact isEnd
      · rw [ends_beside sameHead] at isEnd ⊢
        exact ends other isEnd differs
    · obtain rfl := List.append_cancel_left here
      obtain rfl := noChildren.1 rfl
      rw [removeAt, if_pos rfl]
      refine ⟨by simp only [size]; omega, by simp only [count]; omega, fun other isEnd differs => ?_⟩
      rw [Ends] at isEnd
      split at isEnd
      · -- a leaf has no end but its own
        obtain ⟨⟨rest, rfl⟩, nothing⟩ := isEnd
        rw [List.drop_left] at nothing
        obtain rfl : rest = [] := nothing
        exact absurd (List.append_nil path) differs
      · exact isEnd
    · obtain ⟨rest, same, nonempty, _⟩ := find_of_mem_nodes childrenFormed below
      rw [List.append_assoc] at same
      obtain rfl := List.append_cancel_left same
      have notHere : first ≠ first ++ rest := by simpa using nonempty
      rw [← List.append_assoc] at below
      obtain ⟨sizes, counts, ends⟩ := belowHypothesis childrenFormed below
      rw [removeAt, if_neg notHere, if_pos (head?_append_ne firstNonempty).symm, if_pos (List.prefix_append _ _), List.drop_left]
      refine ⟨by simp only [size]; omega, by simp only [count]; omega, fun other isEnd differs => ?_⟩
      rw [Ends] at isEnd ⊢
      split at isEnd
      · next sameHead =>
        obtain ⟨⟨further, rfl⟩, endsBelow⟩ := isEnd
        rw [if_pos sameHead, List.drop_left] at *
        exact ⟨List.prefix_append _ _, ends further endsBelow fun same => differs (congrArg (first ++ ·) same)⟩
      · next otherHead =>
        rw [if_neg otherHead]
        exact isEnd

/-- A walk refreshes the data on the way to where it stops. -/
theorem find_walk_touched (touch : π → π) (wellFormed : forest.WellFormed) (tokens : List τ) (nonempty : path ≠ []) :
    (forest.walk touch tokens).1.find path = if path <+: tokens.take (forest.walk touch tokens).2
      then (forest.find path).map touch else forest.find path := by
  induction forest generalizing tokens path with
  | nil =>
    rw [walk]
    split <;> rfl
  | node edge payload children siblings belowHypothesis besideHypothesis =>
    obtain ⟨edgeNonempty, missing, childrenFormed, siblingsFormed⟩ := wellFormed
    have heads : ∀ tokens : List τ, path <+: tokens → path.head? = tokens.head? :=
      fun tokens isPrefix => head?_eq_of_isPrefix nonempty isPrefix
    simp only [walk]
    split
    · next tokensHead =>
      split
      · next isPrefix =>
        obtain ⟨rest, rfl⟩ := isPrefix
        simp only [List.drop_left, List.take_length_add_append]
        by_cases sameHead : edge.head? = path.head?
        · obtain onEdge | ⟨further, more, rfl⟩ | ⟨notAbove, notBelow⟩ := path_cases edge path
          · rw [find_on_edge nonempty onEdge, find_on_edge nonempty onEdge, if_pos (onEdge.trans (List.prefix_append _ _))]
            rfl
          · rw [find_below edgeNonempty more, find_below edgeNonempty more, belowHypothesis childrenFormed rest more]
            simp only [List.prefix_append_right_inj]
          · rw [find_diverging sameHead notAbove notBelow, find_diverging sameHead notAbove notBelow]
            split <;> rfl
        · have notOn : ¬ path <+: edge ++ rest.take (walk touch rest children).2 :=
            fun isPrefix => sameHead ((heads _ isPrefix).trans (head?_append_ne edgeNonempty)).symm
          rw [find_beside sameHead, find_beside sameHead, if_neg notOn]
      · next differs =>
        obtain ⟨upperNonempty, lowerNonempty⟩ := splitParts_nonempty edgeNonempty tokensHead differs
        have whole := List.take_append_drop (commonLength edge tokens) edge
        rw [← take_commonLength]
        by_cases onUpper : path <+: edge.take (commonLength edge tokens)
        · rw [find_on_edge nonempty onUpper, find_on_edge nonempty (onUpper.trans (List.take_prefix _ _)), if_pos onUpper]
          rfl
        · have split := find_split payload children siblings upperNonempty lowerNonempty onUpper
          rw [whole] at split
          rw [if_neg onUpper, ← split]
          simp only [find, if_neg onUpper]
    · next otherHead =>
      by_cases sameHead : edge.head? = path.head?
      · have notOn : ¬ path <+: tokens.take (walk touch tokens siblings).2 := by
          intro isPrefix
          exact otherHead (sameHead.trans (heads _ (isPrefix.trans (List.take_prefix _ _))))
        simp only [find, if_pos sameHead, if_neg notOn]
      · rw [find_beside sameHead, find_beside sameHead]
        exact besideHypothesis siblingsFormed tokens nonempty

/-! ## What all leaves have in common

An inner node may lose it: only a node whose children have gone has to have it again. -/

section EveryLeaf

omit [DecidableEq τ]

variable {kind : π → Prop}

/-- The data of every leaf is of a kind. -/
def EveryLeaf (kind : π → Prop) : RadixForest τ π → Prop
  | nil => True
  | node _ value children siblings =>
    (children = nil → kind value) ∧ children.EveryLeaf kind ∧ siblings.EveryLeaf kind

theorem everyLeaf_iff (above : List τ) : forest.EveryLeaf kind ↔
    ∀ path edge payload, (path, edge, payload, true) ∈ forest.nodes above → kind payload := by
  induction forest generalizing above with
  | nil => exact iff_of_true trivial fun _ _ _ member => nomatch member
  | node first value children siblings belowHypothesis besideHypothesis =>
    rw [EveryLeaf, belowHypothesis (above ++ first), besideHypothesis above]
    simp only [mem_nodes_node]
    constructor
    · rintro ⟨here, below, beside⟩ path edge payload (member | ⟨-, -, rfl, isLeaf⟩ | member)
      · exact beside path edge payload member
      · exact here (isLeaf.1 trivial)
      · exact below path edge payload member
    · intro all
      refine ⟨fun noChild => ?_, fun path edge payload member => ?_, fun path edge payload member => ?_⟩
      · exact all _ _ value (.inr (.inl ⟨rfl, rfl, rfl, iff_of_true trivial noChild⟩))
      · exact all path edge payload (.inr (.inr member))
      · exact all path edge payload (.inl member)

variable [DecidableEq τ]

theorem walk_eq_nil {touch : π → π} {tokens : List τ} (empty : (forest.walk touch tokens).1 = nil) : forest = nil := by
  cases forest with
  | nil => rfl
  | node edge payload children siblings =>
    rw [walk] at empty
    split at empty
    · split at empty <;> cases empty
    · cases empty

theorem EveryLeaf.walk {touch : π → π} (every : forest.EveryLeaf kind) (touched : ∀ value, kind value → kind (touch value))
    (tokens : List τ) : (forest.walk touch tokens).1.EveryLeaf kind := by
  induction forest generalizing tokens with
  | nil => exact trivial
  | node edge payload children siblings belowHypothesis besideHypothesis =>
    obtain ⟨here, below, beside⟩ := every
    rw [RadixForest.walk]
    split
    · split
      · exact ⟨fun empty => touched _ (here (walk_eq_nil empty)), belowHypothesis below _, beside⟩
      · -- the upper half of a split edge has the lower one below it
        exact ⟨fun empty => (by cases empty), ⟨here, below, trivial⟩, beside⟩
    · exact ⟨here, below, besideHypothesis beside tokens⟩

theorem EveryLeaf.setLeaf {leaf : List τ} {value : π} (every : forest.EveryLeaf kind) (isKind : kind value) :
    (forest.setLeaf leaf value).EveryLeaf kind := by
  induction forest with
  | nil => exact ⟨fun _ => isKind, trivial, trivial⟩
  | node edge payload children siblings belowHypothesis besideHypothesis =>
    obtain ⟨here, below, beside⟩ := every
    rw [RadixForest.setLeaf]
    split
    · exact ⟨fun _ => isKind, trivial, beside⟩
    · exact ⟨here, below, besideHypothesis beside⟩

theorem attach_eq_nil {leaf path : List τ} {value : π} (empty : forest.attach leaf value path = nil) : forest = nil := by
  cases forest with
  | nil => rfl
  | node edge payload children siblings =>
    cases path with
    | nil =>
      rw [attach, RadixForest.setLeaf] at empty
      split at empty <;> cases empty
    | cons first rest =>
      rw [attach] at empty
      split at empty
      · split at empty <;> cases empty
      · cases empty

theorem EveryLeaf.attach {leaf : List τ} {value : π} (every : forest.EveryLeaf kind) (isKind : kind value)
    (path : List τ) : (forest.attach leaf value path).EveryLeaf kind := by
  induction forest generalizing path with
  | nil =>
    cases path with
    | nil => exact every.setLeaf isKind
    | cons first rest => exact trivial
  | node edge payload children siblings belowHypothesis besideHypothesis =>
    cases path with
    | nil => exact every.setLeaf isKind
    | cons first rest =>
      obtain ⟨here, below, beside⟩ := every
      rw [RadixForest.attach]
      split
      · split
        · exact ⟨fun empty => here (attach_eq_nil empty), belowHypothesis below _, beside⟩
        · exact ⟨here, below, beside⟩
      · exact ⟨here, below, besideHypothesis beside _⟩

/-- A node that a visit leaves without children is not dead. -/
theorem EveryLeaf.visit {update : π → π} {dead : π → Bool} (every : forest.EveryLeaf kind)
    (alive : ∀ value, dead (update value) = false → kind (update value)) (tokens : List τ) :
    (forest.visit update dead tokens).1.EveryLeaf kind := by
  induction forest generalizing tokens with
  | nil => exact trivial
  | node edge payload children siblings belowHypothesis besideHypothesis =>
    obtain ⟨here, below, beside⟩ := every
    have keptBelow := belowHypothesis below (tokens.drop edge.length)
    simp only [RadixForest.visit]
    split
    · split
      · split
        · exact beside
        · next kept notGone =>
          refine ⟨fun empty => alive _ ?_, keptBelow, beside⟩
          by_contra isDead
          exact notGone (Bool.eq_true_of_not_eq_false isDead) empty
      · exact ⟨here, below, beside⟩
    · exact ⟨here, below, besideHypothesis beside tokens⟩

theorem visit_immortal_eq_nil {update : π → π} {tokens : List τ}
    (empty : (forest.visit update (fun _ => false) tokens).1 = nil) : forest = nil := by
  cases forest with
  | nil => rfl
  | node edge payload children siblings =>
    simp only [visit] at empty
    split at empty
    · split at empty <;> cases empty
    · cases empty

theorem EveryLeaf.visit_immortal {update : π → π} (every : forest.EveryLeaf kind)
    (updated : ∀ value, kind value → kind (update value)) (tokens : List τ) :
    (forest.visit update (fun _ => false) tokens).1.EveryLeaf kind := by
  induction forest generalizing tokens with
  | nil => exact trivial
  | node edge payload children siblings belowHypothesis besideHypothesis =>
    obtain ⟨here, below, beside⟩ := every
    simp only [RadixForest.visit]
    split
    · split
      · exact ⟨fun empty => updated _ (here (visit_immortal_eq_nil empty)), belowHypothesis below _, beside⟩
      · exact ⟨here, below, beside⟩
    · exact ⟨here, below, besideHypothesis beside tokens⟩

end EveryLeaf

end Agentfork.RadixForest

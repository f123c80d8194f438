import Mathlib.Data.List.Infix
import Mathlib.Data.List.Basic
import Mathlib.Data.Option.Basic
import Mathlib.Tactic.Common

/-! # Compressed prefix trees

A `RadixForest` is the ordered dictionary of children of one radix tree node:
each entry is an edge label, the data kept at the child, the child's own
children and the remaining entries. A path is the concatenation of edge labels.

Two views describe a forest. `find path` is the data of the node that holds the
last token of `path`, so it does not see where edges are cut; `Ends path` says
that `path` stops exactly at the end of a node. Splitting a node changes only
the second view, which is why all operations below are specified by their
effect on the two. -/

namespace Agentfork

/-- The children of a radix tree node, in insertion order. -/
inductive RadixForest (τ π : Type) where
  | nil
  | node (edge : List τ) (payload : π) (children siblings : RadixForest τ π)
  deriving DecidableEq, Repr

namespace RadixForest

variable {τ π : Type}

/-- The number of tokens stored on the edges. -/
def size : RadixForest τ π → Nat
  | nil => 0
  | node edge _ children siblings => edge.length + children.size + siblings.size

/-- No entry of the top level starts with `key`. -/
def Missing (key : Option τ) : RadixForest τ π → Prop
  | nil => True
  | node edge _ _ siblings => edge.head? ≠ key ∧ siblings.Missing key

/-- Edges are nonempty and no two children of a node start with the same token. -/
def WellFormed : RadixForest τ π → Prop
  | nil => True
  | node edge _ children siblings =>
    edge ≠ [] ∧ siblings.Missing edge.head? ∧ children.WellFormed ∧ siblings.WellFormed

/-- The nodes below `above`, each with its end, its edge, its data and whether
it is a leaf: the last entry first and every node before its children, which is
the order of a depth-first search that takes the newest node off its stack. -/
def nodes (above : List τ) : RadixForest τ π → List (List τ × List τ × π × Bool)
  | nil => []
  | node edge payload nil siblings =>
    siblings.nodes above ++ [(above ++ edge, edge, payload, true)]
  | node edge payload children siblings => siblings.nodes above ++
    (above ++ edge, edge, payload, false) :: children.nodes (above ++ edge)

variable [DecidableEq τ]

/-- The data of the node that holds the last token of a nonempty path. -/
def find : RadixForest τ π → List τ → Option π
  | nil, _ => none
  | node edge payload children siblings, path =>
    if edge.head? = path.head? then
      if path <+: edge then some payload
      else if edge <+: path then children.find (path.drop edge.length)
      else none
    else siblings.find path

/-- The path is the concatenation of the edges from the top down to some node. -/
def Ends : RadixForest τ π → List τ → Prop
  | nil, path => path = []
  | node edge _ children siblings, path =>
    if edge.head? = path.head? then edge <+: path ∧ children.Ends (path.drop edge.length)
    else siblings.Ends path

/-- The length of the longest common prefix. -/
def commonLength : List τ → List τ → Nat
  | first :: firsts, second :: seconds =>
    if first = second then commonLength firsts seconds + 1 else 0
  | _, _ => 0

/-- Descend along `tokens`, refreshing the data of every node passed, and split
the first edge that agrees with the tokens only in part. The second component is
the number of tokens matched. After a split the descent ends at the upper half:
the lower half starts with a token other than the next one. -/
def walk (touch : π → π) : List τ → RadixForest τ π → RadixForest τ π × Nat
  | _, nil => (nil, 0)
  | tokens, node edge payload children siblings =>
    if edge.head? = tokens.head? then
      if edge <+: tokens then
        let below := walk touch (tokens.drop edge.length) children
        (node edge (touch payload) below.1 siblings, edge.length + below.2)
      else
        let common := commonLength edge tokens
        (node (edge.take common) (touch payload)
          (node (edge.drop common) payload children nil) siblings, common)
    else
      let beside := walk touch tokens siblings
      (node edge payload children beside.1, beside.2)

/-- Set the child whose edge starts like `leaf`: overwrite it where it is, or
put the new one last. -/
def setLeaf (leaf : List τ) (value : π) : RadixForest τ π → RadixForest τ π
  | nil => node leaf value nil nil
  | node edge payload children siblings =>
    if edge.head? = leaf.head? then node leaf value nil siblings
    else node edge payload children (setLeaf leaf value siblings)

/-- Hang a new leaf below the node at the end of `path`. -/
def attach (leaf : List τ) (value : π) : List τ → RadixForest τ π → RadixForest τ π
  | [], forest => setLeaf leaf value forest
  | _ :: _, nil => nil
  | first :: rest, node edge payload children siblings =>
    if edge.head? = some first then
      if edge <+: first :: rest then
        node edge payload (attach leaf value ((first :: rest).drop edge.length) children) siblings
      else node edge payload children siblings
    else node edge payload children (attach leaf value (first :: rest) siblings)

/-- The number of tokens passed by a descent that stops where an edge does not
match as a whole. -/
def wholeLength : List τ → RadixForest τ π → Nat
  | _, nil => 0
  | tokens, node edge _ children siblings =>
    if edge.head? = tokens.head? then
      if edge <+: tokens then edge.length + wholeLength (tokens.drop edge.length) children else 0
    else wholeLength tokens siblings

/-- Update the nodes of such a descent from the bottom up and drop each one
that is dead and has no child left. The second component is the number of
tokens dropped. -/
def visit (update : π → π) (dead : π → Bool) : List τ → RadixForest τ π → RadixForest τ π × Nat
  | _, nil => (nil, 0)
  | tokens, node edge payload children siblings =>
    if edge.head? = tokens.head? then
      if edge <+: tokens then
        let below := visit update dead (tokens.drop edge.length) children
        match dead (update payload), below.1 with
        | true, nil => (siblings, below.2 + edge.length)
        | _, kept => (node edge (update payload) kept siblings, below.2)
      else (node edge payload children siblings, 0)
    else
      let beside := visit update dead tokens siblings
      (node edge payload children beside.1, beside.2)

/-- Delete the node at the end of `path` with everything below it. -/
def removeAt : List τ → RadixForest τ π → RadixForest τ π
  | _, nil => nil
  | path, node edge payload children siblings =>
    if edge = path then siblings
    else if edge.head? = path.head? then
      if edge <+: path then node edge payload (removeAt (path.drop edge.length) children) siblings
      else node edge payload children siblings
    else node edge payload children (removeAt path siblings)

/-! ## Paths and edges -/

omit [DecidableEq τ] in
theorem head?_eq_of_isPrefix {first second : List τ} (nonempty : first ≠ []) (isPrefix : first <+: second) :
    first.head? = second.head? := by
  obtain ⟨rest, rfl⟩ := isPrefix
  cases first with
  | nil => exact absurd rfl nonempty
  | cons token tokens => rfl

theorem commonLength_le (first second : List τ) :
    commonLength first second ≤ first.length ∧ commonLength first second ≤ second.length := by
  induction first generalizing second with
  | nil => simp [commonLength]
  | cons token tokens inductionHypothesis =>
    cases second with
    | nil => simp [commonLength]
    | cons other others =>
      have bound := inductionHypothesis others
      simp only [commonLength, List.length_cons]
      split <;> omega

theorem take_commonLength (first second : List τ) :
    first.take (commonLength first second) = second.take (commonLength first second) := by
  induction first generalizing second with
  | nil => simp [commonLength]
  | cons token tokens inductionHypothesis =>
    cases second with
    | nil => simp [commonLength]
    | cons other others =>
      simp only [commonLength]
      split
      · next same => subst same; simp [inductionHypothesis others]
      · rfl

/-- A common prefix is no longer than `commonLength`. -/
theorem le_commonLength {first second path : List τ} (ofFirst : path <+: first)
    (ofSecond : path <+: second) : path.length ≤ commonLength first second := by
  induction first generalizing second path with
  | nil => simp [List.prefix_nil.1 ofFirst]
  | cons token tokens inductionHypothesis =>
    cases path with
    | nil => simp
    | cons step steps =>
      cases second with
      | nil => simp at ofSecond
      | cons other others =>
        rw [List.cons_prefix_cons] at ofFirst ofSecond
        obtain ⟨rfl, ofFirst⟩ := ofFirst
        obtain ⟨rfl, ofSecond⟩ := ofSecond
        simpa [commonLength] using inductionHypothesis ofFirst ofSecond

theorem commonLength_pos {first second : List τ} (nonempty : first ≠ [])
    (sameHead : first.head? = second.head?) : 0 < commonLength first second := by
  cases first with
  | nil => exact absurd rfl nonempty
  | cons token tokens =>
    cases second with
    | nil => simp at sameHead
    | cons other others =>
      have same : token = other := by simpa using sameHead
      simp [commonLength, same]

/-- Where the edge does not match as a whole, the common part is shorter than it. -/
theorem commonLength_lt {edge tokens : List τ} (differs : ¬ edge <+: tokens) :
    commonLength edge tokens < edge.length := by
  refine lt_of_le_of_ne (commonLength_le edge tokens).1 fun whole => differs ?_
  have same := take_commonLength edge tokens
  rw [whole, List.take_length] at same
  exact List.prefix_iff_eq_take.2 same

/-! ## The views of one entry -/

omit [DecidableEq τ] in
theorem head?_append_ne {edge path : List τ} (nonempty : edge ≠ []) :
    (edge ++ path).head? = edge.head? := by
  cases edge with
  | nil => exact absurd rfl nonempty
  | cons token tokens => rfl

theorem find_on_edge {edge path : List τ} {payload : π} {children siblings : RadixForest τ π}
    (nonempty : path ≠ []) (isPrefix : path <+: edge) :
    (node edge payload children siblings).find path = some payload := by
  rw [find, if_pos (head?_eq_of_isPrefix nonempty isPrefix).symm, if_pos isPrefix]

theorem find_below {edge path : List τ} {payload : π} {children siblings : RadixForest τ π}
    (nonempty : edge ≠ []) (further : path ≠ []) :
    (node edge payload children siblings).find (edge ++ path) = children.find path := by
  rw [find, if_pos (head?_append_ne nonempty).symm, if_neg, if_pos (List.prefix_append _ _),
    List.drop_left]
  intro isPrefix
  have bound := isPrefix.length_le
  have positive := List.length_pos_of_ne_nil further
  simp only [List.length_append] at bound
  omega

theorem find_diverging {edge path : List τ} {payload : π} {children siblings : RadixForest τ π}
    (sameHead : edge.head? = path.head?) (notAbove : ¬ path <+: edge) (notBelow : ¬ edge <+: path) :
    (node edge payload children siblings).find path = none := by
  rw [find, if_pos sameHead, if_neg notAbove, if_neg notBelow]

theorem find_beside {edge path : List τ} {payload : π} {children siblings : RadixForest τ π}
    (otherHead : edge.head? ≠ path.head?) :
    (node edge payload children siblings).find path = siblings.find path := by
  rw [find, if_neg otherHead]

theorem ends_below {edge path : List τ} {payload : π} {children siblings : RadixForest τ π}
    (nonempty : edge ≠ []) :
    (node edge payload children siblings).Ends (edge ++ path) ↔ children.Ends path := by
  rw [Ends, if_pos (head?_append_ne nonempty).symm, List.drop_left]
  exact ⟨fun ends => ends.2, fun ends => ⟨List.prefix_append _ _, ends⟩⟩

theorem ends_diverging {edge path : List τ} {payload : π} {children siblings : RadixForest τ π}
    (sameHead : edge.head? = path.head?) (notBelow : ¬ edge <+: path) :
    ¬ (node edge payload children siblings).Ends path := by
  rw [Ends, if_pos sameHead]
  exact fun ends => notBelow ends.1

theorem ends_beside {edge path : List τ} {payload : π} {children siblings : RadixForest τ π}
    (otherHead : edge.head? ≠ path.head?) :
    (node edge payload children siblings).Ends path ↔ siblings.Ends path := by
  rw [Ends, if_neg otherHead]

theorem find_of_missing {forest : RadixForest τ π} {path : List τ}
    (missing : forest.Missing path.head?) : forest.find path = none := by
  induction forest with
  | nil => rfl
  | node edge payload children siblings _ besideHypothesis =>
    rw [find_beside missing.1]
    exact besideHypothesis missing.2

theorem not_ends_of_missing {forest : RadixForest τ π} {path : List τ} (nonempty : path ≠ [])
    (missing : forest.Missing path.head?) : ¬ forest.Ends path := by
  induction forest with
  | nil => exact nonempty
  | node edge payload children siblings _ besideHypothesis =>
    rw [ends_beside missing.1]
    exact besideHypothesis missing.2

@[simp] theorem find_nil_path {forest : RadixForest τ π} (wellFormed : forest.WellFormed) :
    forest.find [] = none := by
  induction forest with
  | nil => rfl
  | node edge payload children siblings _ besideHypothesis =>
    have otherHead : edge.head? ≠ ([] : List τ).head? := by simpa using wellFormed.1
    rw [find_beside otherHead]
    exact besideHypothesis wellFormed.2.2.2

@[simp] theorem ends_nil_path {forest : RadixForest τ π} (wellFormed : forest.WellFormed) :
    forest.Ends [] := by
  induction forest with
  | nil => rfl
  | node edge payload children siblings _ besideHypothesis =>
    have otherHead : edge.head? ≠ ([] : List τ).head? := by simpa using wellFormed.1
    rw [ends_beside otherHead]
    exact besideHypothesis wellFormed.2.2.2

/-- A path that meets the first entry lies on its edge, continues below it, or
leaves it half way. -/
theorem path_cases (edge path : List τ) :
    path <+: edge ∨ (∃ rest, rest ≠ [] ∧ path = edge ++ rest) ∨
      (¬ path <+: edge ∧ ¬ edge <+: path) := by
  by_cases above : path <+: edge
  · exact .inl above
  · by_cases below : edge <+: path
    · obtain ⟨rest, rfl⟩ := below
      refine .inr (.inl ⟨rest, ?_, rfl⟩)
      rintro rfl
      simp at above
    · exact .inr (.inr ⟨above, below⟩)

/-- A forest that holds no path is empty. -/
theorem eq_nil_of_find_none {forest : RadixForest τ π} (wellFormed : forest.WellFormed)
    (empty : ∀ path, forest.find path = none) : forest = nil := by
  cases forest with
  | nil => rfl
  | node edge payload children siblings =>
    have found : (node edge payload children siblings).find edge = some payload :=
      find_on_edge wellFormed.1 (List.prefix_refl edge)
    rw [empty edge] at found
    cases found

/-- The paths of a forest are closed under nonempty prefixes. -/
theorem find_isSome_of_isPrefix {forest : RadixForest τ π} {shorter path : List τ}
    (wellFormed : forest.WellFormed) (nonempty : shorter ≠ []) (isPrefix : shorter <+: path)
    (found : (forest.find path).isSome) : (forest.find shorter).isSome := by
  induction forest generalizing shorter path with
  | nil => simp [find] at found
  | node edge payload children siblings belowHypothesis besideHypothesis =>
    have heads := head?_eq_of_isPrefix nonempty isPrefix
    by_cases sameHead : edge.head? = path.head?
    · obtain above | ⟨rest, further, rfl⟩ | ⟨notAbove, notBelow⟩ := path_cases edge path
      · rw [find_on_edge nonempty (isPrefix.trans above)]; rfl
      · rw [find_below wellFormed.1 further] at found
        obtain above | ⟨tail, tailFurther, rfl⟩ | ⟨notAbove, notBelow⟩ :=
          path_cases edge shorter
        · rw [find_on_edge nonempty above]; rfl
        · rw [find_below wellFormed.1 tailFurther]
          exact belowHypothesis wellFormed.2.2.1 tailFurther
            ((List.prefix_append_right_inj edge).1 isPrefix) found
        · obtain above | below := List.prefix_or_prefix_of_prefix isPrefix (List.prefix_append edge rest)
          · exact absurd above notAbove
          · exact absurd below notBelow
      · rw [find_diverging sameHead notAbove notBelow] at found
        simp at found
    · rw [find_beside sameHead] at found
      rw [find_beside (heads ▸ sameHead)]
      exact besideHypothesis wellFormed.2.2.2 nonempty isPrefix found

/-- Every listed node is found at its end. -/
theorem find_of_mem_nodes {forest : RadixForest τ π} (wellFormed : forest.WellFormed) {above path edge : List τ}
    {payload : π} {leaf : Bool} (member : (path, edge, payload, leaf) ∈ forest.nodes above) :
    ∃ rest, path = above ++ rest ∧ rest ≠ [] ∧ forest.find rest = some payload := by
  induction forest generalizing above with
  | nil => simp [nodes] at member
  | node first value children siblings belowHypothesis besideHypothesis =>
    obtain ⟨firstNonempty, missing, childrenFormed, siblingsFormed⟩ := wellFormed
    have cases : (path, edge, payload, leaf) ∈ siblings.nodes above ∨ (path = above ++ first ∧ payload = value) ∨
        (path, edge, payload, leaf) ∈ children.nodes (above ++ first) := by
      cases children with
      | nil =>
        simp only [nodes, List.mem_append, List.mem_singleton, Prod.mk.injEq] at member
        tauto
      | node _ _ _ _ =>
        simp only [nodes, List.mem_append, List.mem_cons, Prod.mk.injEq] at member ⊢
        tauto
    obtain beside | ⟨rfl, rfl⟩ | below := cases
    · obtain ⟨rest, rfl, nonempty, found⟩ := besideHypothesis siblingsFormed beside
      refine ⟨rest, rfl, nonempty, ?_⟩
      by_cases sameHead : first.head? = rest.head?
      · rw [find_of_missing (sameHead ▸ missing)] at found
        cases found
      · rwa [find_beside sameHead]
    · exact ⟨first, rfl, firstNonempty, find_on_edge firstNonempty (List.prefix_refl first)⟩
    · obtain ⟨rest, rfl, nonempty, found⟩ := belowHypothesis childrenFormed below
      refine ⟨first ++ rest, List.append_assoc _ _ _, by simp [nonempty], ?_⟩
      rwa [find_below firstNonempty nonempty]

/-- Where a node ends, the node holds its path. -/
theorem find_isSome_of_ends {forest : RadixForest τ π} {path : List τ} (nonempty : path ≠ [])
    (wellFormed : forest.WellFormed) (ends : forest.Ends path) : (forest.find path).isSome := by
  induction forest generalizing path with
  | nil => exact absurd ends nonempty
  | node edge payload children siblings belowHypothesis besideHypothesis =>
    by_cases sameHead : edge.head? = path.head?
    · rw [Ends, if_pos sameHead] at ends
      obtain ⟨⟨rest, rfl⟩, ends⟩ := ends
      rw [List.drop_left] at ends
      by_cases further : rest = []
      · subst further
        rw [List.append_nil, find_on_edge wellFormed.1 (List.prefix_refl edge)]
        rfl
      · rw [find_below wellFormed.1 further]
        exact belowHypothesis further wellFormed.2.2.1 ends
    · rw [ends_beside sameHead] at ends
      rw [find_beside sameHead]
      exact besideHypothesis nonempty wellFormed.2.2.2 ends

end RadixForest

end Agentfork

import Agentfork.Library.RadixWalk
import Agentfork.Library.RadixUpdate
import Agentfork.Library.PrefixSet

/-! # Well-formed compressed prefix trees

A `RadixTree` is a forest together with its well-formedness, so that no client
has to carry it. `domain` is the set of paths it holds: its size is the number
of tokens stored, and a walk finds the longest match in it. -/

namespace Agentfork

structure RadixTree (τ π : Type) [DecidableEq τ] where
  forest : RadixForest τ π
  wellFormed : forest.WellFormed

namespace RadixForest

variable {τ π : Type} [DecidableEq τ]

/-- The paths that a forest holds. -/
def domain : RadixForest τ π → Finset (List τ)
  | nil => ∅
  | node edge _ children siblings =>
    prefixes edge ∪ children.domain.image (edge ++ ·) ∪ siblings.domain

theorem mem_domain {forest : RadixForest τ π} (wellFormed : forest.WellFormed) {path : List τ} :
    path ∈ forest.domain ↔ (forest.find path).isSome := by
  induction forest generalizing path with
  | nil => simp [domain, find]
  | node edge payload children siblings belowHypothesis besideHypothesis =>
    obtain ⟨edgeNonempty, missing, childrenFormed, siblingsFormed⟩ := wellFormed
    simp only [domain, Finset.mem_union, Finset.mem_image, mem_prefixes, belowHypothesis childrenFormed,
      besideHypothesis siblingsFormed]
    by_cases sameHead : edge.head? = path.head?
    · have besides := find_of_missing (sameHead ▸ missing)
      have further : path ≠ [] := by rintro rfl; simp [edgeNonempty] at sameHead
      obtain above | ⟨rest, restFurther, rfl⟩ | ⟨notAbove, notBelow⟩ := path_cases edge path
      · simp [find_on_edge further above, further, above]
      · rw [find_below edgeNonempty restFurther, besides]
        have longer : ¬ edge ++ rest <+: edge := fun above => by
          have bound := above.length_le
          have positive := List.length_pos_of_ne_nil restFurther
          simp only [List.length_append] at bound
          omega
        simp [longer]
      · rw [find_diverging sameHead notAbove notBelow, besides]
        simp only [notAbove, and_false, Option.isSome_none, Bool.false_eq_true, or_false, false_or,
          iff_false]
        rintro ⟨rest, _, rfl⟩
        exact notBelow (List.prefix_append _ _)
    · rw [find_beside sameHead]
      refine or_iff_right ?_
      rintro (⟨nonempty, above⟩ | ⟨rest, found, rfl⟩)
      · exact sameHead (head?_eq_of_isPrefix nonempty above).symm
      · exact sameHead (head?_append_ne edgeNonempty).symm

/-- Every stored token is the end of exactly one path. -/
theorem card_domain {forest : RadixForest τ π} (wellFormed : forest.WellFormed) :
    forest.domain.card = forest.size := by
  induction forest with
  | nil => rfl
  | node edge payload children siblings belowHypothesis besideHypothesis =>
    obtain ⟨edgeNonempty, missing, childrenFormed, siblingsFormed⟩ := wellFormed
    have edgeBelow : Disjoint (prefixes edge) (children.domain.image (edge ++ ·)) := by
      rw [Finset.disjoint_left]
      intro path onEdge below
      obtain ⟨rest, member, rfl⟩ := Finset.mem_image.1 below
      have bound := (mem_prefixes.1 onEdge).2.length_le
      have restEmpty : rest = [] := by
        apply List.eq_nil_of_length_eq_zero
        simp only [List.length_append] at bound
        omega
      rw [mem_domain childrenFormed, restEmpty, find_nil_path childrenFormed] at member
      cases member
    have hereBeside : Disjoint (prefixes edge ∪ children.domain.image (edge ++ ·)) siblings.domain := by
      rw [Finset.disjoint_left]
      intro path here beside
      have sameHead : edge.head? = path.head? := by
        rw [Finset.mem_union] at here
        obtain onEdge | below := here
        · obtain ⟨nonempty, above⟩ := mem_prefixes.1 onEdge
          exact (head?_eq_of_isPrefix nonempty above).symm
        · obtain ⟨rest, _, rfl⟩ := Finset.mem_image.1 below
          exact (head?_append_ne edgeNonempty).symm
      rw [mem_domain siblingsFormed, find_of_missing (sameHead ▸ missing)] at beside
      cases beside
    rw [domain, Finset.card_union_of_disjoint hereBeside, Finset.card_union_of_disjoint edgeBelow,
      Finset.card_image_of_injective _ (List.append_right_injective edge), card_prefixes,
      belowHypothesis childrenFormed, besideHypothesis siblingsFormed, size]

end RadixForest

namespace RadixTree

variable {τ π γ : Type} [DecidableEq τ]

def empty : RadixTree τ π := ⟨.nil, trivial⟩

def find (tree : RadixTree τ π) (path : List τ) : Option π := tree.forest.find path

def Ends (tree : RadixTree τ π) (path : List τ) : Prop := tree.forest.Ends path

def size (tree : RadixTree τ π) : Nat := tree.forest.size

def domain (tree : RadixTree τ π) : Finset (List τ) := tree.forest.domain

def walk (touch : π → π) (tokens : List τ) (tree : RadixTree τ π) : RadixTree τ π × Nat :=
  (⟨(tree.forest.walk touch tokens).1, (RadixForest.walk_wellFormed touch tree.wellFormed tokens).1⟩,
    (tree.forest.walk touch tokens).2)

/-- Hang a leaf below `path`; an empty leaf is no node. -/
def attach (path leaf : List τ) (value : π) (tree : RadixTree τ π) : RadixTree τ π :=
  if nonempty : leaf = [] then tree
  else ⟨tree.forest.attach leaf value path,
    (RadixForest.attach_wellFormed nonempty tree.wellFormed path).1⟩

def removeAt (path : List τ) (tree : RadixTree τ π) : RadixTree τ π :=
  ⟨tree.forest.removeAt path, (RadixForest.removeAt_wellFormed tree.wellFormed path).1⟩

def wholeLength (tokens : List τ) (tree : RadixTree τ π) : Nat := tree.forest.wholeLength tokens

def visit (update : π → π) (dead : π → Bool) (tokens : List τ) (tree : RadixTree τ π) :
    RadixTree τ π × Nat :=
  (⟨(tree.forest.visit update dead tokens).1,
    (RadixForest.visit_wellFormed update dead tree.wellFormed tokens).1⟩,
    (tree.forest.visit update dead tokens).2)

theorem mem_domain {tree : RadixTree τ π} {path : List τ} : path ∈ tree.domain ↔ (tree.find path).isSome :=
  RadixForest.mem_domain tree.wellFormed

theorem card_domain (tree : RadixTree τ π) : tree.domain.card = tree.size :=
  RadixForest.card_domain tree.wellFormed

@[simp] theorem find_nil_path (tree : RadixTree τ π) : tree.find [] = none :=
  RadixForest.find_nil_path tree.wellFormed

@[simp] theorem ends_nil_path (tree : RadixTree τ π) : tree.Ends [] :=
  RadixForest.ends_nil_path tree.wellFormed

@[simp] theorem find_empty (path : List τ) : (empty : RadixTree τ π).find path = none := rfl

@[simp] theorem domain_empty : (empty : RadixTree τ π).domain = ∅ := rfl

@[simp] theorem size_empty : (empty : RadixTree τ π).size = 0 := rfl

theorem ne_nil_of_find {tree : RadixTree τ π} {path : List τ} {value : π}
    (found : tree.find path = some value) : path ≠ [] := by
  rintro rfl
  rw [find_nil_path] at found
  cases found

theorem eq_empty_of_find_none {tree : RadixTree τ π} (none : ∀ path, tree.find path = none) :
    tree = empty := by
  obtain ⟨forest, wellFormed⟩ := tree
  have isNil := RadixForest.eq_nil_of_find_none wellFormed none
  subst isNil
  rfl

/-! ## Walks -/

theorem find_walk (touch : π → π) (view : π → γ) (untouched : ∀ value, view (touch value) = view value)
    (tree : RadixTree τ π) (tokens path : List τ) :
    ((tree.walk touch tokens).1.find path).map view = (tree.find path).map view :=
  RadixForest.find_walk view untouched tree.wellFormed tokens path

theorem ends_walk (touch : π → π) (tree : RadixTree τ π) (tokens path : List τ) :
    (tree.walk touch tokens).1.Ends path ↔
      tree.Ends path ∨ path = tokens.take (tree.walk touch tokens).2 :=
  RadixForest.ends_walk touch tree.wellFormed tokens path

@[simp] theorem domain_walk (touch : π → π) (tree : RadixTree τ π) (tokens : List τ) :
    (tree.walk touch tokens).1.domain = tree.domain := by
  ext path
  have same := find_walk touch (fun _ => ()) (fun _ => rfl) tree tokens path
  rw [mem_domain, mem_domain, ← Option.isSome_map (f := fun _ : π => ()), same, Option.isSome_map]

@[simp] theorem size_walk (touch : π → π) (tree : RadixTree τ π) (tokens : List τ) :
    (tree.walk touch tokens).1.size = tree.size :=
  RadixForest.walk_size touch tree.forest tokens

theorem walk_separates (touch : π → π) (tree : RadixTree τ π) (tokens : List τ) :
    (tree.walk touch tokens).2 ≤ tokens.length ∧ ∀ length, 0 < length → length ≤ tokens.length →
      (tokens.take length ∈ tree.domain ↔ length ≤ (tree.walk touch tokens).2) := by
  simp only [mem_domain]
  exact RadixForest.walk_matched touch tree.wellFormed tokens

theorem walk_matched (touch : π → π) (tree : RadixTree τ π) (tokens : List τ) :
    (tree.walk touch tokens).2 = longestMatch tree.domain tokens :=
  (longestMatch_eq (walk_separates touch tree tokens).1 (walk_separates touch tree tokens).2).symm

theorem length_sub_matched (touch : π → π) (tree : RadixTree τ π) (tokens : List τ) :
    tokens.length - (tree.walk touch tokens).2 = (prefixes tokens \ tree.domain).card :=
  (card_uncached (walk_separates touch tree tokens).1 (walk_separates touch tree tokens).2).symm

/-- Where a node ends, the whole path is matched node by node. -/
theorem wholeLength_of_ends {tree : RadixTree τ π} {tokens : List τ} (ends : tree.Ends tokens) :
    tree.wholeLength tokens = tokens.length := by
  obtain ⟨forest, wellFormed⟩ := tree
  simp only [Ends, wholeLength] at ends ⊢
  induction forest generalizing tokens with
  | nil => cases ends; rfl
  | node edge payload children siblings belowHypothesis besideHypothesis =>
    rw [RadixForest.wholeLength]
    split
    · next sameHead =>
      rw [RadixForest.Ends, if_pos sameHead] at ends
      obtain ⟨⟨rest, rfl⟩, ends⟩ := ends
      rw [List.drop_left] at ends
      rw [if_pos (List.prefix_append _ _), List.drop_left, List.length_append]
      exact congrArg _ (belowHypothesis wellFormed.2.2.1 ends)
    · next otherHead =>
      rw [RadixForest.ends_beside otherHead] at ends
      exact besideHypothesis wellFormed.2.2.2 ends

/-! ## Attaching a leaf -/

section Attach

variable {tree : RadixTree τ π} {path leaf : List τ} (value : π) (nonempty : leaf ≠ [])
  (ends : tree.Ends path) (absent : tree.find (path ++ leaf.take 1) = none)

include nonempty ends absent

theorem size_attach : (tree.attach path leaf value).size = tree.size + leaf.length := by
  simp only [attach, dif_neg nonempty]
  exact (RadixForest.attach_spec value nonempty tree.wellFormed ends absent).1

theorem find_attach (query : List τ) : (tree.attach path leaf value).find query =
    if path.length < query.length ∧ query <+: path ++ leaf then some value else tree.find query := by
  simp only [attach, dif_neg nonempty]
  exact (RadixForest.attach_spec value nonempty tree.wellFormed ends absent).2.1 query

theorem ends_attach (query : List τ) : (tree.attach path leaf value).Ends query ↔
    tree.Ends query ∨ query = path ++ leaf := by
  simp only [attach, dif_neg nonempty]
  exact (RadixForest.attach_spec value nonempty tree.wellFormed ends absent).2.2 query

end Attach

/-! ## Visiting a path -/

theorem size_visit (update : π → π) (dead : π → Bool) (tree : RadixTree τ π) (tokens : List τ) :
    (tree.visit update dead tokens).1.size + (tree.visit update dead tokens).2 = tree.size :=
  RadixForest.visit_size update dead tree.forest tokens

theorem find_visit {update : π → π} {dead : π → Bool} {tree : RadixTree τ π} {tokens : List τ}
    (ends : tree.Ends tokens) (hereditary : tree.forest.Hereditary update dead tokens) (path : List τ) :
    (tree.visit update dead tokens).1.find path = tree.forest.visited update dead tokens path :=
  (RadixForest.visit_spec update dead tree.wellFormed ends hereditary).1 path

theorem ends_visit {update : π → π} {dead : π → Bool} {tree : RadixTree τ π} {tokens : List τ}
    (ends : tree.Ends tokens) (hereditary : tree.forest.Hereditary update dead tokens) (path : List τ) :
    (tree.visit update dead tokens).1.Ends path ↔ tree.Ends path ∧
      (path = [] ∨ ((tree.visit update dead tokens).1.find path).isSome) := by
  rw [find_visit ends hereditary]
  exact (RadixForest.visit_spec update dead tree.wellFormed ends hereditary).2 path

/-- An update that lets no node die keeps all nodes where they are. -/
theorem find_visit_immortal {update : π → π} {tree : RadixTree τ π} {tokens : List τ}
    (ends : tree.Ends tokens) (path : List τ) :
    (tree.visit update (fun _ => false) tokens).1.find path =
      if path <+: tokens then (tree.find path).map update else tree.find path := by
  rw [find_visit ends (RadixForest.hereditary_of_immortal update (fun _ => rfl) _ _)]
  simp only [RadixForest.visited, Bool.false_eq_true, if_false]
  congr 1
  exact Option.map_eq_bind.symm

theorem ends_visit_immortal {update : π → π} {tree : RadixTree τ π} {tokens : List τ}
    (ends : tree.Ends tokens) (path : List τ) :
    (tree.visit update (fun _ => false) tokens).1.Ends path ↔ tree.Ends path := by
  rw [ends_visit ends (RadixForest.hereditary_of_immortal update (fun _ => rfl) _ _),
    find_visit_immortal ends]
  refine and_iff_left_of_imp fun pathEnds => ?_
  by_cases nonempty : path = []
  · exact .inl nonempty
  · have found := RadixForest.find_isSome_of_ends nonempty tree.wellFormed pathEnds
    refine .inr ?_
    split
    · rwa [Option.isSome_map]
    · exact found

end RadixTree

end Agentfork

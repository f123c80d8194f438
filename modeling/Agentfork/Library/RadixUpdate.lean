import Agentfork.Library.RadixForest

/-! # Adding a leaf and updating the nodes of a path

`attach` adds the paths of one new leaf. `visit` updates the nodes along a path
that ends with a node and drops the dead ones; it needs that a dead node has
only dead nodes below it, all on the path, so that dropping it loses nothing. -/

namespace Agentfork

namespace RadixForest

variable {τ π : Type} [DecidableEq τ]

/-! ## Setting a child -/

theorem setLeaf_wellFormed {leaf : List τ} (value : π) {forest : RadixForest τ π}
    (nonempty : leaf ≠ []) (wellFormed : forest.WellFormed) :
    (setLeaf leaf value forest).WellFormed ∧ ∀ key, leaf.head? ≠ key → forest.Missing key →
      (setLeaf leaf value forest).Missing key := by
  induction forest with
  | nil => exact ⟨⟨nonempty, trivial, trivial, trivial⟩, fun key differs _ => ⟨differs, trivial⟩⟩
  | node edge payload children siblings _ besideHypothesis =>
    obtain ⟨edgeNonempty, missing, childrenFormed, siblingsFormed⟩ := wellFormed
    obtain ⟨formed, preserved⟩ := besideHypothesis siblingsFormed
    simp only [setLeaf]
    split
    · next sameHead =>
      exact ⟨⟨nonempty, sameHead ▸ missing, trivial, siblingsFormed⟩,
        fun key differs absent => ⟨differs, absent.2⟩⟩
    · next otherHead =>
      exact ⟨⟨edgeNonempty, preserved _ (Ne.symm otherHead) missing, childrenFormed, formed⟩,
        fun key differs absent => ⟨absent.1, preserved key differs absent.2⟩⟩

theorem size_setLeaf {leaf : List τ} {value : π} {forest : RadixForest τ π}
    (missing : forest.Missing leaf.head?) :
    (setLeaf leaf value forest).size = forest.size + leaf.length := by
  induction forest with
  | nil => simp [setLeaf, size]
  | node edge payload children siblings _ besideHypothesis =>
    rw [setLeaf, if_neg missing.1, size, size, besideHypothesis missing.2]
    omega

theorem find_setLeaf {leaf : List τ} {value : π} {forest : RadixForest τ π}
    (missing : forest.Missing leaf.head?) {path : List τ} (further : path ≠ []) :
    (setLeaf leaf value forest).find path = if path <+: leaf then some value else forest.find path := by
  induction forest with
  | nil =>
    simp only [setLeaf, find]
    split
    · rw [ite_self]
    · next otherHead =>
      rw [if_neg fun above => otherHead (head?_eq_of_isPrefix further above).symm]
  | node edge payload children siblings _ besideHypothesis =>
    rw [setLeaf, if_neg missing.1]
    by_cases sameHead : edge.head? = path.head?
    · rw [if_neg fun above => missing.1 (sameHead.trans (head?_eq_of_isPrefix further above))]
      simp only [find, if_pos sameHead]
    · rw [find_beside sameHead, find_beside sameHead, besideHypothesis missing.2]

theorem ends_setLeaf {leaf : List τ} {value : π} {forest : RadixForest τ π} (nonempty : leaf ≠ [])
    (missing : forest.Missing leaf.head?) {path : List τ} :
    (setLeaf leaf value forest).Ends path ↔ forest.Ends path ∨ path = leaf := by
  induction forest with
  | nil =>
    simp only [setLeaf, Ends]
    split
    · next sameHead =>
      constructor
      · rintro ⟨⟨rest, rfl⟩, stops⟩
        rw [List.drop_left] at stops
        exact .inr (by rw [stops, List.append_nil])
      · rintro (rfl | rfl)
        · simp [nonempty] at sameHead
        · simp
    · next otherHead =>
      refine (or_iff_left ?_).symm
      rintro rfl
      exact otherHead rfl
  | node edge payload children siblings _ besideHypothesis =>
    rw [setLeaf, if_neg missing.1]
    by_cases sameHead : edge.head? = path.head?
    · simp only [Ends, if_pos sameHead]
      refine (or_iff_left ?_).symm
      rintro rfl
      exact missing.1 sameHead
    · rw [ends_beside sameHead, ends_beside sameHead, besideHypothesis missing.2]

/-- A forest that does not hold the first step of a path has no entry for it. -/
theorem missing_of_find_none {forest : RadixForest τ π} (wellFormed : forest.WellFormed) {leaf : List τ}
    (nonempty : leaf ≠ []) (absent : forest.find (leaf.take 1) = none) : forest.Missing leaf.head? := by
  induction forest with
  | nil => trivial
  | node edge payload children siblings _ besideHypothesis =>
    have stepHead : (leaf.take 1).head? = leaf.head? := by
      cases leaf with
      | nil => exact absurd rfl nonempty
      | cons token tokens => rfl
    have otherHead : edge.head? ≠ leaf.head? := by
      intro sameHead
      have isPrefix : leaf.take 1 <+: edge := by
        cases leaf with
        | nil => exact absurd rfl nonempty
        | cons token tokens =>
          cases edge with
          | nil => exact absurd rfl wellFormed.1
          | cons first rest =>
            have same : first = token := by simpa using sameHead
            simp [same]
      rw [find_on_edge (by simp [nonempty]) isPrefix] at absent
      cases absent
    rw [find_beside (by rwa [stepHead])] at absent
    exact ⟨otherHead, besideHypothesis wellFormed.2.2.2 absent⟩

/-! ## Attaching a leaf -/

theorem attach_node {leaf path edge : List τ} {value payload : π} {children siblings : RadixForest τ π}
    (further : path ≠ []) : attach leaf value path (node edge payload children siblings) =
      if edge.head? = path.head? then
        if edge <+: path then
          node edge payload (attach leaf value (path.drop edge.length) children) siblings
        else node edge payload children siblings
      else node edge payload children (attach leaf value path siblings) := by
  cases path with
  | nil => exact absurd rfl further
  | cons first rest => rfl

theorem attach_wellFormed {leaf : List τ} {value : π} {forest : RadixForest τ π} (nonempty : leaf ≠ [])
    (wellFormed : forest.WellFormed) (path : List τ) : (attach leaf value path forest).WellFormed ∧
      ∀ key, (path = [] → leaf.head? ≠ key) → forest.Missing key →
        (attach leaf value path forest).Missing key := by
  induction forest generalizing path with
  | nil =>
    cases path with
    | nil =>
      have set := setLeaf_wellFormed value nonempty wellFormed
      exact ⟨set.1, fun key differs => set.2 key (differs rfl)⟩
    | cons first rest => exact ⟨trivial, fun _ _ _ => trivial⟩
  | node edge payload children siblings belowHypothesis besideHypothesis =>
    by_cases further : path = []
    · subst further
      have set := setLeaf_wellFormed value nonempty wellFormed
      exact ⟨set.1, fun key differs => set.2 key (differs rfl)⟩
    · obtain ⟨edgeNonempty, missing, childrenFormed, siblingsFormed⟩ := wellFormed
      rw [attach_node further]
      split
      · split
        · exact ⟨⟨edgeNonempty, missing, (belowHypothesis childrenFormed _).1, siblingsFormed⟩,
            fun key _ absent => absent⟩
        · exact ⟨⟨edgeNonempty, missing, childrenFormed, siblingsFormed⟩, fun key _ absent => absent⟩
      · have beside := besideHypothesis siblingsFormed path
        exact ⟨⟨edgeNonempty, beside.2 _ (fun empty => absurd empty further) missing, childrenFormed,
          beside.1⟩, fun key differs absent => ⟨absent.1, beside.2 key differs absent.2⟩⟩

theorem attach_spec {leaf : List τ} (value : π) {forest : RadixForest τ π} {path : List τ}
    (nonempty : leaf ≠ []) (wellFormed : forest.WellFormed) (ends : forest.Ends path)
    (absent : forest.find (path ++ leaf.take 1) = none) :
    (attach leaf value path forest).size = forest.size + leaf.length ∧
    (∀ query, (attach leaf value path forest).find query =
      if path.length < query.length ∧ query <+: path ++ leaf then some value else forest.find query) ∧
    ∀ query, (attach leaf value path forest).Ends query ↔ forest.Ends query ∨ query = path ++ leaf := by
  induction forest generalizing path with
  | nil =>
    cases ends
    have missing : (nil : RadixForest τ π).Missing leaf.head? := trivial
    refine ⟨size_setLeaf missing, fun query => ?_, fun query => ends_setLeaf nonempty missing⟩
    by_cases further : query = []
    · subst further; simp [attach, setLeaf, find, nonempty]
    · simp [attach, find_setLeaf missing further, List.length_pos_iff.2 further]
  | node edge payload children siblings belowHypothesis besideHypothesis =>
    by_cases atTop : path = []
    · subst atTop
      have missing := missing_of_find_none wellFormed nonempty absent
      have setFormed := (setLeaf_wellFormed value nonempty wellFormed).1
      refine ⟨size_setLeaf missing, fun query => ?_, fun query => ends_setLeaf nonempty missing⟩
      by_cases further : query = []
      · subst further; simp [attach, find_nil_path setFormed, find_nil_path wellFormed]
      · simp [attach, find_setLeaf missing further, List.length_pos_iff.2 further]
    · rw [attach_node atTop]
      obtain ⟨edgeNonempty, missing, childrenFormed, siblingsFormed⟩ := wellFormed
      by_cases sameHead : edge.head? = path.head?
      · rw [Ends, if_pos sameHead] at ends
        obtain ⟨⟨rest, rfl⟩, ends⟩ := ends
        rw [List.drop_left] at ends
        have stepNonempty : rest ++ leaf.take 1 ≠ [] := by simp [nonempty]
        rw [List.append_assoc, find_below edgeNonempty stepNonempty] at absent
        obtain ⟨sizes, finds, endings⟩ := belowHypothesis childrenFormed ends absent
        rw [if_pos sameHead, if_pos (List.prefix_append _ _), List.drop_left]
        refine ⟨by simp only [size, sizes]; omega, fun query => ?_, fun query => ?_⟩
        · by_cases queryHead : edge.head? = query.head?
          · obtain above | ⟨tail, tailFurther, rfl⟩ | ⟨notAbove, notBelow⟩ :=
              path_cases edge query
            · have bound := above.length_le
              rw [if_neg (by simp; omega)]
              by_cases empty : query = []
              · subst empty; simp [edgeNonempty] at queryHead
              · rw [find_on_edge empty above, find_on_edge empty above]
            · rw [find_below edgeNonempty tailFurther, find_below edgeNonempty tailFurther, finds]
              simp only [List.length_append, Nat.add_lt_add_iff_left, List.append_assoc,
                List.prefix_append_right_inj]
            · rw [find_diverging queryHead notAbove notBelow, find_diverging queryHead notAbove notBelow,
                if_neg]
              rintro ⟨_, isPrefix⟩
              rw [List.append_assoc] at isPrefix
              obtain inner | inner := List.prefix_or_prefix_of_prefix isPrefix (List.prefix_append edge _)
              · exact notAbove inner
              · exact notBelow inner
          · rw [find_beside queryHead, find_beside queryHead, if_neg]
            rintro ⟨longer, isPrefix⟩
            have further : query ≠ [] := by rintro rfl; simp at longer
            apply queryHead
            rw [head?_eq_of_isPrefix further isPrefix, List.append_assoc, head?_append_ne edgeNonempty]
        · by_cases queryHead : edge.head? = query.head?
          · by_cases below : edge <+: query
            · obtain ⟨tail, rfl⟩ := below
              rw [ends_below edgeNonempty, ends_below edgeNonempty, endings, List.append_assoc,
                List.append_right_inj]
            · refine iff_of_false (ends_diverging queryHead below) ?_
              rintro (queryEnds | rfl)
              · exact ends_diverging queryHead below queryEnds
              · exact below (by rw [List.append_assoc]; exact List.prefix_append _ _)
          · rw [ends_beside queryHead, ends_beside queryHead]
            refine (or_iff_left ?_).symm
            rintro rfl
            exact queryHead (by rw [List.append_assoc, head?_append_ne edgeNonempty])
      · have stepHead : (path ++ leaf.take 1).head? = path.head? := head?_append_ne atTop
        have leafHead : (path ++ leaf).head? = path.head? := head?_append_ne atTop
        rw [ends_beside sameHead] at ends
        rw [find_beside (by rwa [stepHead])] at absent
        obtain ⟨sizes, finds, endings⟩ := besideHypothesis siblingsFormed ends absent
        rw [if_neg sameHead]
        refine ⟨by simp only [size, sizes]; omega, fun query => ?_, fun query => ?_⟩
        · by_cases queryHead : edge.head? = query.head?
          · rw [if_neg]
            · simp only [find, if_pos queryHead]
            · rintro ⟨longer, isPrefix⟩
              have further : query ≠ [] := by rintro rfl; simp at longer
              exact sameHead (queryHead.trans ((head?_eq_of_isPrefix further isPrefix).trans leafHead))
          · rw [find_beside queryHead, find_beside queryHead, finds]
        · by_cases queryHead : edge.head? = query.head?
          · simp only [Ends, if_pos queryHead]
            refine (or_iff_left ?_).symm
            rintro rfl
            exact sameHead (queryHead.trans leafHead)
          · rw [ends_beside queryHead, ends_beside queryHead, endings]

/-! ## Removing a node -/

theorem removeAt_wellFormed {forest : RadixForest τ π} (wellFormed : forest.WellFormed) (path : List τ) :
    (removeAt path forest).WellFormed ∧ ∀ key, forest.Missing key → (removeAt path forest).Missing key := by
  induction forest generalizing path with
  | nil => exact ⟨trivial, fun _ _ => trivial⟩
  | node edge payload children siblings belowHypothesis besideHypothesis =>
    obtain ⟨edgeNonempty, missing, childrenFormed, siblingsFormed⟩ := wellFormed
    have beside := besideHypothesis siblingsFormed path
    simp only [removeAt]
    split
    · exact ⟨siblingsFormed, fun key absent => absent.2⟩
    · split
      · split
        · exact ⟨⟨edgeNonempty, missing, (belowHypothesis childrenFormed _).1, siblingsFormed⟩,
            fun key absent => absent⟩
        · exact ⟨⟨edgeNonempty, missing, childrenFormed, siblingsFormed⟩, fun key absent => absent⟩
      · exact ⟨⟨edgeNonempty, beside.2 _ missing, childrenFormed, beside.1⟩,
          fun key absent => ⟨absent.1, beside.2 key absent.2⟩⟩

/-! ## Visiting the nodes of a path -/

theorem visit_wellFormed (update : π → π) (dead : π → Bool) {forest : RadixForest τ π}
    (wellFormed : forest.WellFormed) (tokens : List τ) :
    (visit update dead tokens forest).1.WellFormed ∧
      ∀ key, forest.Missing key → (visit update dead tokens forest).1.Missing key := by
  induction forest generalizing tokens with
  | nil => exact ⟨trivial, fun _ _ => trivial⟩
  | node edge payload children siblings belowHypothesis besideHypothesis =>
    obtain ⟨edgeNonempty, missing, childrenFormed, siblingsFormed⟩ := wellFormed
    have below := belowHypothesis childrenFormed (tokens.drop edge.length)
    have beside := besideHypothesis siblingsFormed tokens
    simp only [visit]
    split
    · split
      · split
        · exact ⟨siblingsFormed, fun key absent => absent.2⟩
        · exact ⟨⟨edgeNonempty, missing, below.1, siblingsFormed⟩, fun key absent => absent⟩
      · exact ⟨⟨edgeNonempty, missing, childrenFormed, siblingsFormed⟩, fun key absent => absent⟩
    · exact ⟨⟨edgeNonempty, beside.2 _ missing, childrenFormed, beside.1⟩,
        fun key absent => ⟨absent.1, beside.2 key absent.2⟩⟩

/-- The dropped tokens are the difference in size. -/
theorem visit_size (update : π → π) (dead : π → Bool) (forest : RadixForest τ π) (tokens : List τ) :
    (visit update dead tokens forest).1.size + (visit update dead tokens forest).2 = forest.size := by
  induction forest generalizing tokens with
  | nil => rfl
  | node edge payload children siblings belowHypothesis besideHypothesis =>
    have below := belowHypothesis (tokens.drop edge.length)
    have beside := besideHypothesis tokens
    simp only [visit]
    split
    · split
      · split
        · next empty => rw [empty] at below; simp only [size] at below ⊢; omega
        · simp only [size]; omega
      · simp only [size]; omega
    · simp only [size]; omega

/-- A node dies with all that is below it: whatever extends a dead path is on
the visited path and dead too. -/
def Hereditary (update : π → π) (dead : π → Bool) (tokens : List τ) (forest : RadixForest τ π) : Prop :=
  ∀ path value, path <+: tokens → forest.find path = some value → dead (update value) = true →
    ∀ rest other, forest.find (path ++ rest) = some other →
      path ++ rest <+: tokens ∧ dead (update other) = true

theorem hereditary_of_immortal (update : π → π) {dead : π → Bool} (immortal : ∀ value, dead value = false)
    (tokens : List τ) (forest : RadixForest τ π) : Hereditary update dead tokens forest := by
  intro path value _ _ isDead
  rw [immortal] at isDead
  cases isDead

theorem Hereditary.below {update : π → π} {dead : π → Bool} {edge rest : List τ} {payload : π}
    {children siblings : RadixForest τ π} (edgeNonempty : edge ≠ []) (childrenFormed : children.WellFormed)
    (hereditary : Hereditary update dead (edge ++ rest) (node edge payload children siblings)) :
    Hereditary update dead rest children := by
  intro path value isPrefix found isDead further other foundFurther
  have pathNonempty : path ≠ [] := by
    rintro rfl
    rw [find_nil_path childrenFormed] at found
    cases found
  have whole := hereditary (edge ++ path) value ((List.prefix_append_right_inj edge).2 isPrefix)
    (by rwa [find_below edgeNonempty pathNonempty]) isDead further other
    (by rwa [List.append_assoc, find_below edgeNonempty (by simp [pathNonempty])])
  rw [List.append_assoc, List.prefix_append_right_inj] at whole
  exact whole

theorem Hereditary.beside {update : π → π} {dead : π → Bool} {tokens edge : List τ} {payload : π}
    {children siblings : RadixForest τ π} (siblingsFormed : siblings.WellFormed)
    (otherHead : edge.head? ≠ tokens.head?)
    (hereditary : Hereditary update dead tokens (node edge payload children siblings)) :
    Hereditary update dead tokens siblings := by
  intro path value isPrefix found isDead rest other foundFurther
  have pathNonempty : path ≠ [] := by
    rintro rfl
    rw [find_nil_path siblingsFormed] at found
    cases found
  have pathHead := head?_eq_of_isPrefix pathNonempty isPrefix
  refine hereditary path value isPrefix ?_ isDead rest other ?_
  · rwa [find_beside (by rwa [pathHead])]
  · rwa [find_beside (by rwa [head?_append_ne pathNonempty, pathHead])]

/-- What `visit` leaves at a path. -/
def visited (update : π → π) (dead : π → Bool) (tokens : List τ) (forest : RadixForest τ π)
    (path : List τ) : Option π :=
  if path <+: tokens then
    (forest.find path).bind fun value => if dead (update value) then none else some (update value)
  else forest.find path

theorem visit_spec (update : π → π) (dead : π → Bool) {forest : RadixForest τ π} {tokens : List τ}
    (wellFormed : forest.WellFormed) (ends : forest.Ends tokens)
    (hereditary : Hereditary update dead tokens forest) :
    (∀ path, (visit update dead tokens forest).1.find path = visited update dead tokens forest path) ∧
    ∀ path, (visit update dead tokens forest).1.Ends path ↔ forest.Ends path ∧
      (path = [] ∨ (visited update dead tokens forest path).isSome) := by
  induction forest generalizing tokens with
  | nil => simp [visit, visited, find, Ends]
  | node edge payload children siblings belowHypothesis besideHypothesis =>
    have wholeFormed := wellFormed
    obtain ⟨edgeNonempty, missing, childrenFormed, siblingsFormed⟩ := wellFormed
    by_cases tokensHead : edge.head? = tokens.head?
    · rw [Ends, if_pos tokensHead] at ends
      obtain ⟨⟨rest, rfl⟩, ends⟩ := ends
      rw [List.drop_left] at ends
      obtain ⟨finds, endings⟩ := belowHypothesis childrenFormed ends
        (hereditary.below edgeNonempty childrenFormed)
      -- a path below the edge is visited exactly as its remainder is in the children
      have visitedBelow : ∀ path, path ≠ [] →
          visited update dead (edge ++ rest) (node edge payload children siblings) (edge ++ path) =
            visited update dead rest children path := by
        intro path further
        simp only [visited, List.prefix_append_right_inj, find_below edgeNonempty further]
      have visitedEdge : ∀ path, path ≠ [] → path <+: edge →
          visited update dead (edge ++ rest) (node edge payload children siblings) path =
            if dead (update payload) then none else some (update payload) := by
        intro path further above
        simp only [visited, if_pos (above.trans (List.prefix_append edge rest)),
          find_on_edge further above, Option.bind_some]
      have visitedBeside : ∀ path, edge.head? ≠ path.head? →
          visited update dead (edge ++ rest) (node edge payload children siblings) path =
            siblings.find path := by
        intro path otherHead
        have siblingsFind : (node edge payload children siblings).find path = siblings.find path :=
          find_beside otherHead
        simp only [visited, siblingsFind]
        split
        · next isPrefix =>
          by_cases empty : path = []
          · subst empty; simp [find_nil_path siblingsFormed]
          · exact absurd (tokensHead.trans (head?_eq_of_isPrefix empty isPrefix).symm) otherHead
        · rfl
      have visitedDiverging : ∀ path, edge.head? = path.head? → ¬ path <+: edge → ¬ edge <+: path →
          visited update dead (edge ++ rest) (node edge payload children siblings) path = none := by
        intro path sameHead notAbove notBelow
        simp only [visited, find_diverging sameHead notAbove notBelow, Option.bind_none, ite_self]
      simp only [visit, if_pos tokensHead, if_pos (List.prefix_append edge rest), List.drop_left]
      by_cases isDead : dead (update payload) = true
      · -- everything below a dead node is dead and visited, so no child is left
        have edgeFound : (node edge payload children siblings).find edge = some payload :=
          find_on_edge edgeNonempty (List.prefix_refl edge)
        have goneBelow : ∀ path, visited update dead rest children path = none := by
          intro path
          by_cases further : path = []
          · subst further; simp [visited, find_nil_path childrenFormed]
          · cases found : children.find path with
            | none => simp [visited, found]
            | some other =>
              have onPath := hereditary edge payload (List.prefix_append edge rest) edgeFound isDead
                path other (by rw [find_below edgeNonempty further, found])
              rw [List.prefix_append_right_inj] at onPath
              simp [visited, found, onPath.1, onPath.2]
        have childrenGone : (visit update dead rest children).1 = nil := by
          apply eq_nil_of_find_none (visit_wellFormed update dead childrenFormed rest).1
          intro path
          rw [finds, goneBelow]
        rw [isDead, childrenGone]
        have goneAtEdge : ∀ path, edge.head? = path.head? →
            visited update dead (edge ++ rest) (node edge payload children siblings) path = none := by
          intro path sameHead
          obtain above | ⟨tail, further, rfl⟩ | ⟨notAbove, notBelow⟩ :=
            path_cases edge path
          · have further : path ≠ [] := by rintro rfl; simp [edgeNonempty] at sameHead
            rw [visitedEdge path further above, if_pos isDead]
          · rw [visitedBelow tail further, goneBelow]
          · exact visitedDiverging path sameHead notAbove notBelow
        constructor
        · intro path
          by_cases sameHead : edge.head? = path.head?
          · rw [goneAtEdge path sameHead]
            exact find_of_missing (sameHead ▸ missing)
          · exact (visitedBeside path sameHead).symm
        · intro path
          by_cases sameHead : edge.head? = path.head?
          · have further : path ≠ [] := by rintro rfl; simp [edgeNonempty] at sameHead
            rw [goneAtEdge path sameHead]
            exact iff_of_false (not_ends_of_missing further (sameHead ▸ missing)) (by simp [further])
          · rw [visitedBeside path sameHead, ends_beside sameHead]
            refine (and_iff_left_of_imp fun pathEnds => ?_).symm
            by_cases further : path = []
            · exact .inl further
            · exact .inr (find_isSome_of_ends further siblingsFormed pathEnds)
      · -- the node stays with its new data
        have alive : dead (update payload) = false := by simpa using isDead
        rw [alive]
        constructor
        · intro path
          by_cases sameHead : edge.head? = path.head?
          · obtain above | ⟨tail, further, rfl⟩ | ⟨notAbove, notBelow⟩ :=
              path_cases edge path
            · have further : path ≠ [] := by rintro rfl; simp [edgeNonempty] at sameHead
              rw [visitedEdge path further above, if_neg isDead]
              exact find_on_edge further above
            · rw [visitedBelow tail further]
              exact (find_below edgeNonempty further).trans (finds tail)
            · rw [visitedDiverging path sameHead notAbove notBelow]
              exact find_diverging sameHead notAbove notBelow
          · rw [visitedBeside path sameHead]
            exact find_beside sameHead
        · intro path
          by_cases sameHead : edge.head? = path.head?
          · have further : path ≠ [] := by rintro rfl; simp [edgeNonempty] at sameHead
            by_cases below : edge <+: path
            · obtain ⟨tail, rfl⟩ := below
              have inner := endings tail
              by_cases stops : tail = []
              · subst stops
                rw [ends_below edgeNonempty, ends_below edgeNonempty]
                simp [ends_nil_path childrenFormed,
                  ends_nil_path (visit_wellFormed update dead childrenFormed rest).1,
                  visitedEdge edge edgeNonempty (List.prefix_refl edge), alive]
              · rw [ends_below edgeNonempty, ends_below edgeNonempty, visitedBelow tail stops, inner]
                simp [stops, edgeNonempty]
            · exact iff_of_false (ends_diverging sameHead below)
                fun pathEnds => ends_diverging sameHead below pathEnds.1
          · rw [ends_beside sameHead, ends_beside sameHead, visitedBeside path sameHead]
            refine (and_iff_left_of_imp fun pathEnds => ?_).symm
            by_cases further : path = []
            · exact .inl further
            · exact .inr (find_isSome_of_ends further siblingsFormed pathEnds)
    · rw [ends_beside tokensHead] at ends
      obtain ⟨finds, endings⟩ := besideHypothesis siblingsFormed ends
        (hereditary.beside siblingsFormed tokensHead)
      simp only [visit, if_neg tokensHead]
      have visitedHere : ∀ path, edge.head? = path.head? →
          visited update dead tokens (node edge payload children siblings) path =
            (node edge payload children siblings).find path := by
        intro path sameHead
        have further : path ≠ [] := by rintro rfl; simp [edgeNonempty] at sameHead
        rw [visited, if_neg fun isPrefix => tokensHead (sameHead.trans (head?_eq_of_isPrefix further isPrefix))]
      have visitedBeside : ∀ path, edge.head? ≠ path.head? →
          visited update dead tokens (node edge payload children siblings) path =
            visited update dead tokens siblings path := by
        intro path otherHead
        simp only [visited, find_beside otherHead]
      constructor
      · intro path
        by_cases sameHead : edge.head? = path.head?
        · rw [visitedHere path sameHead]
          simp only [find, if_pos sameHead]
        · rw [visitedBeside path sameHead, find_beside sameHead, finds]
      · intro path
        by_cases sameHead : edge.head? = path.head?
        · rw [visitedHere path sameHead]
          simp only [Ends, if_pos sameHead]
          refine (and_iff_left_of_imp fun pathEnds => .inr ?_).symm
          have further : path ≠ [] := by rintro rfl; simp [edgeNonempty] at sameHead
          refine find_isSome_of_ends further wholeFormed ?_
          rw [Ends, if_pos sameHead]
          exact pathEnds
        · rw [ends_beside sameHead, ends_beside sameHead, visitedBeside path sameHead, endings]

end RadixForest

end Agentfork

import Agentfork.Bench.Pressure
import Agentfork.Library.Digits

/-! # What the stock cache charges

The prefix is kept through a gap when the unrelated tokens fit beside it, and
nothing but the unrelated tokens is left otherwise. -/

namespace Agentfork.Bench

open RadixForest (leaves)

/-! ## New tokens -/

theorem range'_isNew (start size : Nat) : List.range' start size = [] ∨ (List.range' start size).head? = some start := by
  cases size with
  | zero => exact .inl rfl
  | succ size => exact .inr rfl

theorem range'_head {size : Nat} (positive : 0 < size) (start : Nat) : (List.range' start size).head? = some start := by
  cases size with
  | zero => cases positive
  | succ size => rfl

theorem suffixName_inj {child other : Nat} (same : suffixName child = suffixName other) : child = other :=
  Digits.append_toString_inj same

theorem suffixName_ne_parent (child : Nat) : suffixName child ≠ "parent" := by
  intro same
  have heads := congrArg (fun name : String => name.toList.head?) same
  simp [suffixName] at heads

/-- The suffixes from a child on have no tokens yet. -/
def TokenGen.Unnamed (child : Nat) (gen : TokenGen) : Prop := ∀ later, child ≤ later → gen.ranges.get? (suffixName later) = none

variable {ps : PressureScenario} {child : Nat} {gen : TokenGen}

theorem TokenGen.Unnamed.block_eq (unnamed : gen.Unnamed child) (size : Nat) :
    gen.block (suffixName child) size =
      (List.range' gen.next size, ⟨gen.next + size, gen.ranges.insert (suffixName child) gen.next⟩) := by
  unfold TokenGen.block
  rw [unnamed child (Nat.le_refl child)]

theorem TokenGen.Unnamed.block (unnamed : gen.Unnamed child) (size : Nat) :
    (gen.block (suffixName child) size).2.Unnamed (child + 1) := by
  intro later isLater
  rw [unnamed.block_eq, Dict.get?_insert, if_neg fun same => by have := suffixName_inj same; omega]
  exact unnamed later (by omega)

theorem TokenGen.unnamed_start (size : Nat) : (TokenGen.new.block "parent" size).2.Unnamed 0 := by
  intro later _
  change (Dict.insert Dict.empty "parent" 0).get? (suffixName later) = none
  rw [Dict.get?_insert, if_neg (suffixName_ne_parent later)]
  rfl

/-! ## What is found of the prefix -/

namespace StockRadixCache

variable {cache : StockRadixCache} {tokens edge : List Nat} {used next : Nat} {suffixes noises : List (List Nat × Nat)}

theorem Shape.le_matchPrefix (shape : Shape tokens used next suffixes noises cache) : tokens.length ≤ cache.matchPrefix tokens := by
  have nonempty : tokens ≠ [] := shape.beside.1 (tokens, used) List.mem_cons_self
  have walked : (RadixForest.node tokens used (leaves suffixes) (leaves noises)).walk id (tokens ++ []) = _ :=
    RadixForest.walk_node id nonempty
  rw [List.append_nil] at walked
  unfold matchPrefix
  rw [shape.root, walked]
  exact Nat.le_add_right _ _

theorem Alone.le_matchPrefix (alone : Alone edge used cache) (isPrefix : tokens <+: edge) (nonempty : tokens ≠ []) :
    tokens.length ≤ cache.matchPrefix tokens := by
  have wellFormed : cache.root.WellFormed := by
    rw [alone.root]
    exact ⟨alone.nonempty, trivial, trivial, trivial⟩
  have found : (cache.root.find tokens).isSome := by
    rw [alone.root, RadixForest.find_on_edge nonempty isPrefix]
    rfl
  have found : (cache.root.find (tokens.take tokens.length)).isSome := by rwa [List.take_length]
  exact ((RadixForest.walk_matched id wellFormed tokens).2 tokens.length (List.length_pos_of_ne_nil nonempty) (Nat.le_refl _)).1 found

end StockRadixCache

/-! ## One child -/

namespace StockRun

variable {tokens : List Nat} {run : StockRun}

structure Ready (ps : PressureScenario) (child : Nat) (run : StockRun) : Prop where
  capacity : run.cache.capacity = ps.capacityTokens
  unnamed : run.gen.Unnamed child

/-- The prefix is in the cache, used after what is beside it. -/
def Kept (tokens : List Nat) (run : StockRun) : Prop :=
  ∃ used suffixes noises, StockRadixCache.Holds tokens used run.gen.next suffixes noises run.cache

/-- The prefix is in the cache with one suffix at most, in one leaf, and nothing else is. -/
def Single (ps : PressureScenario) (tokens : List Nat) (run : StockRun) : Prop :=
  ∃ used rest, StockRadixCache.Alone (tokens ++ rest) used run.cache ∧ used < run.cache.clock ∧
    rest.length ≤ ps.suffixTokens ∧ ∀ token ∈ tokens ++ rest, token < run.gen.next

/-- So much has been charged, and so many children have found the prefix. -/
structure Adds (charged hits : Nat) (before after : StockRun) : Prop where
  charged : after.childCharged = before.childCharged + charged
  hits : after.hits = before.hits + hits

theorem Adds.refl (run : StockRun) : Adds 0 0 run run := ⟨rfl, rfl⟩

theorem Adds.trans {middle after : StockRun} {charged hits chargedThen hitsThen : Nat} (first : Adds charged hits run middle)
    (rest : Adds chargedThen hitsThen middle after) : Adds (charged + chargedThen) (hits + hitsThen) run after :=
  ⟨by rw [rest.charged, first.charged, Nat.add_assoc], by rw [rest.hits, first.hits, Nat.add_assoc]⟩

/-- A gap before a child adds nothing. -/
theorem Adds.before {middle after : StockRun} {charged hits : Nat} (gap : Adds 0 0 run middle)
    (rest : Adds charged hits middle after) : Adds charged hits run after :=
  ⟨by rw [rest.charged, gap.charged, Nat.add_zero], by rw [rest.hits, gap.hits, Nat.add_zero]⟩

/-- The request of a child. -/
def served (ps : PressureScenario) (tokens : List Nat) (run : StockRun) : StockRadixCache :=
  (run.cache.runRequest (tokens ++ List.range' run.gen.next ps.suffixTokens)).2

theorem child_spec (ready : run.Ready ps child) {charged hits : Nat}
    (isCharged : (run.served ps tokens).prefillCharged = run.cache.prefillCharged + charged)
    (capacity : (run.served ps tokens).capacity = run.cache.capacity)
    (isFound : (if ps.prefixTokens ≤ run.cache.matchPrefix tokens then 1 else 0) = hits) :
    (run.child ps tokens child).Ready ps (child + 1) ∧
      (run.child ps tokens child).cache = run.served ps tokens ∧
      (run.child ps tokens child).gen.next = run.gen.next + ps.suffixTokens ∧
      Adds charged hits run (run.child ps tokens child) := by
  have unnamed := ready.unnamed.block ps.suffixTokens
  rw [ready.unnamed.block_eq] at unnamed
  unfold StockRun.child
  simp only [ready.unnamed.block_eq]
  refine ⟨⟨capacity.trans ready.capacity, unnamed⟩, rfl, trivial, ?_, ?_⟩
  · unfold served at isCharged
    simp only [isCharged]
    omega
  · subst isFound
    simp only
    split <;> rfl

/-- A child that finds the prefix is charged for its suffix. -/
theorem child_of_shape {used : Nat} {suffixes noises : List (List Nat × Nat)} (ready : run.Ready ps child)
    (isPrefix : tokens.length = ps.prefixTokens)
    (shape : StockRadixCache.Shape tokens used run.gen.next suffixes noises run.cache) :
    (run.child ps tokens child).Ready ps (child + 1) ∧ (run.child ps tokens child).Kept tokens ∧
      Adds ps.suffixTokens 1 run (run.child ps tokens child) := by
  have fits : tokens.length + (List.range' run.gen.next ps.suffixTokens).length ≤ run.cache.capacity := by
    rw [List.length_range', ready.capacity, isPrefix]
    exact ps.fits
  obtain ⟨charged, suffixes', noises', holds, capacity⟩ := shape.related (range'_isNew _ _) fits
  rw [List.length_range'] at charged holds
  obtain ⟨stillReady, cache, next, total⟩ := child_spec ready charged capacity (if_pos (isPrefix ▸ shape.le_matchPrefix))
  refine ⟨stillReady, ?_, total⟩
  unfold Kept
  rw [cache, next]
  exact ⟨_, suffixes', noises', holds⟩

/-- So is one that finds it together with the suffix of another child. -/
theorem child_of_single (ready : run.Ready ps child) (nonempty : tokens ≠ []) (isPrefix : tokens.length = ps.prefixTokens)
    (single : run.Single ps tokens) :
    (run.child ps tokens child).Ready ps (child + 1) ∧ (run.child ps tokens child).Kept tokens ∧
      Adds ps.suffixTokens 1 run (run.child ps tokens child) := by
  obtain ⟨used, rest, alone, dated, short, issued⟩ := single
  by_cases noRest : rest = []
  · subst noRest
    rw [List.append_nil] at alone issued
    refine child_of_shape ready isPrefix (alone.holds dated fun token isHead => ?_).toShape
    exact issued token (List.mem_of_mem_head? isHead)
  · have positive := List.length_pos_of_ne_nil noRest
    have isNew := range'_head (Nat.lt_of_lt_of_le positive short) run.gen.next
    have fits : tokens.length + (List.range' run.gen.next ps.suffixTokens).length ≤ run.cache.capacity := by
      rw [List.length_range', ready.capacity, isPrefix]
      exact ps.fits
    obtain ⟨charged, suffixes', noises', holds, capacity⟩ := alone.joined nonempty noRest isNew issued fits
    rw [List.length_range'] at charged holds
    obtain ⟨stillReady, cache, next, total⟩ := child_spec ready charged capacity
      (if_pos (isPrefix ▸ alone.le_matchPrefix (List.prefix_append tokens rest) nonempty))
    refine ⟨stillReady, ?_, total⟩
    unfold Kept
    rw [cache, next]
    exact ⟨_, suffixes', noises', holds⟩

/-- A child that finds something else in the way of its request is charged for all of it. -/
theorem child_of_noise {noise : List Nat} {used : Nat} (ready : run.Ready ps child) (nonempty : tokens ≠ [])
    (isPrefix : tokens.length = ps.prefixTokens) (issued : ∀ token ∈ tokens, token < run.gen.next)
    (alone : StockRadixCache.Alone noise used run.cache) (otherHead : noise.head? ≠ tokens.head?)
    (full : ps.capacityTokens < noise.length + ps.prefixTokens) :
    (run.child ps tokens child).Ready ps (child + 1) ∧ (run.child ps tokens child).Single ps tokens ∧
      Adds (ps.prefixTokens + ps.suffixTokens) 0 run (run.child ps tokens child) := by
  have missed : run.cache.matchPrefix tokens = 0 := by
    unfold StockRadixCache.matchPrefix
    rw [RadixForest.walk_of_missing _ (by rw [alone.root]; exact ⟨otherHead, trivial⟩)]
  have notFound : ¬ ps.prefixTokens ≤ run.cache.matchPrefix tokens := by
    have positive := List.length_pos_of_ne_nil nonempty
    rw [missed]
    omega
  have requestNonempty : tokens ++ List.range' run.gen.next ps.suffixTokens ≠ [] :=
    List.append_ne_nil_of_left_ne_nil nonempty _
  have requestFull : run.cache.capacity <
      noise.length + (tokens ++ List.range' run.gen.next ps.suffixTokens).length := by
    rw [ready.capacity, List.length_append, isPrefix]
    omega
  rw [← RadixForest.head?_append_ne nonempty] at otherHead
  obtain ⟨stillAlone, charged, capacity, clock⟩ := alone.replaced requestNonempty otherHead requestFull
  rw [List.length_append, List.length_range', isPrefix] at charged
  obtain ⟨stillReady, cache, next, total⟩ := child_spec ready charged capacity (if_neg notFound)
  refine ⟨stillReady, ⟨run.cache.clock, List.range' run.gen.next ps.suffixTokens, ?_, ?_, ?_, ?_⟩, total⟩
  · rw [cache]
    exact stillAlone
  · rw [cache]
    exact lt_of_lt_of_eq (Nat.lt_succ_self _) clock.symm
  · rw [List.length_range']
  · intro token member
    rw [next]
    obtain inPrefix | inSuffix := List.mem_append.1 member
    · exact Nat.lt_add_right _ (issued token inPrefix)
    · exact (List.mem_range'_1.1 inSuffix).2

/-! ## The gap before a child -/

/-- A gap whose tokens fit beside the prefix. -/
theorem gap_of_kept (ready : run.Ready ps child) (isPrefix : tokens.length = ps.prefixTokens) (kept : run.Kept tokens)
    (fits : ps.applies child = true → ps.prefixTokens + ps.interleavedTokens ≤ ps.capacityTokens) :
    (run.gap ps child).Ready ps child ∧ Adds 0 0 run (run.gap ps child) ∧
      ∃ used suffixes noises, StockRadixCache.Shape tokens used (run.gap ps child).gen.next suffixes noises
        (run.gap ps child).cache := by
  obtain ⟨used, suffixes, noises, holds⟩ := kept
  unfold gap
  split
  · next applies =>
    have positive : 0 < ps.interleavedTokens := by
      unfold PressureScenario.applies at applies
      simp only [Bool.and_eq_true, decide_eq_true_eq] at applies
      exact applies.1
    have isNew := range'_head positive run.gen.next
    have room : tokens.length + (List.range' run.gen.next ps.interleavedTokens).length ≤ run.cache.capacity := by
      rw [List.length_range', ready.capacity, isPrefix]
      exact fits applies
    obtain ⟨suffixes', noises', shape, capacity⟩ := holds.unrelated isNew room
    rw [List.length_range'] at shape
    exact ⟨⟨capacity.trans ready.capacity, ready.unnamed⟩, ⟨rfl, rfl⟩, used, suffixes', noises', shape⟩
  · exact ⟨ready, .refl run, used, suffixes, noises, holds.toShape⟩

/-- A gap whose tokens do not fit beside the prefix leaves nothing else. -/
theorem gap_of_single (ready : run.Ready ps child) (nonempty : tokens ≠ []) (isPrefix : tokens.length = ps.prefixTokens)
    (applies : ps.applies child = true) (single : run.Single ps tokens)
    (full : ps.capacityTokens < ps.prefixTokens + ps.interleavedTokens) :
    (run.gap ps child).Ready ps child ∧ Adds 0 0 run (run.gap ps child) ∧
      (∀ token ∈ tokens, token < (run.gap ps child).gen.next) ∧ ∃ noise used, noise.length = ps.interleavedTokens ∧
        noise.head? ≠ tokens.head? ∧ StockRadixCache.Alone noise used (run.gap ps child).cache := by
  obtain ⟨used, rest, alone, dated, short, issued⟩ := single
  have room := ps.fits
  have positive : 0 < ps.interleavedTokens := by omega
  have isNew := range'_head positive run.gen.next
  have otherHead : (tokens ++ rest).head? ≠ (List.range' run.gen.next ps.interleavedTokens).head? := by
    rw [isNew]
    exact fun same => Nat.lt_irrefl _ (issued run.gen.next (List.mem_of_mem_head? same))
  have noiseNonempty : List.range' run.gen.next ps.interleavedTokens ≠ [] := by
    intro empty
    rw [empty] at isNew
    cases isNew
  have noiseFull : run.cache.capacity < (tokens ++ rest).length + (List.range' run.gen.next ps.interleavedTokens).length := by
    rw [ready.capacity, List.length_append, isPrefix, List.length_range']
    omega
  obtain ⟨stillAlone, _, capacity, _⟩ := alone.replaced noiseNonempty otherHead noiseFull
  unfold gap
  rw [if_pos applies]
  refine ⟨⟨capacity.trans ready.capacity, ready.unnamed⟩, ⟨rfl, rfl⟩, fun token member => ?_, _, _, List.length_range', ?_,
    stillAlone⟩
  · exact Nat.lt_add_right _ (issued token (List.mem_append_left _ member))
  · rw [RadixForest.head?_append_ne nonempty] at otherHead
    exact otherHead.symm

/-! ## All children -/

/-- After the parent's request its prefix is all there is. -/
theorem start_spec (positive : 0 < ps.prefixTokens) :
    (start ps).1 ≠ [] ∧ (start ps).1.length = ps.prefixTokens ∧ (start ps).2.Ready ps 0 ∧
      (start ps).2.Kept (start ps).1 ∧ (start ps).2.Single ps (start ps).1 ∧
      (start ps).2.childCharged = ps.prefixTokens := by
  have tokens : (start ps).1 = List.range' 0 ps.prefixTokens := rfl
  have nonempty : (start ps).1 ≠ [] := by
    rw [tokens]
    exact fun empty => absurd (congrArg List.length empty) (by rw [List.length_range', List.length_nil]; omega)
  have length : (start ps).1.length = ps.prefixTokens := by rw [tokens, List.length_range']
  have issued : ∀ token ∈ (start ps).1, token < (start ps).2.gen.next := by
    intro token member
    rw [tokens, List.mem_range'_1] at member
    exact member.2
  obtain ⟨alone, charged, capacity, clock⟩ := StockRadixCache.alone_fresh ps.capacityTokens nonempty
  have dated : 1 < (start ps).2.cache.clock := lt_of_lt_of_eq (by decide : 1 < 2) clock.symm
  refine ⟨nonempty, length, ⟨capacity, TokenGen.unnamed_start _⟩, ⟨1, [], [], ?_⟩, ⟨1, [], ?_⟩, charged.trans length⟩
  · exact alone.holds dated fun token isHead => issued token (List.mem_of_mem_head? isHead)
  · rw [List.append_nil]
    exact ⟨alone, dated, Nat.zero_le _, issued⟩

theorem applies_burst (burst : ps.pattern = .burst) (child : Nat) : ps.applies (child + 1) = false := by
  unfold PressureScenario.applies
  simp [burst]

/-- While the unrelated tokens fit beside the prefix, all children find it. -/
theorem after_kept (children : Nat) (ready : run.Ready ps 0) (isPrefix : tokens.length = ps.prefixTokens) (kept : run.Kept tokens)
    (fits : ps.prefixTokens + ps.interleavedTokens ≤ ps.capacityTokens) :
    (run.after ps tokens children).Ready ps children ∧ (run.after ps tokens children).Kept tokens ∧
      Adds (children * ps.suffixTokens) children run (run.after ps tokens children) := by
  induction children with
  | zero => exact ⟨ready, kept, by rw [Nat.zero_mul]; exact .refl run⟩
  | succ children inductionHypothesis =>
    obtain ⟨readyThen, keptThen, charged⟩ := inductionHypothesis
    obtain ⟨readyGap, chargedGap, used, suffixes, noises, shape⟩ := gap_of_kept readyThen isPrefix keptThen fun _ => fits
    obtain ⟨readyChild, keptChild, chargedChild⟩ := child_of_shape readyGap isPrefix shape
    rw [Nat.succ_mul]
    exact ⟨readyChild, keptChild, charged.trans (chargedGap.before chargedChild)⟩

/-- A child after a gap whose tokens do not fit beside the prefix pays for the prefix again. -/
theorem gap_child_lost (ready : run.Ready ps child) (nonempty : tokens ≠ []) (isPrefix : tokens.length = ps.prefixTokens)
    (applies : ps.applies child = true) (single : run.Single ps tokens)
    (full : ps.capacityTokens < ps.prefixTokens + ps.interleavedTokens) :
    ((run.gap ps child).child ps tokens child).Ready ps (child + 1) ∧
      ((run.gap ps child).child ps tokens child).Single ps tokens ∧
      Adds (ps.prefixTokens + ps.suffixTokens) 0 run ((run.gap ps child).child ps tokens child) := by
  obtain ⟨readyGap, chargedGap, issued, noise, used, noiseLength, otherHead, alone⟩ :=
    gap_of_single ready nonempty isPrefix applies single full
  obtain ⟨readyChild, singleChild, chargedChild⟩ :=
    child_of_noise readyGap nonempty isPrefix issued alone otherHead (by omega)
  exact ⟨readyChild, singleChild, chargedGap.before chargedChild⟩

theorem after_lost (children : Nat) (ready : run.Ready ps 0) (nonempty : tokens ≠ []) (isPrefix : tokens.length = ps.prefixTokens)
    (single : run.Single ps tokens) (sustained : ps.pattern = .sustained)
    (full : ps.capacityTokens < ps.prefixTokens + ps.interleavedTokens) :
    (run.after ps tokens children).Ready ps children ∧ (run.after ps tokens children).Single ps tokens ∧
      Adds (children * (ps.prefixTokens + ps.suffixTokens)) 0 run (run.after ps tokens children) := by
  have room := ps.fits
  induction children with
  | zero => exact ⟨ready, single, by rw [Nat.zero_mul]; exact .refl run⟩
  | succ children inductionHypothesis =>
    obtain ⟨readyThen, singleThen, charged⟩ := inductionHypothesis
    have applies : ps.applies children = true := by
      unfold PressureScenario.applies
      simp only [sustained, decide_true, Bool.true_or, Bool.and_true, decide_eq_true_eq]
      omega
    obtain ⟨readyChild, singleChild, chargedChild⟩ :=
      gap_child_lost readyThen nonempty isPrefix applies singleThen full
    rw [Nat.succ_mul]
    exact ⟨readyChild, singleChild, charged.trans chargedChild⟩

/-- After a burst only the first child pays for the prefix. -/
theorem after_burst (children : Nat) (ready : run.Ready ps 0) (nonempty : tokens ≠ []) (isPrefix : tokens.length = ps.prefixTokens)
    (single : run.Single ps tokens) (burst : ps.pattern = .burst)
    (full : ps.capacityTokens < ps.prefixTokens + ps.interleavedTokens) :
    (run.after ps tokens (children + 1)).Ready ps (children + 1) ∧
      ((run.after ps tokens (children + 1)).Single ps tokens ∨ (run.after ps tokens (children + 1)).Kept tokens) ∧
      Adds (ps.prefixTokens + (children + 1) * ps.suffixTokens) children run (run.after ps tokens (children + 1)) := by
  have room := ps.fits
  induction children with
  | zero =>
    have applies : ps.applies 0 = true := by
      unfold PressureScenario.applies
      simp only [decide_true, Bool.or_true, Bool.and_true, decide_eq_true_eq]
      omega
    obtain ⟨readyChild, singleChild, chargedChild⟩ := gap_child_lost ready nonempty isPrefix applies single full
    rw [Nat.one_mul]
    exact ⟨readyChild, .inl singleChild, chargedChild⟩
  | succ children inductionHypothesis =>
    obtain ⟨readyThen, either, charged⟩ := inductionHypothesis
    have noGap : (run.after ps tokens (children + 1)).gap ps (children + 1) = run.after ps tokens (children + 1) := by
      unfold gap
      rw [applies_burst burst children, if_neg Bool.false_ne_true]
    have found : (run.after ps tokens (children + 2)).Ready ps (children + 2) ∧
        (run.after ps tokens (children + 2)).Kept tokens ∧
          Adds ps.suffixTokens 1 (run.after ps tokens (children + 1)) (run.after ps tokens (children + 2)) := by
      rw [after, noGap]
      obtain singleThen | ⟨used, suffixes, noises, holds⟩ := either
      · exact child_of_single readyThen nonempty isPrefix singleThen
      · exact child_of_shape readyThen isPrefix holds.toShape
    obtain ⟨readyChild, keptChild, chargedChild⟩ := found
    rw [Nat.succ_mul (children + 1), ← Nat.add_assoc]
    exact ⟨readyChild, .inr keptChild, charged.trans chargedChild⟩

/-- Without a prefix every request is for new tokens. -/
theorem after_empty (children : Nat) (ready : run.Ready ps 0) (noPrefix : ps.prefixTokens = 0) (vacant : run.cache.Vacant run.gen.next) :
    (run.after ps [] children).Ready ps children ∧
      (run.after ps [] children).cache.Vacant (run.after ps [] children).gen.next ∧
      Adds (children * ps.suffixTokens) children run (run.after ps [] children) := by
  have positive : 0 < ps.suffixTokens := by
    have request := ps.request
    omega
  induction children with
  | zero => exact ⟨ready, vacant, by rw [Nat.zero_mul]; exact .refl run⟩
  | succ children inductionHypothesis =>
    obtain ⟨readyThen, vacantThen, charged⟩ := inductionHypothesis
    have gapSpec : ((run.after ps [] children).gap ps children).Ready ps children ∧
        ((run.after ps [] children).gap ps children).cache.Vacant ((run.after ps [] children).gap ps children).gen.next ∧
        Adds 0 0 (run.after ps [] children) ((run.after ps [] children).gap ps children) := by
      unfold gap
      split
      · next applies =>
        have unrelated : 0 < ps.interleavedTokens := by
          unfold PressureScenario.applies at applies
          simp only [Bool.and_eq_true, decide_eq_true_eq] at applies
          exact applies.1
        obtain ⟨stillVacant, _, capacity⟩ := vacantThen.request (range'_head unrelated _)
        rw [List.length_range'] at stillVacant
        exact ⟨⟨capacity.trans readyThen.capacity, readyThen.unnamed⟩, stillVacant, rfl, rfl⟩
      · exact ⟨readyThen, vacantThen, .refl _⟩
    obtain ⟨readyGap, vacantGap, chargedGap⟩ := gapSpec
    obtain ⟨vacantChild, isCharged, capacity⟩ := vacantGap.request (range'_head positive _)
    rw [List.length_range'] at vacantChild isCharged
    change (served ps [] _).prefillCharged = _ at isCharged
    -- the empty prefix is found in any cache
    obtain ⟨readyChild, cache, next, chargedChild⟩ := child_spec readyGap isCharged capacity
      (if_pos (noPrefix ▸ Nat.zero_le _))
    refine ⟨readyChild, ?_, ?_⟩
    · rw [after, cache, next]
      exact vacantChild
    · rw [Nat.succ_mul]
      exact charged.trans (chargedGap.before chargedChild)

end StockRun

/-! ## The prediction -/

theorem stockParentHits_of_fits (fits : ps.prefixTokens + ps.interleavedTokens ≤ ps.capacityTokens) :
    stockParentHits ps = ps.nChildren := by
  have keeps : ¬ breakEvenU ps.prefixTokens ps.capacityTokens < ps.interleavedTokens := by
    unfold breakEvenU
    omega
  unfold stockParentHits
  cases ps.pattern <;> exact if_pos keeps

theorem stockParentHits_of_full (full : ps.capacityTokens < ps.prefixTokens + ps.interleavedTokens) :
    stockParentHits ps = if ps.pattern = .burst then ps.nChildren - 1 else 0 := by
  have room := ps.fits
  have evicts : breakEvenU ps.prefixTokens ps.capacityTokens < ps.interleavedTokens := by
    unfold breakEvenU
    omega
  unfold stockParentHits
  cases ps.pattern <;> exact if_neg (not_not.2 evicts)

/-- Without a prefix the parent's request leaves the new cache as it is. -/
theorem start_empty (noPrefix : ps.prefixTokens = 0) :
    (StockRun.start ps).1 = [] ∧ (StockRun.start ps).2.Ready ps 0 ∧
      (StockRun.start ps).2.cache.Vacant (StockRun.start ps).2.gen.next ∧ (StockRun.start ps).2.childCharged = 0 := by
  have start : StockRun.start ps =
      ([], ⟨⟨0, Dict.insert Dict.empty "parent" 0⟩, ⟨ps.capacityTokens, .nil, 0, 0, 2⟩, 0, 0⟩) := by
    unfold StockRun.start
    rw [noPrefix]
    rfl
  have unnamed := TokenGen.unnamed_start 0
  rw [start]
  exact ⟨rfl, ⟨rfl, unnamed⟩, ⟨trivial, fun _ _ => trivial⟩, rfl⟩

/-- The children of a run on the stock cache pay what the model predicts, and as many of
them find the prefix, unless it is empty: that is found by all. -/
theorem stock_adds (ps : PressureScenario) : StockRun.Adds
    (ps.nChildren * ps.suffixTokens + (ps.nChildren - stockParentHits ps) * ps.prefixTokens)
    (if ps.prefixTokens = 0 then ps.nChildren else stockParentHits ps)
    (StockRun.start ps).2 ((StockRun.start ps).2.after ps (StockRun.start ps).1 ps.nChildren) := by
  by_cases noPrefix : ps.prefixTokens = 0
  · obtain ⟨tokens, ready, vacant, charged⟩ := start_empty noPrefix
    obtain ⟨_, _, total⟩ := StockRun.after_empty ps.nChildren ready noPrefix vacant
    rw [if_pos noPrefix, tokens, noPrefix, Nat.mul_zero, Nat.add_zero]
    exact total
  · obtain ⟨nonempty, isPrefix, ready, kept, single, charged⟩ := StockRun.start_spec (Nat.pos_of_ne_zero noPrefix)
    rw [if_neg noPrefix]
    by_cases full : ps.capacityTokens < ps.prefixTokens + ps.interleavedTokens
    · rw [stockParentHits_of_full full]
      cases pattern : ps.pattern with
      | sustained =>
        obtain ⟨_, _, total⟩ := StockRun.after_lost ps.nChildren ready nonempty isPrefix single pattern full
        rw [if_neg (by decide), Nat.sub_zero, ← Nat.mul_add, Nat.add_comm ps.suffixTokens]
        exact total
      | burst =>
        obtain ⟨more, isMore⟩ : ∃ more, ps.nChildren = more + 1 := Nat.exists_eq_add_one_of_ne_zero (by
          have some := ps.children
          omega)
        obtain ⟨_, _, total⟩ := StockRun.after_burst more ready nonempty isPrefix single pattern full
        -- only the first child has missed
        have missed : more + 1 - (more + 1 - 1) = 1 := by omega
        rw [isMore, if_pos rfl, missed, Nat.one_mul, Nat.add_comm (_ * _), Nat.add_sub_cancel]
        exact total
    · obtain ⟨_, _, total⟩ := StockRun.after_kept ps.nChildren ready isPrefix kept (Nat.le_of_not_lt full)
      rw [stockParentHits_of_fits (Nat.le_of_not_lt full), Nat.sub_self, Nat.zero_mul, Nat.add_zero]
      exact total

theorem start_charged (ps : PressureScenario) : (StockRun.start ps).2.childCharged = ps.prefixTokens := by
  by_cases noPrefix : ps.prefixTokens = 0
  · obtain ⟨_, _, _, charged⟩ := start_empty noPrefix
    rw [charged, noPrefix]
  · obtain ⟨_, _, _, _, _, charged⟩ := StockRun.start_spec (Nat.pos_of_ne_zero noPrefix)
    exact charged

/-- The stock cache charges what the model predicts. -/
theorem stock_charge_eq (ps : PressureScenario) :
    (runStock ps).childPrefillCharged = (pressureModel ps).stock.prefillCharged := by
  change (((StockRun.start ps).2.after ps (StockRun.start ps).1 ps.nChildren).childCharged : Int) =
    ((ps.prefixTokens + ps.nChildren * ps.suffixTokens + (ps.nChildren - stockParentHits ps) * ps.prefixTokens : Nat) : Int)
  rw [(stock_adds ps).charged, start_charged, Nat.add_assoc]

theorem stock_hits_eq (ps : PressureScenario) :
    (runStock ps).parentHits = if ps.prefixTokens = 0 then ps.nChildren else stockParentHits ps :=
  (stock_adds ps).hits.trans (Nat.zero_add _)

end Agentfork.Bench

import Agentfork.Bench.StockCache
import Agentfork.Library.RadixEviction

/-! # The accounts of the stock cache

A request refreshes the nodes that it is matched on, so all other nodes are older
when room is made for the rest of it. Where that rest fits beside what was matched,
the matched path is not evicted and the new leaf is hung where the walk has stopped. -/

namespace Agentfork.Bench.StockRadixCache

variable {cache after : StockRadixCache} {now need : Nat} {matched tokens : List Nat}

/-- The cache after some requests. -/
def serve (cache : StockRadixCache) (requests : List (List Nat)) : StockRadixCache :=
  requests.foldl (fun cache tokens => (cache.runRequest tokens).2) cache

/-- The tokens counted are those below the root, and all of them were used before now. -/
structure Accounted (cache : StockRadixCache) : Prop where
  wellFormed : cache.root.WellFormed
  resident : cache.resident = (cache.root.size : Int)
  dated : ∀ path lastAccess, cache.root.find path = some lastAccess → lastAccess < cache.clock

/-- Room is made for a request that was matched on a path of the tree. -/
structure MakesRoom (now : Nat) (matched : List Nat) (cache : StockRadixCache) : Prop where
  wellFormed : cache.root.WellFormed
  resident : cache.resident = (cache.root.size : Int)
  ends : cache.root.Ends matched
  refreshed : ∀ path, path ≠ [] → path <+: matched → cache.root.find path = some now
  older : ∀ path lastAccess, cache.root.find path = some lastAccess → ¬ path <+: matched → lastAccess < now

/-! ## Evictions beside the matched path -/

theorem mem_allLeaves {leaf : StockLeaf} :
    leaf ∈ cache.allLeaves ↔ (leaf.path, leaf.tokens, leaf.lastAccess, true) ∈ cache.root.nodes [] := by
  unfold allLeaves
  rw [List.mem_filterMap]
  constructor
  · rintro ⟨⟨path, tokens, lastAccess, isLeaf⟩, member, isThis⟩
    cases isLeaf
    · cases isThis
    · cases isThis
      exact member
  · intro member
    exact ⟨_, member, rfl⟩

/-- A tree all of whose leaves are on one path has no more tokens than that path. -/
theorem size_le_of_leaves (wellFormed : cache.root.WellFormed)
    (onPath : ∀ leaf ∈ cache.allLeaves, leaf.path <+: matched) : cache.root.size ≤ matched.length := by
  rw [← RadixForest.card_domain wellFormed, ← card_prefixes matched]
  refine Finset.card_le_card fun path member => ?_
  rw [RadixForest.mem_domain wellFormed] at member
  obtain ⟨rest, edge, lastAccess, isLeaf⟩ := RadixForest.exists_leaf wellFormed [] member
  have below := onPath ⟨_, edge, lastAccess⟩ (mem_allLeaves.2 isLeaf)
  refine mem_prefixes.2 ⟨?_, (List.prefix_append path rest).trans below⟩
  rintro rfl
  rw [RadixForest.find_nil_path wellFormed] at member
  cases member

theorem root_eq_nil (wellFormed : cache.root.WellFormed) (nothing : cache.evictLeaf = none) : cache.root = .nil := by
  rw [evictLeaf, Option.map_eq_none_iff, List.argmin_eq_none] at nothing
  refine RadixForest.eq_nil_of_find_none wellFormed fun path => ?_
  by_contra found
  obtain ⟨rest, edge, lastAccess, isLeaf⟩ :=
    RadixForest.exists_leaf wellFormed [] (Option.isSome_iff_ne_none.2 found)
  have member : (⟨_, edge, lastAccess⟩ : StockLeaf) ∈ cache.allLeaves := mem_allLeaves.2 isLeaf
  rw [nothing] at member
  cases member

/-- The victim is not on the matched path: that path would then be all that is left, and it fits. -/
theorem MakesRoom.victim_off (room : MakesRoom now matched cache) (full : ¬ cache.resident + need ≤ cache.capacity)
    (fits : matched ≠ [] → matched.length + need ≤ cache.capacity) {victim : StockLeaf}
    (oldest : victim ∈ cache.allLeaves.argmin StockLeaf.lastAccess) : ¬ victim.path <+: matched := by
  intro onPath
  obtain ⟨_, rfl, nonempty, found⟩ :=
    RadixForest.find_of_mem_nodes room.wellFormed (mem_allLeaves.1 (List.argmin_mem oldest))
  rw [room.refreshed _ nonempty onPath] at found
  have same : now = victim.lastAccess := Option.some.inj found
  have small : cache.root.size ≤ matched.length := by
    refine size_le_of_leaves room.wellFormed fun leaf member => ?_
    by_contra off
    obtain ⟨_, rfl, _, foundLeaf⟩ := RadixForest.find_of_mem_nodes room.wellFormed (mem_allLeaves.1 member)
    have isOlder := room.older _ _ foundLeaf off
    have notOlder := List.le_of_mem_argmin member oldest
    omega
  have matchedNonempty : matched ≠ [] := by
    rintro rfl
    exact nonempty (List.prefix_nil.1 onPath)
  have bound := fits matchedNonempty
  have counted := room.resident
  omega

theorem MakesRoom.evictLeaf_spec (room : MakesRoom now matched cache) (full : ¬ cache.resident + need ≤ cache.capacity)
    (fits : matched ≠ [] → matched.length + need ≤ cache.capacity) (evicted : cache.evictLeaf = some after) :
    MakesRoom now matched after ∧ after.root.count + 1 = cache.root.count ∧ Evicts cache after ∧
      ∀ path, cache.root.find path = none → after.root.find path = none := by
  rw [evictLeaf, Option.map_eq_some_iff] at evicted
  obtain ⟨victim, oldest, rfl⟩ := evicted
  have off := room.victim_off full fits oldest
  have isLeaf := mem_allLeaves.1 (List.argmin_mem oldest)
  obtain ⟨sizes, counts, ends⟩ := @RadixForest.removeAt_leaf _ _ _ [] victim.path _ _ _ room.wellFormed isLeaf
  have wellFormed := (RadixForest.removeAt_wellFormed room.wellFormed victim.path).1
  have before : ∀ path value, (cache.root.removeAt victim.path).find path = some value →
      cache.root.find path = some value := fun path value found =>
    RadixForest.find_of_removeAt room.wellFormed found
  have stillEnds : (cache.root.removeAt victim.path).Ends matched := by
    refine ends matched room.ends ?_
    rintro rfl
    exact off (List.prefix_refl _)
  refine ⟨⟨wellFormed, ?_, stillEnds, fun path nonempty onPath => ?_, fun path value found =>
    room.older path value (before path value found)⟩, counts, ⟨rfl, rfl, rfl⟩, fun path absent => ?_⟩
  · change cache.resident - victim.tokens.length = ((cache.root.removeAt victim.path).size : Int)
    have counted := room.resident
    omega
  · -- the path is still there, and nothing on it was dated anew
    have matchedNonempty : matched ≠ [] := by
      rintro rfl
      exact nonempty (List.prefix_nil.1 onPath)
    have whole := RadixForest.find_isSome_of_ends matchedNonempty wellFormed stillEnds
    obtain ⟨value, found⟩ := Option.isSome_iff_exists.1
      (RadixForest.find_isSome_of_isPrefix wellFormed nonempty onPath whole)
    have same := (room.refreshed path nonempty onPath).symm.trans (before path value found)
    rw [same]
    exact found
  · by_contra stillFound
    obtain ⟨value, found⟩ := Option.ne_none_iff_exists'.1 stillFound
    rw [before path value found] at absent
    cases absent

theorem Evicts.trans {first second third : StockRadixCache} (before : Evicts first second) (later : Evicts second third) :
    Evicts first third :=
  ⟨later.1.trans before.1, later.2.1.trans before.2.1, later.2.2.trans before.2.2⟩

/-- The rounds end with enough room or with an empty tree. -/
theorem MakesRoom.evictRounds_spec (room : MakesRoom now matched cache)
    (fits : matched ≠ [] → matched.length + need ≤ cache.capacity) {rounds : Nat} (enough : cache.root.count ≤ rounds) :
    MakesRoom now matched (evictRounds need rounds cache) ∧ Evicts cache (evictRounds need rounds cache) ∧
      (∀ path, cache.root.find path = none → (evictRounds need rounds cache).root.find path = none) ∧
      ((evictRounds need rounds cache).resident + need ≤ cache.capacity ∨ (evictRounds need rounds cache).root = .nil) := by
  induction rounds generalizing cache with
  | zero =>
    refine ⟨room, ⟨rfl, rfl, rfl⟩, fun _ absent => absent, .inr ?_⟩
    change cache.root = .nil
    cases isRoot : cache.root with
    | nil => rfl
    | node _ _ _ _ =>
      rw [isRoot, RadixForest.count] at enough
      omega
  | succ rounds inductionHypothesis =>
    rw [evictRounds]
    split
    · next roomy => exact ⟨room, ⟨rfl, rfl, rfl⟩, fun _ absent => absent, .inl roomy⟩
    · next full =>
      cases evicted : cache.evictLeaf with
      | none => exact ⟨room, ⟨rfl, rfl, rfl⟩, fun _ absent => absent, .inr (root_eq_nil room.wellFormed evicted)⟩
      | some after =>
        obtain ⟨roomAfter, fewer, same, absentAfter⟩ := room.evictLeaf_spec full fits evicted
        obtain ⟨roomThen, sameThen, absentThen, enoughThen⟩ :=
          inductionHypothesis roomAfter (same.1 ▸ fits) (by omega)
        rw [same.1] at enoughThen
        exact ⟨roomThen, same.trans sameThen, fun path absent => absentThen path (absentAfter path absent), enoughThen⟩

/-! ## Requests -/

/-- The longest prefix of a request that is reachable from the root. -/
def reachableMatch (cache : StockRadixCache) (tokens : List Nat) : Nat := longestMatch cache.root.domain tokens

/-- A request that is no longer than the capacity, or is new from its first token on, or is cached as a whole. -/
def Takes (cache : StockRadixCache) (tokens : List Nat) : Prop :=
  tokens.length ≤ cache.capacity ∨ cache.reachableMatch tokens = 0 ∨ cache.reachableMatch tokens = tokens.length

theorem walk_matched (wellFormed : cache.root.WellFormed) (touch : Nat → Nat) (tokens : List Nat) :
    (cache.root.walk touch tokens).2 = cache.reachableMatch tokens :=
  RadixTree.walk_matched touch ⟨cache.root, wellFormed⟩ tokens

theorem Accounted.makesRoom (accounted : Accounted cache) (tokens : List Nat) :
    MakesRoom cache.clock (tokens.take (cache.root.walk (fun _ => cache.clock) tokens).2)
      { cache with root := (cache.root.walk (fun _ => cache.clock) tokens).1, clock := cache.clock + 1 } := by
  have wellFormed := accounted.wellFormed
  obtain ⟨bound, reaches⟩ := RadixForest.walk_matched (fun _ => cache.clock) wellFormed tokens
  have walked := fun (path : List Nat) (nonempty : path ≠ []) =>
    RadixForest.find_walk_touched (fun _ => cache.clock) wellFormed tokens nonempty
  constructor
  case wellFormed => exact (RadixForest.walk_wellFormed _ wellFormed tokens).1
  case resident =>
    rw [RadixForest.walk_size]
    exact accounted.resident
  case ends => exact RadixForest.ends_matched _ wellFormed tokens
  case refreshed =>
    intro path nonempty onPath
    have positive := List.length_pos_of_ne_nil nonempty
    have short := onPath.length_le
    rw [List.length_take, Nat.min_eq_left bound] at short
    have isTake : tokens.take path.length = path := (List.prefix_iff_eq_take.1 (onPath.trans (List.take_prefix _ _))).symm
    obtain ⟨value, found⟩ := Option.isSome_iff_exists.1
      ((reaches path.length positive (short.trans bound)).2 short)
    rw [isTake] at found
    change RadixForest.find _ _ = _
    rw [walked path nonempty, if_pos onPath, found]
    rfl
  case older =>
    intro path lastAccess found off
    have nonempty : path ≠ [] := by
      rintro rfl
      exact off List.nil_prefix
    change RadixForest.find _ _ = _ at found
    rw [walked path nonempty, if_neg off] at found
    exact accounted.dated path lastAccess found

/-- The token after those matched is not below the path that they end. -/
theorem Accounted.absent (accounted : Accounted cache) (touch : Nat → Nat) {tokens : List Nat}
    (partly : (cache.root.walk touch tokens).2 < tokens.length) :
    (cache.root.walk touch tokens).1.find (tokens.take (cache.root.walk touch tokens).2 ++
      (tokens.drop (cache.root.walk touch tokens).2).take 1) = none := by
  have wellFormed := accounted.wellFormed
  obtain ⟨bound, reaches⟩ := RadixForest.walk_matched touch wellFormed tokens
  rw [← List.take_add]
  have nonempty : tokens.take ((cache.root.walk touch tokens).2 + 1) ≠ [] := by
    intro empty
    have lengths := congrArg List.length empty
    rw [List.length_take, List.length_nil] at lengths
    omega
  have longer : ¬ tokens.take ((cache.root.walk touch tokens).2 + 1) <+: tokens.take (cache.root.walk touch tokens).2 := by
    intro onPath
    have short := onPath.length_le
    simp only [List.length_take] at short
    omega
  rw [RadixForest.find_walk_touched touch wellFormed tokens nonempty, if_neg longer]
  by_contra found
  have further := (reaches _ (Nat.succ_pos _) partly).1 (Option.isSome_iff_ne_none.2 found)
  omega

theorem MakesRoom.accounted (room : MakesRoom now matched cache) (clock : cache.clock = now + 1) : Accounted cache := by
  refine ⟨room.wellFormed, room.resident, fun path lastAccess found => ?_⟩
  rw [clock]
  by_cases onPath : path <+: matched
  · by_cases empty : path = []
    · rw [empty, RadixForest.find_nil_path room.wellFormed] at found
      cases found
    · rw [room.refreshed path empty onPath] at found
      cases found
      exact Nat.lt_succ_self now
  · exact Nat.lt_succ_of_lt (room.older path lastAccess found onPath)

/-- With room made, the rest of a request is hung below what was matched. -/
theorem MakesRoom.insertSuffix_spec {length : Nat} (room : MakesRoom now (tokens.take length) cache)
    (clock : cache.clock = now + 1) (partly : length < tokens.length)
    (absent : cache.root.find (tokens.take length ++ (tokens.drop length).take 1) = none)
    (fits : length = 0 ∨ tokens.length ≤ cache.capacity) : Accounted (cache.insertSuffix now length tokens) ∧
      Evicts cache (cache.insertSuffix now length tokens) ∧
      (cache.insertSuffix now length tokens).resident ≤ (max cache.capacity tokens.length : Nat) := by
  have nonempty : tokens.drop length ≠ [] := by
    rw [Ne, List.drop_eq_nil_iff]
    omega
  have fitsPath : tokens.take length ≠ [] → (tokens.take length).length + (tokens.length - length) ≤ cache.capacity := by
    intro someMatched
    rw [List.length_take]
    obtain rfl | small := fits
    · exact absurd List.take_zero someMatched
    · omega
  have enough : cache.root.count ≤ (cache.root.nodes []).length := by rw [RadixForest.nodes_length]
  obtain ⟨roomAfter, same, absentAfter, roomy⟩ := room.evictRounds_spec fitsPath enough
  rw [insertSuffix, if_pos partly]
  change Accounted _ ∧ _
  rw [show cache.evict (tokens.length - length) =
    evictRounds (tokens.length - length) (cache.root.nodes []).length cache from rfl]
  generalize evictRounds (tokens.length - length) (cache.root.nodes []).length cache = after at *
  obtain ⟨sizes, finds, -⟩ := RadixForest.attach_spec now nonempty roomAfter.wellFormed roomAfter.ends (absentAfter _ absent)
  have counted := roomAfter.resident
  have suffix : (tokens.drop length).length = tokens.length - length := List.length_drop
  refine ⟨⟨(RadixForest.attach_wellFormed nonempty roomAfter.wellFormed _).1, ?_, fun path lastAccess found => ?_⟩,
    same, ?_⟩
  · change after.resident + _ = ((after.root.attach (tokens.drop length) now (tokens.take length)).size : Int)
    rw [sizes, counted]
    push_cast
    rfl
  · change (after.root.attach (tokens.drop length) now (tokens.take length)).find path = some lastAccess at found
    change lastAccess < after.clock
    rw [same.2.1, clock]
    rw [finds] at found
    split at found
    · cases found
      exact Nat.lt_succ_self now
    · exact (roomAfter.accounted (same.2.1.trans clock)).dated path lastAccess found |>.trans_eq (same.2.1.trans clock)
  · change after.resident + _ ≤ _
    rw [suffix]
    obtain roomy | isEmpty := roomy
    · omega
    · rw [isEmpty] at counted
      change after.resident = ((0 : Nat) : Int) at counted
      omega

/-- A request is charged for after it has been inserted. -/
theorem runRequest_eq (cache : StockRadixCache) (tokens : List Nat) : (cache.runRequest tokens).2 =
    { (cache.insertAndTouch tokens).2 with
      prefillCharged := (cache.insertAndTouch tokens).2.prefillCharged + (tokens.length - (cache.insertAndTouch tokens).1) } :=
  rfl

theorem Accounted.charge (accounted : Accounted cache) (prefillCharged : Nat) :
    Accounted { cache with prefillCharged := prefillCharged } :=
  ⟨accounted.wellFormed, accounted.resident, accounted.dated⟩

theorem Accounted.request (accounted : Accounted cache) (takes : cache.Takes tokens) :
    Accounted (cache.runRequest tokens).2 ∧ (cache.runRequest tokens).2.capacity = cache.capacity ∧
      (cache.runRequest tokens).2.resident ≤ max cache.resident (max cache.capacity tokens.length : Nat) := by
  have room := accounted.makesRoom tokens
  have absent := @Accounted.absent _ accounted (fun _ => cache.clock) tokens
  have matched := walk_matched accounted.wellFormed (fun _ => cache.clock) tokens
  rw [Takes, ← matched] at takes
  rw [runRequest_eq, insertAndTouch]
  generalize cache.root.walk (fun _ => cache.clock) tokens = walked at *
  by_cases partly : walked.2 < tokens.length
  · have fits : walked.2 = 0 ∨ tokens.length ≤ cache.capacity := by omega
    obtain ⟨after, same, bound⟩ := room.insertSuffix_spec rfl partly (absent partly) fits
    exact ⟨after.charge _, same.1, bound.trans (le_max_right _ _)⟩
  · -- nothing is evicted and nothing is hung up
    rw [insertSuffix, if_neg partly]
    exact ⟨(room.accounted rfl).charge _, rfl, le_max_left _ _⟩

/-! ## Runs -/

/-- No request spoils the tree, also where its own path is evicted. -/
theorem runRequest_wellFormed (wellFormed : cache.root.WellFormed) (tokens : List Nat) :
    (cache.runRequest tokens).2.root.WellFormed := by
  rw [runRequest_eq, insertAndTouch]
  have walkedFormed := (RadixForest.walk_wellFormed (fun _ => cache.clock) wellFormed tokens).1
  generalize cache.root.walk (fun _ => cache.clock) tokens = walked at *
  rw [insertSuffix]
  split
  · next partly =>
    have nonempty : tokens.drop walked.2 ≠ [] := by
      rw [Ne, List.drop_eq_nil_iff]
      omega
    have evicted : (evict { cache with root := walked.1, clock := cache.clock + 1 }
        (tokens.length - walked.2)).root.WellFormed :=
      evictRounds_keeps (motive := fun after => after.root.WellFormed)
        (fun _ victim before => (RadixForest.removeAt_wellFormed before victim.path).1) _ walkedFormed
    exact (RadixForest.attach_wellFormed nonempty evicted _).1
  · exact walkedFormed

theorem serve_wellFormed (wellFormed : cache.root.WellFormed) (requests : List (List Nat)) :
    (cache.serve requests).root.WellFormed := by
  induction requests generalizing cache with
  | nil => exact wellFormed
  | cons tokens rest inductionHypothesis => exact inductionHypothesis (runRequest_wellFormed wellFormed tokens)

/-- The length of the longest of some requests. -/
def longest (requests : List (List Nat)) : Nat := requests.foldr (fun tokens rest => max tokens.length rest) 0

/-- Each of some requests is taken by the cache that those before it have left. -/
def TakesAll : StockRadixCache → List (List Nat) → Prop
  | _, [] => True
  | cache, tokens :: rest => cache.Takes tokens ∧ (cache.runRequest tokens).2.TakesAll rest

theorem Accounted.serve (accounted : Accounted cache) {requests : List (List Nat)} (takes : cache.TakesAll requests) :
    Accounted (cache.serve requests) ∧
      (cache.serve requests).resident ≤ max cache.resident (max cache.capacity (longest requests) : Nat) := by
  induction requests generalizing cache with
  | nil => exact ⟨accounted, le_max_left _ _⟩
  | cons tokens rest inductionHypothesis =>
    obtain ⟨first, capacity, bound⟩ := accounted.request takes.1
    obtain ⟨last, boundLast⟩ := inductionHypothesis first takes.2
    have longer : longest (tokens :: rest) = max tokens.length (longest rest) := rfl
    rw [capacity] at boundLast
    refine ⟨last, boundLast.trans ?_⟩
    rw [longer]
    omega

/-- Every run is matched on the longest prefix that is reachable. Where each request fits the capacity, or
shares nothing with the tree, or is in it as a whole, the tokens counted are those reachable, and they are
no more than the capacity or the longest request. -/
theorem accounts_kept (capacity : Nat) (requests : List (List Nat)) :
    (∀ tokens, (((fresh capacity).serve requests).runRequest tokens).1.1 =
      ((fresh capacity).serve requests).reachableMatch tokens) ∧
    ((fresh capacity).TakesAll requests →
      ((fresh capacity).serve requests).resident = (((fresh capacity).serve requests).root.size : Int) ∧
      ((fresh capacity).serve requests).resident ≤ (max capacity (longest requests) : Nat)) := by
  have empty : (fresh capacity).root.WellFormed := trivial
  constructor
  · intro tokens
    exact walk_matched (serve_wellFormed empty requests) _ tokens
  · intro takes
    have accounted : Accounted (fresh capacity) := ⟨empty, rfl, fun _ _ found => nomatch found⟩
    obtain ⟨last, bound⟩ := accounted.serve takes
    have nothing : (fresh capacity).resident = 0 := rfl
    have same : (fresh capacity).capacity = capacity := rfl
    rw [nothing, same] at bound
    exact ⟨last.resident, bound.trans (by omega)⟩

/-- A request that is longer than the capacity and new is taken. -/
theorem new_request_accounts : (fresh 2).TakesAll [[1, 2], [3, 4, 5], [3, 4, 5]] ∧
    ((fresh 2).serve [[1, 2], [3, 4, 5], [3, 4, 5]]).resident ≤ (max 2 3 : Nat) := by
  have takes : (fresh 2).TakesAll [[1, 2], [3, 4, 5], [3, 4, 5]] :=
    ⟨.inl (by decide), .inr (.inl (by decide +kernel)), .inr (.inr (by decide +kernel)), trivial⟩
  exact ⟨takes, ((accounts_kept 2 [[1, 2], [3, 4, 5], [3, 4, 5]]).2 takes).2⟩

/-- A request that is longer than the capacity is kept as a whole where it shares nothing; where it shares a
prefix, its own path is evicted and the rest hangs below a node that is no longer there. -/
theorem longer_request_is_kept :
    ¬ ((fresh 2).serve [[1, 2, 3]]).resident ≤ (2 : Nat) ∧
    ((fresh 2).serve [[1, 2], [1, 3, 4]]).resident ≠ (((fresh 2).serve [[1, 2], [1, 3, 4]]).root.size : Int) := by
  decide +kernel

end Agentfork.Bench.StockRadixCache

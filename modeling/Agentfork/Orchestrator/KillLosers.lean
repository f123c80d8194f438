import Agentfork.Orchestrator.Recovery
import Agentfork.Orchestrator.Closing

/-! # kill_losers in any interleaving

The call kills what was recorded when it began, apart from the winner and its
recorded ancestors. A loser whose kill did nothing is pending: its fork may be
in flight, or another thread may be killing it. Once none is pending and the
call returns, each of them has been gone at some moment of the call, and no step
of the call has touched another branch. -/

namespace Agentfork.Orchestrator

open Shared Transition

variable {config : Config} {env : Env} {shared after : Shared} {origin : Finset BranchId}

/-! ## The chain that is kept -/

/-- The ids that `kill_losers` spares. -/
def Shared.keptChain (shared : Shared) (winnerId : BranchId) : List BranchId :=
  kept shared.branches (shared.branches.entries.length + 1) [] (some winnerId)

theorem Shared.mem_losers_iff {winnerId branchId : BranchId} : branchId ∈ shared.losers winnerId ↔
    branchId ∈ shared.branches ∧ branchId ∉ shared.keptChain winnerId := by
  unfold losers keptChain
  simp only [List.mem_filter, Dict.mem_keys, decide_eq_true_eq]

/-- The record of the first branch names the second one as its parent. -/
def Shared.Names (branches : Dict BranchId Branch) (childId parentId : BranchId) : Prop :=
  ∃ branch, branches.get? childId = some branch ∧ branch.parentId = some parentId

/-- The second branch is reached from the first one over recorded parents. -/
def Shared.Linked (branches : Dict BranchId Branch) : BranchId → BranchId → Prop :=
  Relation.ReflTransGen (Names branches)

/-- What the loop over the ancestors has collected, and what is left of it: the
recorded parent of a kept branch is kept or comes next. -/
structure Shared.Climbing (branches : Dict BranchId Branch) (winnerId : BranchId) (keep : List BranchId)
    (cursor : Option BranchId) : Prop where
  linked : ∀ branchId ∈ keep, Linked branches winnerId branchId
  next : ∀ branchId, cursor = some branchId → Linked branches winnerId branchId
  closed : ∀ childId ∈ keep, ∀ parentId, Names branches childId parentId → parentId ∈ keep ∨ cursor = some parentId

theorem Shared.Climbing.climb {branches : Dict BranchId Branch} {winnerId cursor : BranchId} {keep : List BranchId}
    (climbing : Climbing branches winnerId keep (some cursor)) :
    Climbing branches winnerId (keep ++ [cursor]) ((branches.get? cursor).bind Branch.parentId) where
  linked branchId member := by
    obtain member | member := List.mem_append.1 member
    · exact climbing.linked branchId member
    · exact climbing.next branchId (congrArg some (List.mem_singleton.1 member).symm)
  next branchId isNext := by
    obtain ⟨branch, found, isParent⟩ := Option.bind_eq_some_iff.1 isNext
    exact (climbing.next cursor rfl).tail ⟨branch, found, isParent⟩
  closed childId member parentId names := by
    obtain member | member := List.mem_append.1 member
    · obtain kept | isCursor := climbing.closed childId member parentId names
      · exact .inl (List.mem_append_left _ kept)
      · cases isCursor
        exact .inl List.mem_concat_self
    · obtain ⟨branch, found, isParent⟩ := names
      rw [List.mem_singleton.1 member] at found
      exact .inr (by rw [found, Option.bind_some, isParent])

/-- The records that are not collected yet. -/
def Shared.uncollected (branches : Dict BranchId Branch) (keep : List BranchId) : List BranchId :=
  branches.keys.filter fun branchId => branchId ∉ keep

theorem Shared.uncollected_append {branches : Dict BranchId Branch} {cursor : BranchId} {keep : List BranchId}
    (recorded : cursor ∈ branches) (fresh : cursor ∉ keep) :
    (uncollected branches (keep ++ [cursor])).length < (uncollected branches keep).length := by
  have fewer : uncollected branches (keep ++ [cursor]) =
      (uncollected branches keep).filter fun branchId => branchId ≠ cursor := by
    unfold uncollected
    rw [List.filter_filter]
    apply List.filter_congr
    intro branchId _
    simp [and_comm]
  have member : cursor ∈ uncollected branches keep :=
    List.mem_filter.2 ⟨Dict.mem_keys.2 recorded, decide_eq_true fresh⟩
  rw [fewer]
  apply List.length_filter_lt_length_iff_exists.2
  exact ⟨cursor, member, by simp⟩

/-- The loop ends with all of them: each turn collects one more record, and an
id without a record is the last. -/
theorem Shared.kept_climbs {branches : Dict BranchId Branch} {winnerId : BranchId} :
    ∀ {fuel : Nat} {keep : List BranchId} {cursor : Option BranchId}, Climbing branches winnerId keep cursor →
      (uncollected branches keep).length < fuel →
      Climbing branches winnerId (kept branches fuel keep cursor) none ∧
        ∀ branchId, branchId ∈ keep ∨ cursor = some branchId → branchId ∈ kept branches fuel keep cursor := by
  intro fuel
  induction fuel with
  | zero => exact fun _ enough => absurd enough (Nat.not_lt_zero _)
  | succ fuel inductionHypothesis =>
    intro keep cursor climbing enough
    cases cursor with
    | none => exact ⟨climbing, fun branchId member => member.resolve_right nofun⟩
    | some cursor =>
      by_cases here : cursor ∈ keep
      · simp only [kept, if_pos here]
        refine ⟨⟨climbing.linked, nofun, fun childId member parentId names => ?_⟩, fun branchId member => ?_⟩
        · obtain kept | isCursor := climbing.closed childId member parentId names
          · exact .inl kept
          · cases isCursor
            exact .inl here
        · obtain member | isCursor := member
          · exact member
          · cases isCursor
            exact here
      · simp only [kept, if_neg here]
        have inside : ∀ branchId, branchId ∈ keep ∨ some cursor = some branchId → branchId ∈ keep ++ [cursor] := by
          intro branchId member
          obtain member | isCursor := member
          · exact List.mem_append_left _ member
          · cases isCursor
            exact List.mem_concat_self
        cases found : branches.get? cursor with
        | none =>
          -- the chain ends at an id that is not recorded
          have ended := climbing.climb
          rw [found] at ended
          have isAll : kept branches fuel (keep ++ [cursor]) none = keep ++ [cursor] := by cases fuel <;> rfl
          rw [Option.bind_none] at ended ⊢
          rw [isAll]
          exact ⟨ended, inside⟩
        | some branch =>
          have fewer := uncollected_append (Dict.mem_of_get? found) here
          obtain ⟨climbed, all⟩ := inductionHypothesis climbing.climb (by omega)
          rw [found] at climbed all
          exact ⟨climbed, fun branchId member => all branchId (.inl (inside branchId member))⟩

/-- `kill_losers` spares the ids that recorded parents lead to from the winner. -/
theorem Shared.mem_keptChain {winnerId branchId : BranchId} :
    branchId ∈ shared.keptChain winnerId ↔ Linked shared.branches winnerId branchId := by
  have start : Climbing shared.branches winnerId [] (some winnerId) := by
    refine ⟨fun _ member => absurd member List.not_mem_nil, fun branchId isWinner => ?_,
      fun _ member => absurd member List.not_mem_nil⟩
    cases isWinner
    exact .refl
  have enough : (uncollected shared.branches []).length < shared.branches.entries.length + 1 := by
    have length := List.length_filter_le (fun branchId => decide (branchId ∉ ([] : List BranchId))) shared.branches.keys
    unfold uncollected
    unfold Dict.keys at length ⊢
    rw [List.length_map] at length
    omega
  obtain ⟨climbed, all⟩ := kept_climbs start enough
  constructor
  · exact climbed.linked branchId
  · intro linked
    induction linked with
    | refl => exact all winnerId (.inr rfl)
    | tail _ names inductionHypothesis =>
      exact (climbed.closed _ inductionHypothesis _ names).resolve_right nofun

/-- Each branch is the parent of the one before it, and the last one has none. -/
def Shared.Lineal (branches : Dict BranchId Branch) : List BranchId → Prop
  | [] => True
  | branchId :: rest => (∃ branch, branches.get? branchId = some branch ∧ branch.parentId = rest.head?) ∧
      Lineal branches rest

theorem Shared.Lineal.recorded {branches : Dict BranchId Branch} {chain : List BranchId} (lineal : Lineal branches chain) :
    ∀ branchId ∈ chain, branchId ∈ branches := by
  induction chain with
  | nil => exact fun _ member => absurd member List.not_mem_nil
  | cons first rest inductionHypothesis =>
    obtain ⟨⟨branch, found, _⟩, lineal⟩ := lineal
    intro branchId member
    obtain rfl | member := List.mem_cons.1 member
    · exact Dict.mem_of_get? found
    · exact inductionHypothesis lineal branchId member

theorem Shared.kept_of_lineal {branches : Dict BranchId Branch} {chain : List BranchId} (lineal : Lineal branches chain) :
    ∀ {fuel : Nat} {keep : List BranchId}, chain.length ≤ fuel → (keep ++ chain).Nodup →
      kept branches fuel keep chain.head? = keep ++ chain := by
  induction chain with
  | nil =>
    intro fuel keep _ _
    rw [List.append_nil]
    cases fuel <;> rfl
  | cons branchId rest inductionHypothesis =>
    intro fuel keep enough distinct
    obtain ⟨⟨branch, found, isParent⟩, lineal⟩ := lineal
    cases fuel with
    | zero => cases enough
    | succ fuel =>
      have fresh : branchId ∉ keep := by
        intro member
        exact (List.nodup_append.1 distinct).2.2 branchId member branchId List.mem_cons_self rfl
      rw [List.append_cons] at distinct
      simp only [kept, List.head?_cons, if_neg fresh, found, Option.bind_some, isParent]
      rw [inductionHypothesis lineal (Nat.le_of_succ_le_succ enough) distinct, List.append_assoc,
        List.singleton_append]

/-- What `kill_losers` kills, when the winner heads a chain. -/
theorem Shared.mem_losers {chain : List BranchId} {winnerId branchId : BranchId} (distinct : chain.Nodup)
    (lineal : Lineal shared.branches chain) (isHead : chain.head? = some winnerId) :
    branchId ∈ shared.losers winnerId ↔ branchId ∈ shared.branches ∧ branchId ∉ chain := by
  have enough : chain.length ≤ shared.branches.entries.length + 1 := by
    have inside : chain ⊆ shared.branches.keys := fun branchId member => Dict.mem_keys.2 (lineal.recorded branchId member)
    have length := (List.subperm_of_subset distinct inside).length_le
    unfold Dict.keys at length
    rw [List.length_map] at length
    exact Nat.le_succ_of_le length
  have isKept : kept shared.branches (shared.branches.entries.length + 1) [] chain.head? = [] ++ chain :=
    kept_of_lineal lineal enough distinct
  rw [isHead, List.nil_append] at isKept
  unfold losers
  simp only [isKept, List.mem_filter, Dict.mem_keys, decide_eq_true_eq]

/-! ## Steps of a kill -/

theorem Task.step_branchId {task next : Task} (taken : task.step config env shared = some (after, next)) :
    next.branchId = task.branchId := by
  cases task with
  | start task =>
    obtain ⟨_, _, equal⟩ := Option.map_eq_some_iff.1 taken
    cases equal
    rfl
  | kill task =>
    obtain ⟨_, _, equal⟩ := Option.map_eq_some_iff.1 taken
    cases equal
    rfl

/-- A step of a kill records nothing. -/
theorem killStep_unrecorded {task : KillTask} {phase : KillPhase} (taken : killStep config env shared task = some (after, phase))
    {branchId : BranchId} (absent : branchId ∉ shared.branches) : branchId ∉ after.branches := by
  rw [← Dict.get?_eq_none] at absent ⊢
  cases killStep_move taken with
  | refused _ _ quiet | staysRecorded _ _ quiet => exact (quiet.branches branchId).trans absent
  | admitted _ found =>
    rw [write_branches, Dict.get?_insert, if_neg]
    · exact absent
    · rintro rfl
      rw [found] at absent
      cases absent
  | calls _ call replies =>
    obtain rfl | rfl := replies.state
    · cases call <;> exact absent
    · exact absent
  | fails => exact absent
  | forgets =>
    simp only [write_branches, Dict.get?_erase]
    split
    · rfl
    · exact absent

/-- The receipt of a kill is about its branch, and a reaped branch is not recorded. -/
theorem killStep_receipt {task : KillTask} {receipt : KillReceipt}
    (taken : killStep config env shared task = some (after, .finished (.ok receipt))) :
    receipt.branchId = task.branchId ∧ (receipt.reaped = true → task.branchId ∉ after.branches) := by
  cases killStep_move taken with
  | refused _ refuses =>
    unfold admitKill at refuses
    split at refuses
    · cases refuses
    · split at refuses
      · cases refuses
        exact ⟨rfl, nofun⟩
      · split at refuses <;> cases refuses
  | calls _ call replies => cases call <;> cases replies
  | forgets =>
    refine ⟨rfl, fun _ => ?_⟩
    rw [← Dict.get?_eq_none]
    simp only [write_branches, Dict.get?_erase, if_pos]

/-! ## The calls of kill_losers -/

/-- The branch has had no record at some moment between the two states. -/
def Gone (config : Config) (entered state : State) (branchId : BranchId) : Prop :=
  ∃ middle, Reachable (State.Step config) always entered middle ∧
    Reachable (State.Step config) always middle state ∧ branchId ∉ middle.shared.branches

theorem Gone.now {entered state : State} {branchId : BranchId}
    (reached : Reachable (State.Step config) always entered state) (absent : branchId ∉ state.shared.branches) :
    Gone config entered state branchId :=
  ⟨state, reached, .refl, absent⟩

theorem Gone.later {entered state next : State} {action : Action} {branchId : BranchId}
    (gone : Gone config entered state branchId) (taken : state.Step config action next) :
    Gone config entered next branchId := by
  obtain ⟨middle, before, onward, absent⟩ := gone
  exact ⟨middle, before, .tail onward trivial taken, absent⟩

/-- The receipts of a sweep and the losers it still looks at: a loser that it no
longer looks at is gone, and so is one whose receipt says that it was reaped. -/
structure Merged (gone : BranchId → Prop) (losers : List BranchId) (receipts : Dict BranchId KillReceipt)
    (pending : List BranchId) : Prop where
  covers : ∀ branchId, branchId ∈ receipts ↔ branchId ∈ losers
  own : ∀ branchId receipt, receipts.get? branchId = some receipt →
    receipt.branchId = branchId ∧ (receipt.reaped = true → gone branchId)
  inside : ∀ branchId ∈ pending, branchId ∈ losers
  settled : ∀ branchId ∈ losers, branchId ∈ pending ∨ gone branchId

namespace Merged

variable {gone : BranchId → Prop} {losers pending : List BranchId} {receipts : Dict BranchId KillReceipt}

theorem mono (merged : Merged gone losers receipts pending) {later : BranchId → Prop}
    (implied : ∀ branchId, gone branchId → later branchId) : Merged later losers receipts pending where
  covers := merged.covers
  own branchId receipt found := (merged.own branchId receipt found).imp_right fun reaped isReaped =>
    implied branchId (reaped isReaped)
  inside := merged.inside
  settled branchId member := (merged.settled branchId member).imp_right (implied branchId)

/-- The sweep leaves a loser that is gone. -/
theorem drop {branchId : BranchId} (merged : Merged gone losers receipts (branchId :: pending))
    (isGone : gone branchId) : Merged gone losers receipts pending where
  covers := merged.covers
  own := merged.own
  inside other member := merged.inside other (List.mem_cons_of_mem branchId member)
  settled other member := by
    obtain listed | alreadyGone := merged.settled other member
    · obtain rfl | listed := List.mem_cons.1 listed
      · exact .inr isGone
      · exact .inl listed
    · exact .inr alreadyGone

/-- The receipt of a second kill replaces the one there was. -/
theorem insert {receipt : KillReceipt} (merged : Merged gone losers receipts pending)
    (isLoser : receipt.branchId ∈ losers) (reaped : receipt.reaped = true → gone receipt.branchId) :
    Merged gone losers (receipts.insert receipt.branchId receipt) pending where
  covers branchId := by
    rw [Dict.mem_insert, merged.covers]
    constructor
    · rintro (rfl | member)
      · exact isLoser
      · exact member
    · exact .inr
  own branchId other found := by
    rw [Dict.get?_insert] at found
    split at found
    · next here =>
      cases found
      exact ⟨here.symm, here ▸ reaped⟩
    · exact merged.own branchId other found
  inside := merged.inside
  settled := merged.settled

end Merged

theorem Call.get?_byBranch (receipts : List KillReceipt) {branchId : BranchId} {receipt : KillReceipt}
    (found : (byBranch receipts).get? branchId = some receipt) : receipt ∈ receipts ∧ receipt.branchId = branchId := by
  have folded : ∀ dict : Dict BranchId KillReceipt,
      (receipts.foldl (fun dict receipt => dict.insert receipt.branchId receipt) dict).get? branchId = some receipt →
        receipt ∈ receipts ∧ receipt.branchId = branchId ∨ dict.get? branchId = some receipt := by
    clear found
    induction receipts with
    | nil => exact fun _ found => .inr found
    | cons first rest inductionHypothesis =>
      intro dict found
      obtain ⟨member, own⟩ | before := inductionHypothesis _ found
      · exact .inl ⟨List.mem_cons_of_mem first member, own⟩
      · rw [Dict.get?_insert] at before
        split at before
        · next here =>
          cases before
          exact .inl ⟨List.mem_cons_self, here.symm⟩
        · exact .inr before
  exact (folded .empty found).resolve_right nofun

theorem Call.mem_byBranch (receipts : List KillReceipt) {branchId : BranchId} :
    branchId ∈ byBranch receipts ↔ branchId ∈ receipts.map KillReceipt.branchId := by
  have folded : ∀ dict : Dict BranchId KillReceipt,
      branchId ∈ receipts.foldl (fun dict receipt => dict.insert receipt.branchId receipt) dict ↔
        branchId ∈ receipts.map KillReceipt.branchId ∨ branchId ∈ dict := by
    induction receipts with
    | nil => simp
    | cons first rest inductionHypothesis =>
      intro dict
      rw [List.foldl_cons, inductionHypothesis, Dict.mem_insert, List.map_cons, List.mem_cons]
      grind
  rw [byBranch, folded]
  simp

/-- What a task of the sweep has done: it kills a loser, and its receipt is about it. -/
structure Task.Culls (gone : BranchId → Prop) (losers : List BranchId) (task : Task) : Prop where
  isKill : task.isStart = false
  isLoser : task.branchId ∈ losers
  receipt : ∀ receipt, task.receipt? = some receipt →
    receipt.branchId = task.branchId ∧ (receipt.reaped = true → gone task.branchId)

/-- What a sweep over the ids has in hand in each of its stages. -/
def Stage.Merges (gone : BranchId → Prop) (losers ids : List BranchId) : Stage → Prop
  | .fanOut => ids = losers
  | .sweep receipts pending | .retry receipts pending => Merged gone losers receipts pending
  | .finished (.ok value) => ∃ receipts, value = .receipts (Dict.values receipts) ∧ Merged gone losers receipts []
  | .finished (.error _) => True
  | .tally _ | .draining | .awaitClosed => False

/-- A call of `kill_losers`. -/
structure Call.Culls (gone : BranchId → Prop) (losers : List BranchId) (call : Call) : Prop where
  op : ∃ winnerId, call.op = .killLosers winnerId
  items : ∀ task ∈ call.items, task.Culls gone losers
  stage : call.stage.Merges gone losers (call.items.map Task.branchId)

variable {gone : BranchId → Prop} {losers : List BranchId}

theorem Task.Culls.mono {task : Task} (culls : task.Culls gone losers) {later : BranchId → Prop}
    (implied : ∀ branchId, gone branchId → later branchId) : task.Culls later losers where
  isKill := culls.isKill
  isLoser := culls.isLoser
  receipt receipt found := (culls.receipt receipt found).imp_right fun reaped isReaped =>
    implied task.branchId (reaped isReaped)

theorem Task.culls_queued {branchId : BranchId} (isLoser : branchId ∈ losers) :
    (killTask false branchId).Culls gone losers :=
  ⟨rfl, isLoser, nofun⟩

/-- A step of a kill: a receipt that says reaped finds the branch without a record. -/
theorem Task.Culls.step {task next : Task} (culls : task.Culls gone losers)
    (taken : task.step config env shared = some (after, next))
    (absent : ∀ branchId, branchId ∉ after.branches → gone branchId) : next.Culls gone losers := by
  cases task with
  | start task => cases culls.isKill
  | kill task =>
    obtain ⟨⟨_, phase⟩, killed, equal⟩ := Option.map_eq_some_iff.1 taken
    cases equal
    refine ⟨rfl, culls.isLoser, fun receipt ended => ?_⟩
    cases phase with
    | finished outcome =>
      cases outcome with
      | error fault => cases ended
      | ok received =>
        cases ended
        obtain ⟨own, reaped⟩ := killStep_receipt killed
        exact ⟨own, fun isReaped => absent _ (reaped isReaped)⟩
    | _ => cases ended

theorem Stage.Merges.mono {stage : Stage} {ids : List BranchId} (merges : stage.Merges gone losers ids)
    {later : BranchId → Prop} (implied : ∀ branchId, gone branchId → later branchId) :
    stage.Merges later losers ids := by
  cases stage with
  | fanOut => exact merges
  | sweep receipts pending => exact Merged.mono merges implied
  | retry receipts pending => exact Merged.mono merges implied
  | finished outcome =>
    cases outcome with
    | error fault => trivial
    | ok value =>
      obtain ⟨receipts, isValue, merged⟩ := merges
      exact ⟨receipts, isValue, merged.mono implied⟩
  | tally | draining | awaitClosed => exact merges

namespace Call.Culls

variable {call next : Call}

theorem mono (culls : call.Culls gone losers) {later : BranchId → Prop}
    (implied : ∀ branchId, gone branchId → later branchId) : call.Culls later losers where
  op := culls.op
  items task member := (culls.items task member).mono implied
  stage := culls.stage.mono implied

theorem item (culls : call.Culls gone losers) {i : Nat} {task moved : Task} (atItem : call.items[i]? = some task)
    (taken : task.step config env shared = some (after, moved))
    (absent : ∀ branchId, branchId ∉ after.branches → gone branchId) :
    ({ call with items := call.items.set i moved } : Call).Culls gone losers where
  op := culls.op
  items other member := by
    obtain member | rfl := List.mem_or_eq_of_mem_set member
    · exact culls.items other member
    · exact (culls.items task (List.mem_of_getElem? atItem)).step taken absent
  stage := by
    rw [ids_set atItem (Task.step_branchId taken)]
    exact culls.stage

/-- The fan-out ends with a receipt of each loser. -/
theorem fanOut (culls : call.Culls gone losers) (atStage : call.stage = .fanOut)
    (ended : call.fanOutEnded config = true) (noFault : fanOutFault call.items = none) :
    Merged gone losers (byBranch call.receipts) losers := by
  have ids : call.items.map Task.branchId = losers := by
    have stage := culls.stage
    rw [atStage] at stage
    exact stage
  have received := receipts_of_fanOut (fun task member => (culls.items task member).isKill) ended noFault
  have sameIds : call.receipts.map KillReceipt.branchId = losers := by
    let idOf : Option KillReceipt → BranchId := fun received => (received.map KillReceipt.branchId).getD ""
    -- the receipt of a task is about the id of the task
    have own : ∀ task ∈ call.items, task.branchId = idOf task.receipt? := by
      intro task member
      have isListed : task.receipt? ∈ call.items.map Task.receipt? := List.mem_map_of_mem member
      rw [received] at isListed
      obtain ⟨receipt, _, isReceipt⟩ := List.mem_map.1 isListed
      rw [← isReceipt]
      exact ((culls.items task member).receipt receipt isReceipt.symm).1.symm
    calc call.receipts.map KillReceipt.branchId
        = (call.receipts.map some).map idOf := by rw [List.map_map]; rfl
      _ = (call.items.map Task.receipt?).map idOf := by rw [received]
      _ = call.items.map Task.branchId := by rw [List.map_map]; exact (List.map_congr_left own).symm
      _ = losers := ids
  refine ⟨fun branchId => ?_, fun branchId receipt found => ?_, fun _ member => member, fun _ member => .inl member⟩
  · rw [mem_byBranch, sameIds]
  · obtain ⟨member, own⟩ := get?_byBranch call.receipts found
    obtain ⟨task, isItem, isReceipt⟩ := List.mem_filterMap.1 member
    obtain ⟨sameId, reaped⟩ := (culls.items task isItem).receipt receipt isReceipt
    rw [own] at sameId
    exact ⟨own, sameId ▸ reaped⟩

/-- One turn of the loop: the first loser pending is gone, settles, or is killed again. -/
theorem turn (culls : call.Culls gone losers) {receipts : Dict BranchId KillReceipt} {pending : List BranchId}
    (merged : Merged gone losers receipts pending) (absent : ∀ branchId, branchId ∉ shared.branches → gone branchId)
    (move : SweepMove shared call receipts pending next) : next.Culls gone losers := by
  cases move with
  | ends => exact ⟨culls.op, culls.items, receipts, rfl, merged⟩
  | @reaped branchId pending isReaped =>
    -- a receipt that says reaped ends the loop for its loser
    cases found : receipts.get? branchId with
    | none => rw [found] at isReaped; cases isReaped
    | some receipt =>
      rw [found] at isReaped
      exact ⟨culls.op, culls.items, merged.drop ((merged.own branchId receipt found).2 isReaped)⟩
  | @gone branchId pending unrecorded => exact ⟨culls.op, culls.items, merged.drop (absent branchId unrecorded)⟩
  | waits => exact culls
  | @killsAgain branchId pending =>
    refine ⟨culls.op, fun task member => ?_, merged⟩
    obtain member | isNew := List.mem_append.1 member
    · exact culls.items task member
    · rw [List.mem_singleton.1 isNew]
      exact Task.culls_queued (merged.inside branchId List.mem_cons_self)

theorem advance (culls : call.Culls gone losers) (absent : ∀ branchId, branchId ∉ shared.branches → gone branchId)
    (advanced : call.advance config shared = some (after, next)) : next.Culls gone losers := by
  obtain ⟨winnerId, op⟩ := culls.op
  have stage := culls.stage
  cases advance_move advanced with
  | fanOut atStage ended isFault move =>
    cases move with
    | raised | reconcileRaised | closeRaised => exact ⟨⟨winnerId, op⟩, culls.items, trivial⟩
    | sweeps =>
      rw [atStage] at stage
      have ids : call.items.map Task.branchId = losers := stage
      refine ⟨⟨winnerId, op⟩, culls.items, ?_⟩
      rw [ids]
      exact culls.fanOut atStage ended isFault
    | started isOp | forked isOp | killed isOp | renewed isOp | reaped isOp | reconciled isOp | closed isOp =>
      rw [op] at isOp
      cases isOp
  | sweep atStage move =>
    rw [atStage] at stage
    exact culls.turn stage absent move
  | retryRaised => exact ⟨culls.op, culls.items, trivial⟩
  | @retried _ _ task receipt atStage isLast _ isReceipt =>
    rw [atStage] at stage
    have killed := culls.items task (List.mem_of_getLast? isLast)
    obtain ⟨own, reaped⟩ := killed.receipt receipt isReceipt
    exact ⟨culls.op, culls.items, Merged.insert stage (own ▸ killed.isLoser) (own ▸ reaped)⟩
  | tally atStage | drained atStage | follows atStage => rw [atStage] at stage; cases stage

end Call.Culls

/-- A call that begins by listing its losers. -/
theorem invoke_culls {winnerId : BranchId} {call : Call}
    (invoked : invoke config env shared (.killLosers winnerId) = some (after, call)) :
    call.Culls gone (shared.losers winnerId) := by
  cases invoke_move invoked with
  | refused => exact ⟨⟨winnerId, rfl⟩, fun _ member => absurd member List.not_mem_nil, trivial⟩
  | kills listed =>
    cases listed with
    | killLosers =>
      refine ⟨⟨winnerId, rfl⟩, fun task member => ?_, ?_⟩
      · obtain ⟨branchId, isLoser, rfl⟩ := List.mem_map.1 member
        exact Task.culls_queued isLoser
      · rw [List.map_map]
        exact List.map_id _

/-- In every interleaving the call has in hand what its stage says. -/
theorem culls_onward {entered state : State} {c : Nat} {opening : Call}
    (begun : entered.calls[c]? = some opening) (culls : opening.Culls (Gone config entered entered) losers)
    (onward : Reachable (State.Step config) always entered state) :
    ∃ call, state.calls[c]? = some call ∧ call.Culls (Gone config entered state) losers := by
  induction onward with
  | refl => exact ⟨opening, begun, culls⟩
  | @tail middle state action onward _ taken inductionHypothesis =>
    obtain ⟨call, atCall, culls⟩ := inductionHypothesis
    have culls := culls.mono fun branchId gone => gone.later taken
    have absentBefore : ∀ branchId, branchId ∉ middle.shared.branches → Gone config entered state branchId :=
      fun branchId unrecorded => (Gone.now onward unrecorded).later taken
    have absentAfter : ∀ branchId, branchId ∉ state.shared.branches → Gone config entered state branchId :=
      fun branchId unrecorded => Gone.now (.tail onward trivial taken) unrecorded
    obtain ⟨inside, _⟩ := List.getElem?_eq_some_iff.1 atCall
    -- only the steps of the call itself change it
    cases taken.move with
    | @item d i env other task moved shared atOther atItem running allowed stepped =>
      by_cases here : d = c
      · subst here
        rw [atCall] at atOther
        cases atOther
        exact ⟨_, List.getElem?_set_self inside, culls.item atItem stepped absentAfter⟩
      · exact ⟨call, by rw [List.getElem?_set_ne here]; exact atCall, culls⟩
    | journal => exact ⟨call, by rw [List.getElem?_append_left inside]; exact atCall, culls⟩
    | invoke => exact ⟨call, by rw [List.getElem?_append_left inside]; exact atCall, culls⟩
    | @advance d shared other moved more atOther silent dormant items advanced =>
      by_cases here : d = c
      · subst here
        rw [atCall] at atOther
        cases atOther
        exact ⟨_, List.getElem?_set_self inside, culls.advance absentBefore advanced⟩
      · exact ⟨call, by rw [List.getElem?_set_ne here]; exact atCall, culls⟩

/-- The steps of one call. -/
def Action.isOf (c : Nat) : Action → Prop
  | .invoke _ _ => False
  | .item d _ _ => d = c
  | .advance d => d = c

/-- A step of the call leaves what it is not about. -/
theorem Call.Culls.untouched {state next : State} {c : Nat} {call : Call} {action : Action} {branchId : BranchId}
    (culls : call.Culls gone losers) (atCall : state.calls[c]? = some call) (taken : state.Step config action next)
    (isOwn : action.isOf c) (notLoser : branchId ∉ losers) :
    next.shared.view origin branchId = state.shared.view origin branchId := by
  cases taken.move with
  | @item d i env other task moved shared atOther atItem running allowed stepped =>
    cases isOwn
    rw [atCall] at atOther
    cases atOther
    have killed := culls.items task (List.mem_of_getElem? atItem)
    cases task with
    | start task => cases killed.isKill
    | kill task =>
      obtain ⟨⟨_, phase⟩, killStepped, equal⟩ := Option.map_eq_some_iff.1 stepped
      cases equal
      exact killStep_onlyAt killStepped branchId fun same => notLoser (same ▸ killed.isLoser)
  | journal => cases isOwn
  | invoke => cases isOwn
  | advance atOther silent => exact silent.view origin branchId

/-- The receipts of a sweep that has ended are of the losers, one of each. -/
theorem Merged.ids {receipts : Dict BranchId KillReceipt} {pending : List BranchId}
    (merged : Merged gone losers receipts pending) :
    (receipts.values.map KillReceipt.branchId).Nodup ∧
      ∀ branchId, branchId ∈ receipts.values.map KillReceipt.branchId ↔ branchId ∈ losers := by
  have isKeys : receipts.values.map KillReceipt.branchId = receipts.keys := by
    rw [Dict.values, Dict.keys, List.map_map]
    apply List.map_congr_left
    intro entry member
    exact (merged.own entry.1 entry.2 (Dict.mem_entries.1 member)).1
  rw [isKeys]
  exact ⟨receipts.keys_nodup, fun branchId => Dict.mem_keys.trans (merged.covers branchId)⟩

/-- What a `kill_losers` that returns has done: `entered` is the state in which
it begins to kill and `last` the one in which it returns. -/
structure KillsLosers (config : Config) (before entered last : State) (c : Nat) (winnerId : BranchId)
    (value : Value) : Prop where
  gone : ∀ branchId ∈ before.shared.branches, branchId ∉ before.shared.keptChain winnerId →
    Gone config entered last branchId
  receipts : ∃ receipts, value = .receipts receipts ∧ (receipts.map KillReceipt.branchId).Nodup ∧
    ∀ branchId, branchId ∈ receipts.map KillReceipt.branchId ↔
      branchId ∈ before.shared.branches ∧ branchId ∉ before.shared.keptChain winnerId
  spares : ∀ state action next, Reachable (State.Step config) always entered state →
    state.Step config action next → action.isOf c → ∀ branchId ∈ before.shared.keptChain winnerId,
      next.shared.view ∅ branchId = state.shared.view ∅ branchId

/-- Whatever other threads fork, kill and collect meanwhile, a `kill_losers`
that returns has seen each loser gone, has one receipt of each and none of
another branch, and has left the winner's chain alone. -/
theorem kill_losers_complete {before entered last after : State} {winnerId : BranchId} {call : Call} {value : Value}
    (invoked : before.Step config (.invoke (.killLosers winnerId) env) entered)
    (onward : Reachable (State.Step config) always entered last)
    (returns : last.Step config (.advance before.calls.length) after)
    (atCall : after.calls[before.calls.length]? = some call) (finished : call.stage = .finished (.ok value)) :
    KillsLosers config before entered last before.calls.length winnerId value := by
  obtain ⟨⟨shared, opening⟩, opens, rfl⟩ := Option.map_eq_some_iff.1 invoked
  have begun : (before.calls ++ [opening])[before.calls.length]? = some opening := List.getElem?_concat_length
  obtain ⟨running, atRunning, culls⟩ := culls_onward begun (invoke_culls opens) onward
  obtain ⟨other, atOther, taken⟩ := Option.bind_eq_some_iff.1 returns
  rw [atRunning] at atOther
  cases atOther
  obtain ⟨⟨shared', ended⟩, advanced, rfl⟩ := Option.map_eq_some_iff.1 taken
  obtain ⟨inside, _⟩ := List.getElem?_eq_some_iff.1 atRunning
  rw [List.getElem?_set_self inside] at atCall
  cases atCall
  have stage := (culls.advance (fun branchId unrecorded => Gone.now onward unrecorded) advanced).stage
  rw [finished] at stage
  obtain ⟨receipts, isValue, merged⟩ := stage
  refine ⟨fun branchId recorded notKept => ?_, ⟨receipts.values, isValue, merged.ids.1, fun branchId => ?_⟩, ?_⟩
  · exact (merged.settled branchId (mem_losers_iff.2 ⟨recorded, notKept⟩)).resolve_left List.not_mem_nil
  · rw [merged.ids.2, mem_losers_iff]
  · intro state action next reached stepped isOwn branchId isKept
    obtain ⟨call, atCall, culls⟩ := culls_onward begun (invoke_culls opens) reached
    exact culls.untouched atCall stepped isOwn fun isLoser => (mem_losers_iff.1 isLoser).2 isKept

/-- One thread forks `c`, another one kills `b`. -/
def crowdedRun : List Action :=
  [.invoke (.createParent "p" [] none) returns, .item 0 0 returns, .item 0 0 returns, .item 0 0 returns,
    .item 0 0 returns, .advance 0, .invoke (.fork "p" 2 (some ["a", "b"]) none) returns, .item 1 0 returns,
    .item 1 0 returns, .item 1 0 returns, .item 1 0 returns, .item 1 0 returns, .item 1 1 returns,
    .item 1 1 returns, .item 1 1 returns, .item 1 1 returns, .item 1 1 returns, .advance 1,
    .invoke (.fork "p" 1 (some ["c"]) none) returns, .item 2 0 returns, .invoke (.kill "b") returns,
    .item 3 0 returns]

/-- The sweep for `a` finds both of them busy; the other kill of `b` fails. -/
def crowdedSweep : List Action :=
  [.item 4 0 returns, .item 4 1 returns, .advance 4, .item 3 0 (raises .exception), .item 3 0 returns, .advance 4,
    .item 4 2 returns, .item 4 2 returns, .item 4 2 returns, .item 4 2 returns, .advance 4, .advance 4, .advance 4,
    .item 2 0 returns, .item 2 0 returns, .item 2 0 returns, .item 2 0 returns, .advance 4, .item 4 3 returns,
    .item 4 3 returns, .item 4 3 returns, .item 4 3 returns, .advance 4, .advance 4]

def crowdedEntry : State := runFrom (State.step serialConfig) (serialRun crowdedRun) [.invoke (.killLosers "a") returns]

def crowdedLast : State := runFrom (State.step serialConfig) crowdedEntry crowdedSweep

theorem crowdedSweep_complete : KillsLosers serialConfig (serialRun crowdedRun) crowdedEntry crowdedLast 4 "a"
    (.receipts [⟨"b", 0, true⟩, ⟨"c", 0, true⟩]) := by
  have invoked : (serialRun crowdedRun).Step serialConfig (.invoke (.killLosers "a") returns) crowdedEntry := rfl
  have onward : Reachable (State.Step serialConfig) always crowdedEntry crowdedLast :=
    reachable_runFrom (by decide) meets_always
  have returned : crowdedLast.Step serialConfig (.advance 4)
      (runFrom (State.step serialConfig) crowdedLast [.advance 4]) := rfl
  exact kill_losers_complete invoked onward returned rfl rfl

end Agentfork.Orchestrator

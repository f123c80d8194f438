import Agentfork.Orchestrator.Returning

/-! # Trees that belong to no branch

`fork_branch` takes an empty id for none and makes one up, so a fork of a child
with the empty id leaves a tree under an id that the registry does not know. A
later fork that journals this id raises, and a `kill_losers` does not list it, so
the tree stays as long as the calls return. -/

namespace Agentfork.Orchestrator

open Shared Transition Kv

variable {config : Config} {env : Env} {shared after : Shared}

namespace StartPhase

/-- The branch is not in the cache yet. -/
def early : StartPhase → Bool
  | .queued | .kvStart => true
  | _ => false

end StartPhase

def Task.early : Task → Bool
  | .start task => task.phase.early
  | .kill _ => false

/-- A step of a child that does not lead to failing leaves the trees, or comes back
from its fork of the cache. -/
theorem startStep_grows {task : StartTask} {phase : StartPhase} {parentId : BranchId} {cache later : TreeKVCache Nat}
    {entered : Bool} {clock : Nat} (isParent : task.parentId = some parentId) (going : phase.failing = false)
    (taken : startStep config env shared task = some (after, phase))
    (called : Managed.Calls cache env entered later ((Task.start task).cacheCall clock)) :
    (later.trees = cache.trees ∧ phase.early = task.phase.early) ∨
      phase.early = false ∧ TreeKVCache.childName parentId (some task.branchId) cache.childSeq ∉ cache.trees ∧
        ∃ tid, later.trees = cache.trees.insert (TreeKVCache.childName parentId (some task.branchId) cache.childSeq) tid := by
  have notFailing : task.phase.failing = false := by
    by_contra failing
    rw [startStep_failing (by simpa using failing) taken] at going
    cases going
  simp only [Task.cacheCall] at called
  cases startStep_move taken with
  | begins atPhase | goesLive atPhase | ends atPhase =>
    simp only [atPhase] at called ⊢
    obtain rfl := called
    exact .inl ⟨rfl, rfl⟩
  | staysForking => cases going
  | forgets atPhase | staysRecorded atPhase =>
    rw [atPhase] at notFailing
    cases notFailing
  | calls atPhase call replies =>
    simp only [atPhase] at called notFailing ⊢
    cases call with
    | kvStart =>
      simp only [StartTask.treeCall, isParent] at called
      cases replies with
      | working replied => exact absurd replied (cacheStep_not_working called)
      | raised | refused => cases going
      | returned replied =>
        obtain ⟨_, ⟨value, succeeded⟩, rfl⟩ | ⟨noEffect, _⟩ := cacheStep_cases called
        · simp only [TreeKVCache.apply, Prod.map_fst] at succeeded
          cases forked : (cache.forkBranch parentId (some task.branchId)).1 with
          | error error =>
            rw [forked] at succeeded
            cases succeeded
          | ok tid =>
            obtain ⟨absent, inserted⟩ := TreeKVCache.forkBranch_tree forked
            exact .inr ⟨rfl, absent, tid, inserted⟩
        · rw [replied] at noEffect
          cases noEffect
    | kvExtend =>
      have sameTrees : later.trees = cache.trees := by
        obtain ⟨_, _, rfl⟩ | ⟨_, rfl | ⟨rfl, _⟩⟩ := cacheStep_cases called
        · exact (cache.extend_sequence clock task.branchId task.tokens).1
        · rfl
        · exact (cache.extend_sequence clock task.branchId task.tokens).1
      cases replies with
      | working | returned => exact .inl ⟨sameTrees, rfl⟩
      | raised | refused => cases going
    | sandboxSpawn =>
      obtain rfl := called
      cases replies with
      | working => exact .inl ⟨rfl, rfl⟩
      | returned =>
        refine .inl ⟨rfl, ?_⟩
        unfold StartTask.afterSpawn
        rw [isParent]
        rfl
      | raised | refused => cases going
    | waitReady =>
      obtain rfl := called
      cases replies with
      | working => exact .inl ⟨rfl, rfl⟩
      | returned =>
        refine .inl ⟨rfl, ?_⟩
        unfold StartTask.afterReady
        split <;> rfl
      | raised | refused => cases going
    | rollbackKv | rollbackSandbox => cases notFailing

/-! ## A fork whose tasks do not fail -/

/-- What the tasks have made of the trees since `before`. -/
structure Grown (before cache : TreeKVCache Nat) (items : List Task) : Prop where
  keeps : ∀ treeId ∈ before.trees, treeId ∈ cache.trees
  begun : ∀ task ∈ items, task.early = false → task.branchId ≠ "" →
    task.branchId ∉ before.trees ∧ task.branchId ∈ cache.trees
  unnamed : ∀ task ∈ items, task.early = false → task.branchId = "" → ∃ treeId, treeId ≠ "" ∧
    treeId ∈ cache.trees ∧ treeId ∉ before.trees ∧ ∀ other ∈ items, other.branchId = treeId → other.early = true

namespace Grown

variable {before cache after : TreeKVCache Nat} {items : List Task} {i : Nat} {task next : Task}

/-- A step that leaves the trees. -/
theorem still (grown : Grown before cache items) (atItem : items[i]? = some task) (same : next.branchId = task.branchId)
    (trees : after.trees = cache.trees) (early : next.early = task.early) : Grown before after (items.set i next) := by
  have member := List.mem_of_getElem? atItem
  -- the item that has moved looks as before
  have asBefore : ∀ other ∈ items.set i next, ∃ old ∈ items, other.branchId = old.branchId ∧ other.early = old.early := by
    intro other isItem
    obtain old | rfl := List.mem_or_eq_of_mem_set isItem
    · exact ⟨other, old, rfl, rfl⟩
    · exact ⟨task, member, same, early⟩
  refine ⟨fun treeId held => ?_, fun other isItem begun nonempty => ?_, fun other isItem begun empty => ?_⟩
  · rw [trees]
    exact grown.keeps treeId held
  · obtain ⟨old, isOld, sameId, sameEarly⟩ := asBefore other isItem
    rw [trees, sameId]
    exact grown.begun old isOld (sameEarly ▸ begun) (sameId ▸ nonempty)
  · obtain ⟨old, isOld, sameId, sameEarly⟩ := asBefore other isItem
    obtain ⟨treeId, nonempty, held, isNew, unstarted⟩ := grown.unnamed old isOld (sameEarly ▸ begun) (sameId ▸ empty)
    refine ⟨treeId, nonempty, trees ▸ held, isNew, fun third isThird names => ?_⟩
    obtain ⟨old, isOld, sameId, sameEarly⟩ := asBefore third isThird
    rw [sameEarly]
    exact unstarted old isOld (sameId ▸ names)

/-- A task comes back from its fork of the cache with a new tree. -/
theorem insert (grown : Grown before cache items) (atItem : items[i]? = some task) (same : next.branchId = task.branchId)
    {name : String} {tid : TreeId} (absent : name ∉ cache.trees) (nonempty : name ≠ "")
    (own : task.branchId ≠ "" → name = task.branchId) (trees : after.trees = cache.trees.insert name tid) :
    Grown before after (items.set i next) := by
  have member := List.mem_of_getElem? atItem
  have isNew : name ∉ before.trees := fun held => absent (grown.keeps name held)
  have grows : ∀ treeId ∈ cache.trees, treeId ∈ after.trees := by
    intro treeId held
    rw [trees, Dict.mem_insert]
    exact .inr held
  have added : name ∈ after.trees := by
    rw [trees, Dict.mem_insert]
    exact .inl rfl
  refine ⟨fun treeId held => grows treeId (grown.keeps treeId held), fun other isItem begun named => ?_,
    fun other isItem begun empty => ?_⟩
  · obtain old | rfl := List.mem_or_eq_of_mem_set isItem
    · exact (grown.begun other old begun named).imp_right (grows _)
    · rw [same] at named ⊢
      rw [← own named]
      exact ⟨isNew, added⟩
  · obtain old | rfl := List.mem_or_eq_of_mem_set isItem
    · obtain ⟨treeId, notEmpty, held, fresh, unstarted⟩ := grown.unnamed other old begun empty
      refine ⟨treeId, notEmpty, grows treeId held, fresh, fun third isThird names => ?_⟩
      obtain old | rfl := List.mem_or_eq_of_mem_set isThird
      · exact unstarted third old names
      · -- the id is taken, so it is not the one that has been added
        have named : task.branchId = treeId := same.symm.trans names
        have isName := own (named ▸ notEmpty)
        rw [isName, named] at absent
        exact absurd held absent
    · refine ⟨name, nonempty, added, isNew, fun third isThird names => ?_⟩
      obtain old | rfl := List.mem_or_eq_of_mem_set isThird
      · by_contra notEarly
        have begunThird := grown.begun third old (by simpa using notEarly) (names ▸ nonempty)
        rw [names] at begunThird
        exact absent begunThird.2
      · rw [names] at empty
        exact absurd empty nonempty

end Grown

/-- The fork is the only call that has moved since `before`. -/
structure Growing (before : Managed) (parentId : BranchId) (ids : List BranchId) (managed : Managed) (call : Call) :
    Prop where
  calls : managed.state.calls = before.state.calls ++ [call]
  starts : call.op.starts = true
  sameIds : call.items.map Task.branchId = ids
  children : ∀ task ∈ call.items, ∃ start, task = .start start ∧ start.parentId = some parentId
  elsewhere : ∀ branchId, branchId ∉ ids → managed.record branchId = before.record branchId
  grown : (∀ task ∈ call.items, task.failing = false) → Grown before.cache managed.cache call.items
  stage : call.stage = .fanOut ∨ ∃ outcome, call.stage = .finished outcome ∧
    ∀ value, outcome = .ok value → ∀ task ∈ call.items, task.finished = true ∧ task.fault? = none

namespace Growing

variable {before managed : Managed} {parentId : BranchId} {ids : List BranchId} {call : Call}

theorem item (growing : Growing before parentId ids managed call) {clock i : Nat} {entered : Bool} {task next : Task}
    {cache : TreeKVCache Nat} (atItem : call.items[i]? = some task) (running : call.isOver = false)
    (stepped : task.step config env managed.state.shared = some (shared, next))
    (called : Managed.Calls managed.cache env entered cache (task.cacheCall clock)) :
    Growing before parentId ids
      ⟨⟨shared, managed.state.calls.set before.state.calls.length { call with items := call.items.set i next }⟩, cache⟩
      { call with items := call.items.set i next } := by
  have member := List.mem_of_getElem? atItem
  have sameId := Task.step_branchId stepped
  obtain ⟨start, rfl, isParent⟩ := growing.children task member
  obtain ⟨⟨_, phase⟩, taken, equal⟩ := Option.map_eq_some_iff.1 stepped
  cases equal
  have within := (List.getElem?_eq_some_iff.1 atItem).1
  have isOwn : start.branchId ∈ ids := growing.sameIds ▸ List.mem_map.2 ⟨_, member, rfl⟩
  refine ⟨set_last growing.calls _, growing.starts, (ids_set atItem sameId).trans growing.sameIds, fun other isItem => ?_,
    fun branchId notMember => ?_, fun going => ?_, ?_⟩
  · obtain old | rfl := List.mem_or_eq_of_mem_set isItem
    · exact growing.children other old
    · exact ⟨_, rfl, isParent⟩
  · have record := congrArg Holding.record (startStep_elsewhere taken (ne_of_mem_of_not_mem isOwn notMember).symm)
    exact record.trans (growing.elsewhere branchId notMember)
  · have goingNext : (Task.start { start with phase := phase }).failing = false :=
      going _ (List.mem_of_getElem? (List.getElem?_set_self within))
    have goingBefore : ∀ other ∈ call.items, other.failing = false := by
      intro other isItem
      obtain ⟨j, atOther⟩ := List.mem_iff_getElem?.1 isItem
      by_cases here : i = j
      · subst here
        rw [atItem] at atOther
        cases atOther
        exact Task.step_going goingNext stepped
      · exact going other (List.mem_of_getElem? ((List.getElem?_set_ne here).trans atOther))
    have grown := growing.grown goingBefore
    obtain ⟨trees, early⟩ | ⟨_, absent, tid, trees⟩ := startStep_grows isParent goingNext taken called
    · exact grown.still atItem sameId trees early
    · refine grown.insert atItem sameId absent ?_ (fun nonempty => childName_given nonempty _ _) trees
      exact TreeKVCache.childName_ne_empty parentId (some start.branchId) managed.cache.childSeq
  · obtain atStage | ⟨outcome, atStage, _⟩ := growing.stage
    · exact .inl atStage
    · unfold Call.isOver at running
      rw [atStage] at running
      cases running

theorem advance (growing : Growing before parentId ids managed call) {next : Call}
    (advanced : call.advance config managed.state.shared = some (shared, next)) :
    Growing before parentId ids ⟨⟨shared, managed.state.calls.set before.state.calls.length next⟩, managed.cache⟩ next := by
  obtain ⟨metrics, closing, closed, rfl⟩ := advance_flags advanced
  obtain atStage | ⟨outcome, atStage, _⟩ := growing.stage
  · obtain ⟨ended, op, items, outcome, finished, concluded⟩ := Call.advance_starts growing.starts atStage advanced
    refine ⟨set_last growing.calls _, op ▸ growing.starts, items ▸ growing.sameIds, items ▸ growing.children, growing.elsewhere,
      items ▸ growing.grown, .inr ⟨outcome, finished, ?_⟩⟩
    rintro value rfl task member
    rw [items] at member
    exact ⟨Call.all_finished ended concluded.2 task member, concluded.2 task member⟩
  · exact absurd atStage (Call.advance_unfinished advanced outcome)

theorem of_reachable {first final : Managed} {opening : Call} (initial : Growing before parentId ids first opening)
    (reached : Reachable (Managed.Step config) (fun _ action => action.isOf before.state.calls.length = true) first final) :
    ∃ call, Growing before parentId ids final call := by
  refine reached.invariant (motive := fun managed => ∃ call, Growing before parentId ids managed call)
    ⟨opening, initial⟩ fun managed action after growing own taken => ?_
  obtain ⟨call, growing⟩ := growing
  have atCall : managed.state.calls[before.state.calls.length]? = some call := by
    rw [growing.calls, List.getElem?_concat_length]
  cases taken.own own atCall with
  | item atItem running _ stepped called => exact ⟨_, growing.item atItem running stepped called⟩
  | advance advanced => exact ⟨_, growing.advance advanced⟩

end Growing

namespace Managed

variable {before after : Managed} {value : Value}

/-- What a fork that returns makes of the trees. -/
structure Forked (before : Managed) (ids : List BranchId) (after : Managed) : Prop where
  elsewhere : ∀ branchId, branchId ∉ ids → after.record branchId = before.record branchId
  keeps : ∀ treeId ∈ before.cache.trees, treeId ∈ after.cache.trees
  isNew : ∀ branchId ∈ ids, branchId ≠ "" → branchId ∉ before.cache.trees
  unnamed : "" ∈ ids → ∃ treeId, treeId ≠ "" ∧ treeId ∈ after.cache.trees ∧ treeId ∉ before.cache.trees ∧ treeId ∉ ids

theorem Alone.fork_returns {parentId : BranchId} {n : Int} {childIds : Option (List BranchId)} {lease : Option Int}
    (alone : before.Alone config (.fork parentId n childIds lease) (.ok value) after) :
    before.Forked (chosenIds parentId (requested n childIds) before.state.shared) after := by
  obtain ⟨env, first, taken, reached, ended⟩ := alone
  obtain ⟨shared, opening, invoked, rfl⟩ := taken.invoked
  cases invoke_move invoked with
  | kills listed => cases listed
  | refused =>
    rw [Managed.unmoved List.getElem?_concat_length rfl reached, List.getElem?_concat_length] at ended
    cases ended
  | @fork _ _ _ _ children shared admits parentLive parents journaled =>
    have queued : ∀ task ∈ children.map (startTask .queued []), ∃ child ∈ children, task = startTask .queued [] child := by
      intro task member
      obtain ⟨child, isChild, rfl⟩ := List.mem_map.1 member
      exact ⟨child, isChild, rfl⟩
    have early : ∀ task ∈ children.map (startTask .queued []), task.early ≠ false := by
      intro task member begun
      obtain ⟨child, _, rfl⟩ := queued task member
      cases begun
    have initial : Growing before parentId (children.map Branch.branchId)
        ⟨⟨shared, before.state.calls ++ [⟨.fork parentId n childIds lease, children.map (startTask .queued []), .fanOut, []⟩]⟩,
          before.cache⟩ ⟨.fork parentId n childIds lease, children.map (startTask .queued []), .fanOut, []⟩ := by
      refine ⟨rfl, rfl, ?_, fun task member => ?_, fun branchId notMember => ?_, fun _ => ⟨fun _ held => held, ?_, ?_⟩, .inl rfl⟩
      · rw [List.map_map]
        rfl
      · obtain ⟨child, isChild, rfl⟩ := queued task member
        exact ⟨_, rfl, parents child isChild⟩
      · exact (journaled.branches branchId).trans (by rw [find?_of_notMem notMember, Option.none_or]; rfl)
      · exact fun task member begun => absurd begun (early task member)
      · exact fun task member begun => absurd begun (early task member)
    obtain ⟨call, growing⟩ := Growing.of_reachable initial reached
    rw [growing.calls, List.getElem?_concat_length, Option.map_some] at ended
    have concluded : ∀ task ∈ call.items, task.finished = true ∧ task.fault? = none := by
      obtain atStage | ⟨outcome, atStage, concluded⟩ := growing.stage
      · rw [atStage] at ended
        cases ended
      · rw [atStage] at ended
        cases ended
        exact concluded value rfl
    have begun : ∀ task ∈ call.items, task.early = false := by
      intro task member
      obtain ⟨start, rfl, _⟩ := growing.children task member
      have finished := (concluded _ member).1
      obtain ⟨branchId, parentId, tokens, phase⟩ := start
      cases phase with
      | finished outcome => rfl
      | _ => cases finished
    have grown := growing.grown fun task member => Task.going_of_finished (concluded task member).1 (concluded task member).2
    rw [← admitFork_chosen admits]
    refine ⟨growing.elsewhere, grown.keeps, fun branchId member nonempty => ?_, fun member => ?_⟩
    · rw [← growing.sameIds] at member
      obtain ⟨task, isItem, rfl⟩ := List.mem_map.1 member
      exact (grown.begun task isItem (begun task isItem) nonempty).1
    · rw [← growing.sameIds] at member ⊢
      obtain ⟨task, isItem, isEmpty⟩ := List.mem_map.1 member
      obtain ⟨treeId, nonempty, held, isNew, unstarted⟩ := grown.unnamed task isItem (begun task isItem) isEmpty
      refine ⟨treeId, nonempty, held, isNew, fun owned => ?_⟩
      obtain ⟨other, isOther, names⟩ := List.mem_map.1 owned
      have impossible := (unstarted other isOther names).symm.trans (begun other isOther)
      cases impossible

/-! ## A stray tree stays -/

/-- The cache has a tree that is no branch of the registry. -/
def Strayed (managed : Managed) : Prop := ∃ treeId, treeId ≠ "" ∧ treeId ∈ managed.cache.trees ∧ managed.record treeId = none

/-- A fork that returns has not taken the id of a stray tree. -/
theorem Forked.strayed {ids : List BranchId} (forked : before.Forked ids after) (strayed : before.Strayed) :
    after.Strayed := by
  obtain ⟨treeId, nonempty, held, unrecorded⟩ := strayed
  have notChild : treeId ∉ ids := fun member => forked.isNew treeId member nonempty held
  exact ⟨treeId, nonempty, forked.keeps treeId held, (forked.elsewhere treeId notChild).trans unrecorded⟩

/-- Where every branch has its tree, a child with the empty id makes a stray one. -/
theorem Forked.strays {ids : List BranchId} (forked : before.Forked ids after) (unnamed : "" ∈ ids)
    (accounted : ∀ branchId, branchId ≠ "" → before.record branchId ≠ none → branchId ∈ before.cache.trees) :
    after.Strayed := by
  obtain ⟨treeId, nonempty, held, isNew, notChild⟩ := forked.unnamed unnamed
  refine ⟨treeId, nonempty, held, (forked.elsewhere treeId notChild).trans ?_⟩
  by_contra recorded
  exact isNew (accounted treeId nonempty recorded)

theorem Pruned.strayed {winnerId : BranchId} (pruned : before.Pruned (before.state.shared.losers winnerId) value after)
    (strayed : before.Strayed) : after.Strayed := by
  obtain ⟨treeId, nonempty, held, unrecorded⟩ := strayed
  have notLoser : treeId ∉ before.state.shared.losers winnerId := by
    intro isLoser
    exact Dict.get?_eq_none.1 unrecorded (mem_losers_iff.1 isLoser).1
  obtain ⟨record, trees, _⟩ := pruned.spares treeId notLoser
  refine ⟨treeId, nonempty, ?_, record.trans unrecorded⟩
  rw [Dict.mem_iff_get?] at held ⊢
  rw [trees]
  exact held

end Managed

end Agentfork.Orchestrator

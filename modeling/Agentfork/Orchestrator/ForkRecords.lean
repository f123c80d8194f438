import Agentfork.Orchestrator.LiveSequences

/-! # What a fork leaves in the registry

However a fork ends that runs alone, the branches that have become live are those
that its starts have returned: a start that raises has left no live record, and
one that the loop has not come to has not begun. Nothing is asked of the ids, nor of
the cache: its calls may end in any way. -/

namespace Agentfork.Orchestrator

open Shared Transition

variable {config : Config}

namespace Shared

theorem chosenIds_length (parentId : BranchId) (asked : List (Option BranchId)) (shared : Shared) :
    (chosenIds parentId asked shared).length = asked.length := by
  induction asked generalizing shared with
  | nil => rfl
  | cons given rest inductionHypothesis => exact congrArg (· + 1) (inductionHypothesis _)

/-- As many children as asked for. -/
theorem admitFork_length {failure : Option Fault} {now : Int} {parentId : BranchId} {n : Nat}
    {childIds : Option (List BranchId)} {lease : Option Int} {shared after : Shared} {children : List Branch}
    (admits : admitFork config failure now parentId n childIds lease shared = (.ok children, after)) :
    children.length = n := by
  have chosen := congrArg List.length (admitFork_chosen admits)
  rw [List.length_map, chosenIds_length] at chosen
  rw [chosen]
  cases childIds with
  | none => exact List.length_replicate
  | some ids =>
    unfold admitFork at admits
    split at admits
    · cases admits
    · split at admits
      · cases admits
      · split at admits
        · cases admits
        · next sameLength =>
          simpa [requested] using sameLength

end Shared

/-! ## A call that runs alone -/

namespace State

/-- What a call can do by itself. -/
inductive Own (config : Config) (state : State) (c : Nat) (call : Call) : Action → State → Prop where
  | item {i : Nat} {env : Env} {task next : Task} {shared : Shared}
    (atItem : call.items[i]? = some task) (running : call.isOver = false)
    (allowed : task.queued = true → call.mayStart config i = true)
    (stepped : task.step config env state.shared = some (shared, next)) :
    Own config state c call (.item c i env)
      ⟨shared, state.calls.set c { call with items := call.items.set i next }⟩
  | advance {shared : Shared} {next : Call} (advanced : call.advance config state.shared = some (shared, next)) :
    Own config state c call (.advance c) ⟨shared, state.calls.set c next⟩

variable {state after first final : State} {action : Action} {c : Nat} {call : Call}

theorem Step.own (taken : state.Step config action after) (own : action.isOf c)
    (atCall : state.calls[c]? = some call) : state.Own config c call action after := by
  cases taken.move with
  | journal | invoke => cases own
  | item atOther atItem running allowed stepped =>
    cases own
    cases atCall.symm.trans atOther
    exact .item atItem running allowed stepped
  | advance atOther _ _ _ advanced =>
    cases own
    cases atCall.symm.trans atOther
    exact .advance advanced

/-- A call that is over makes no step. -/
theorem unmoved (atCall : first.calls[c]? = some call) (isOver : call.isOver = true)
    (reached : Reachable (State.Step config) (fun _ action => action.isOf c) first final) : final = first := by
  induction reached with
  | refl => rfl
  | tail _ own taken inductionHypothesis =>
    subst inductionHypothesis
    cases taken.own own atCall with
    | item _ running =>
      rw [isOver] at running
      cases running
    | advance advanced =>
      unfold Call.isOver at isOver
      split at isOver
      · next outcome atStage => exact absurd atStage (Call.advance_unfinished advanced outcome)
      · cases isOver

/-- From `before` to `after` a call is made and ends, and nothing else moves. -/
def Alone (config : Config) (before : State) (op : Op) (outcome : Except Fault Value) (after : State) : Prop :=
  ∃ env first, before.Step config (.invoke op env) first ∧
    Reachable (State.Step config) (fun _ action => action.isOf before.calls.length) first after ∧
    (after.calls[before.calls.length]?).map Call.stage = some (.finished outcome)

end State

/-- What runs alone over a `TreeKVCache` runs alone. -/
theorem Managed.Alone.state {before after : Managed} {op : Op} {outcome : Except Fault Value}
    (alone : before.Alone config op outcome after) : before.state.Alone config op outcome after.state := by
  obtain ⟨env, first, taken, reached, ended⟩ := alone
  refine ⟨env, first.state, taken.moved, ?_, ended⟩
  clear taken ended
  induction reached with
  | refl => exact .refl
  | @tail middle final action _ own taken inductionHypothesis =>
    cases action with
    | extend => cases own
    | take action clock entered =>
      refine inductionHypothesis.tail ?_ taken.moved
      cases action with
      | invoke => cases own
      | item | advance =>
        have same := of_decide_eq_true own
        exact same

/-! ## The records of the children -/

/-- The fork of `children` is the only call that has moved since `before`. -/
structure Sprouting (config : Config) (before : State) (parentId : BranchId) (children : List Branch) (state : State)
    (call : Call) : Prop where
  calls : state.calls = before.calls ++ [call]
  starts : call.op.starts = true
  length : call.items.length = children.length
  /-- the record of a child, whatever the cache holds for it -/
  items : ∀ (i : Nat) (child : Branch), children[i]? = some child → ∃ phase,
    call.items[i]? = some (.start ⟨child.branchId, some parentId, [], phase⟩) ∧
      phase.Plants child none (state.shared.branches.get? child.branchId) none
  elsewhere : ∀ branchId, branchId ∉ children.map Branch.branchId →
    state.shared.branches.get? branchId = before.shared.branches.get? branchId
  inOrder : call.threaded config = false → InOrder call.items
  stage : call.stage = .fanOut ∨ ∃ outcome, call.stage = .finished outcome ∧ call.fanOutEnded config = true ∧
    call.Concluded outcome

namespace Sprouting

variable {before state : State} {parentId : BranchId} {children : List Branch} {call : Call}

theorem atCall (sprouting : Sprouting config before parentId children state call) :
    state.calls[before.calls.length]? = some call := by
  rw [sprouting.calls, List.getElem?_concat_length]

/-- The first section of a fork. -/
theorem start {shared : Shared} {op : Op} (journaled : Journaled config before.shared children shared)
    (starts : op.starts = true) (parents : ∀ child ∈ children, child.parentId = some parentId) :
    Sprouting config before parentId children
      ⟨shared, before.calls ++ [⟨op, children.map (startTask .queued []), .fanOut, []⟩]⟩
      ⟨op, children.map (startTask .queued []), .fanOut, []⟩ := by
  refine ⟨rfl, starts, List.length_map _, fun i child atChild => ⟨.queued, ?_, ?_⟩, fun branchId notMember => ?_,
    fun _ i j first second _ _ atSecond notQueued => ?_, .inl rfl⟩
  · rw [List.getElem?_map, atChild, ← parents child (List.mem_of_getElem? atChild)]
    rfl
  · change shared.branches.get? child.branchId = some child
    rw [journaled.branches, find?_of_mem journaled.distinct (List.mem_of_getElem? atChild), Option.some_or]
  · exact (journaled.branches branchId).trans (by rw [find?_of_notMem notMember, Option.none_or])
  · obtain ⟨child, _, rfl⟩ := List.mem_map.1 (List.mem_of_getElem? atSecond)
    cases notQueued

theorem child_of_item (sprouting : Sprouting config before parentId children state call) {i : Nat} {task : Task}
    (atItem : call.items[i]? = some task) : ∃ child phase, children[i]? = some child ∧
      task = .start ⟨child.branchId, some parentId, [], phase⟩ ∧
      phase.Plants child none (state.shared.branches.get? child.branchId) none := by
  have inside : i < children.length := sprouting.length ▸ (List.getElem?_eq_some_iff.1 atItem).1
  have atChild : children[i]? = some children[i] := List.getElem?_eq_getElem inside
  obtain ⟨phase, isItem, plants⟩ := sprouting.items i children[i] atChild
  rw [atItem] at isItem
  cases isItem
  exact ⟨children[i], phase, atChild, rfl, plants⟩

theorem item (sprouting : Sprouting config before parentId children state call)
    (distinct : (children.map Branch.branchId).Nodup) {i : Nat} {env : Env} {task next : Task} {shared : Shared}
    (atItem : call.items[i]? = some task) (running : call.isOver = false)
    (allowed : task.queued = true → call.mayStart config i = true)
    (stepped : task.step config env state.shared = some (shared, next)) :
    Sprouting config before parentId children
      ⟨shared, state.calls.set before.calls.length { call with items := call.items.set i next }⟩
      { call with items := call.items.set i next } := by
  have unfinished : task.finished = false := by
    by_contra finished
    rw [Task.step_finished (by simpa using finished)] at stepped
    cases stepped
  have atStage : call.stage = .fanOut := by
    refine sprouting.stage.resolve_right fun ⟨outcome, atStage, _⟩ => ?_
    unfold Call.isOver at running
    rw [atStage] at running
    cases running
  obtain ⟨child, phase, atChild, rfl, plants⟩ := sprouting.child_of_item atItem
  have isChild := List.mem_of_getElem? atChild
  have member : child.branchId ∈ children.map Branch.branchId := List.mem_map.2 ⟨child, isChild, rfl⟩
  obtain ⟨⟨_, moved⟩, taken, equal⟩ := Option.map_eq_some_iff.1 stepped
  cases equal
  -- no step of the branch is seen by the other ones
  have frame : ∀ other, other ≠ child.branchId → shared.branches.get? other = state.shared.branches.get? other :=
    fun other differs => congrArg Holding.record (startStep_elsewhere taken differs)
  have inside := (List.getElem?_eq_some_iff.1 atItem).1
  refine ⟨set_last sprouting.calls _, sprouting.starts, (List.length_set ..).trans sprouting.length,
    fun j other atOther => ?_, fun branchId notMember => ?_, fun loop => ?_, .inl atStage⟩
  · by_cases here : i = j
    · subst here
      rw [atChild] at atOther
      cases atOther
      have plants : (StartTask.mk child.branchId (some parentId) [] phase).phase.Plants child none
        (state.shared.branches.get? child.branchId) none := plants
      exact ⟨moved, List.getElem?_set_self inside, startStep_plants rfl rfl plants taken (fun _ _ => rfl) fun _ => rfl⟩
    · obtain ⟨otherPhase, isOther, otherPlants⟩ := sprouting.items j other atOther
      have differs : other.branchId ≠ child.branchId := fun same => here (index_of_key distinct atChild atOther same.symm)
      refine ⟨otherPhase, (List.getElem?_set_ne here).trans isOther, ?_⟩
      rw [frame other.branchId differs]
      exact otherPlants
  · exact (frame branchId (ne_of_mem_of_not_mem member notMember).symm).trans (sprouting.elsewhere branchId notMember)
  · have loop : call.threaded config = false := by
      rw [Call.threaded, List.length_set] at loop
      exact loop
    exact (sprouting.inOrder loop).set atItem unfinished fun queued => Call.turn_of_mayStart atStage loop (allowed queued)

theorem advance (sprouting : Sprouting config before parentId children state call) {shared : Shared} {next : Call}
    (advanced : call.advance config state.shared = some (shared, next)) :
    Sprouting config before parentId children
      ⟨shared, state.calls.set before.calls.length next⟩ next := by
  obtain atStage | ⟨outcome, atStage, _⟩ := sprouting.stage
  · obtain ⟨ended, op, items, outcome, finished, concluded⟩ := Call.advance_starts sprouting.starts atStage advanced
    obtain ⟨metrics, closing, closed, rfl⟩ := advance_flags advanced
    have sameThreads : next.threaded config = call.threaded config := by rw [Call.threaded, Call.threaded, items]
    refine ⟨set_last sprouting.calls next, op ▸ sprouting.starts, items ▸ sprouting.length, items ▸ sprouting.items,
      sprouting.elsewhere, fun loop => ?_, .inr ⟨outcome, finished, ?_, ?_⟩⟩
    · rw [items]
      exact sprouting.inOrder (sameThreads ▸ loop)
    · unfold Call.fanOutEnded at ended ⊢
      rw [sameThreads, items]
      exact ended
    · unfold Call.Concluded at concluded ⊢
      rw [op, items]
      exact concluded
  · exact absurd atStage (Call.advance_unfinished advanced outcome)

theorem of_reachable {first final : State} {opening : Call}
    (initial : Sprouting config before parentId children first opening)
    (distinct : (children.map Branch.branchId).Nodup)
    (reached : Reachable (State.Step config) (fun _ action => action.isOf before.calls.length) first final) :
    ∃ call, call.op = opening.op ∧ Sprouting config before parentId children final call := by
  refine reached.invariant
    (motive := fun state => ∃ call, call.op = opening.op ∧ Sprouting config before parentId children state call)
    ⟨opening, rfl, initial⟩ fun state action after sprouting own taken => ?_
  obtain ⟨call, op, sprouting⟩ := sprouting
  cases taken.own own sprouting.atCall with
  | item atItem running allowed stepped =>
    refine ⟨_, ?_, sprouting.item distinct atItem running allowed stepped⟩
    exact op
  | advance advanced => exact ⟨_, (advance_op advanced).trans op, sprouting.advance advanced⟩

/-- When the fan-out has ended, each start has ended too or has not begun. -/
theorem at_end (sprouting : Sprouting config before parentId children state call) (ended : call.fanOutEnded config = true)
    {i : Nat} {task : Task} (atItem : call.items[i]? = some task) : task.finished = true ∨ task.queued = true := by
  unfold Call.fanOutEnded at ended
  rw [Bool.or_eq_true, Bool.and_eq_true, List.all_eq_true, List.any_eq_true, Bool.not_eq_true'] at ended
  obtain finished | ⟨loop, aborting, member, aborts⟩ := ended
  · exact .inl (finished task (List.mem_of_getElem? atItem))
  · obtain ⟨j, atAborting⟩ := List.mem_iff_getElem?.1 member
    obtain earlier | rfl | later := Nat.lt_trichotomy i j
    · -- the loop has come to the aborting start after this one
      have notQueued : aborting.queued = false := by
        obtain ⟨child, phase, _, rfl, _⟩ := sprouting.child_of_item atAborting
        cases phase with
        | finished => rfl
        | _ => cases aborts
      exact .inl (sprouting.inOrder loop i j task aborting earlier atItem atAborting notQueued).1
    · rw [atItem] at atAborting
      cases atAborting
      obtain ⟨child, phase, _, rfl, _⟩ := sprouting.child_of_item atItem
      cases phase with
      | finished => exact .inl rfl
      | _ => cases aborts
    · -- it has not come to this one
      cases queued : task.queued with
      | true => exact .inr rfl
      | false =>
        have notAborting := (sprouting.inOrder loop j i aborting task later atAborting atItem queued).2
        rw [aborts] at notAborting
        cases notAborting

/-- A start that has returned its branch has made it live. -/
theorem child_of_branch (sprouting : Sprouting config before parentId children state call) {branch : Branch}
    (isBranch : branch ∈ call.items.filterMap Task.branch?) :
    ∃ child ∈ children, branch = setState .live child ∧ state.shared.branches.get? child.branchId = some branch := by
  obtain ⟨task, isTask, returned⟩ := List.mem_filterMap.1 isBranch
  obtain ⟨i, atItem⟩ := List.mem_iff_getElem?.1 isTask
  obtain ⟨child, phase, atChild, rfl, plants⟩ := sprouting.child_of_item atItem
  cases phase with
  | finished outcome =>
    cases outcome with
    | ok started =>
      cases returned
      exact ⟨child, List.mem_of_getElem? atChild, plants.1, plants.2.1⟩
    | error fault => cases returned
  | _ => cases returned

theorem branches_sublist (sprouting : Sprouting config before parentId children state call) :
    ((call.items.filterMap Task.branch?).map Branch.branchId).Sublist (children.map Branch.branchId) := by
  have ids : call.items.map Task.branchId = children.map Branch.branchId := by
    refine Task.ids_of_items sprouting.length fun i child atChild => ?_
    obtain ⟨phase, isItem, _⟩ := sprouting.items i child atChild
    exact ⟨_, isItem, rfl⟩
  rw [← ids]
  refine Task.branches_sublist fun task member branch isBranch => ?_
  obtain ⟨i, atItem⟩ := List.mem_iff_getElem?.1 member
  obtain ⟨child, phase, _, rfl, plants⟩ := sprouting.child_of_item atItem
  cases phase with
  | finished outcome =>
    cases outcome with
    | ok started =>
      cases isBranch
      exact (congrArg Branch.branchId plants.1).trans rfl
    | error fault => cases isBranch
  | _ => cases isBranch

/-- Starts that have not raised have returned their branches. -/
theorem length_of_returned (sprouting : Sprouting config before parentId children state call)
    (ended : call.fanOutEnded config = true) (noFault : ∀ task ∈ call.items, task.fault? = none) :
    (call.items.filterMap Task.branch?).length = children.length := by
  rw [← sprouting.length, List.filterMap_length_eq_length]
  intro task member
  have finished := Call.all_finished ended noFault task member
  obtain ⟨i, atItem⟩ := List.mem_iff_getElem?.1 member
  obtain ⟨child, phase, _, rfl, _⟩ := sprouting.child_of_item atItem
  cases phase with
  | finished outcome =>
    cases outcome with
    | ok branch => rfl
    | error fault => cases noFault _ member
  | _ => cases finished

/-- The live children are those that the starts have returned. -/
theorem isLive_child_iff (sprouting : Sprouting config before parentId children state call)
    (forking : ∀ child ∈ children, child.state = .forking) (ended : call.fanOutEnded config = true)
    {branchId : BranchId} :
    (branchId ∈ children.map Branch.branchId ∧ state.shared.isLive branchId = true) ↔
      branchId ∈ (call.items.filterMap Task.branch?).map Branch.branchId := by
  constructor
  · rintro ⟨member, isLive⟩
    obtain ⟨child, isChild, rfl⟩ := List.mem_map.1 member
    obtain ⟨i, atChild⟩ := List.mem_iff_getElem?.1 isChild
    obtain ⟨phase, atItem, plants⟩ := sprouting.items i child atChild
    obtain ⟨branch, recorded, atState⟩ := Shared.isLive_iff.1 isLive
    rw [recorded] at plants
    obtain ⟨rfl, _⟩ := plants.live (forking child isChild) atState
    refine List.mem_map.2 ⟨setState .live child, List.mem_filterMap.2 ⟨_, List.mem_of_getElem? atItem, ?_⟩, rfl⟩
    have notChild : some (setState .live child) ≠ some child := by
      intro same
      have atForking := (congrArg Branch.state (Option.some.inj same)).trans (forking child isChild)
      cases atForking
    obtain finished | queued := sprouting.at_end ended atItem
    · cases phase with
      | finished outcome =>
        cases outcome with
        | ok started => exact congrArg some (Option.some.inj plants.2.1).symm
        | error fault => exact absurd (plants.resolve_right nofun) notChild
      | _ => cases finished
    · cases phase with
      | queued => exact absurd plants notChild
      | _ => cases queued
  · intro member
    obtain ⟨branch, isBranch, rfl⟩ := List.mem_map.1 member
    obtain ⟨child, isChild, rfl, recorded⟩ := sprouting.child_of_branch isBranch
    exact ⟨List.mem_map.2 ⟨child, isChild, rfl⟩, Shared.isLive_iff.2 ⟨_, recorded, rfl⟩⟩

end Sprouting

/-! ## What a fork leaves -/

namespace State

variable {before first after : State} {outcome : Except Fault Value}

/-- The branches that the starts of the calls since `before` have returned. -/
def startedSince (before after : State) : List Branch :=
  (after.calls.drop before.calls.length).flatMap fun call => call.items.filterMap Task.branch?

theorem startedSince_of_calls {call : Call} (calls : after.calls = before.calls ++ [call]) :
    before.startedSince after = call.items.filterMap Task.branch? := by
  unfold startedSince
  rw [calls, List.drop_left, List.flatMap_singleton]

theorem startedSince_self (state : State) : state.startedSince state = [] := by
  unfold startedSince
  rw [List.drop_length, List.flatMap_nil]

/-- What has been started in two stretches has been started in the first or in the second. -/
theorem startedSince_append {middle : State} (first : before.calls <+: middle.calls) (rest : middle.calls <+: after.calls) :
    before.startedSince after = before.startedSince middle ++ middle.startedSince after := by
  obtain ⟨begun, isMiddle⟩ := first
  obtain ⟨later, isAfter⟩ := rest
  unfold startedSince
  rw [← isAfter, List.drop_left, ← isMiddle, List.append_assoc, List.drop_left, List.drop_left, List.flatMap_append]

/-- No branch has been started or killed: the same ones are live, and no start of a call
since has returned. -/
structure Untouched (before after : State) : Prop where
  live : ∀ branchId, after.shared.isLive branchId = before.shared.isLive branchId
  begun : before.calls <+: after.calls
  started : before.startedSince after = []

namespace Untouched

theorem refl (state : State) : state.Untouched state := ⟨fun _ => rfl, List.prefix_rfl, state.startedSince_self⟩

theorem trans {middle : State} (first : before.Untouched middle) (rest : middle.Untouched after) :
    before.Untouched after := by
  refine ⟨fun branchId => (rest.live branchId).trans (first.live branchId), first.begun.trans rest.begun, ?_⟩
  rw [startedSince_append first.begun rest.begun, first.started, rest.started, List.append_nil]

end Untouched

/-- What a fork leaves in the registry, however it ends. -/
structure Forks (before : State) (parentId : BranchId) (after : State) : Prop where
  begun : before.calls <+: after.calls
  live : ∀ branchId, after.shared.isLive branchId = true ↔
    before.shared.isLive branchId = true ∨ branchId ∈ (before.startedSince after).map Branch.branchId
  new : ∀ branch ∈ before.startedSince after,
    before.shared.branches.get? branch.branchId = none ∧ branch.parentId = some parentId
  distinct : ((before.startedSince after).map Branch.branchId).Nodup

namespace Forks

variable {parentId : BranchId}

theorem refl (state : State) (parentId : BranchId) : state.Forks parentId state := by
  refine ⟨List.prefix_rfl, fun branchId => ?_, fun branch member => ?_, ?_⟩
  · rw [state.startedSince_self]
    exact (or_iff_left List.not_mem_nil).symm
  · rw [state.startedSince_self] at member
    cases member
  · rw [state.startedSince_self]
    exact List.nodup_nil

/-- Nothing more is started, so the children of the fork are the ones that have been. -/
theorem started (forks : before.Forks parentId after) {later : State} (untouched : after.Untouched later) :
    before.startedSince later = before.startedSince after := by
  rw [startedSince_append forks.begun untouched.begun, untouched.started, List.append_nil]

theorem later {later : State} (forks : before.Forks parentId after) (untouched : after.Untouched later) :
    before.Forks parentId later := by
  have same := forks.started untouched
  refine ⟨forks.begun.trans untouched.begun, fun branchId => ?_, fun branch member => ?_, ?_⟩
  · rw [untouched.live, same]
    exact forks.live branchId
  · exact forks.new branch (same ▸ member)
  · rw [same]
    exact forks.distinct

end Forks

theorem Forks.refused {parentId : BranchId} {shared : Shared} {op : Op} {outcome : Except Fault Value}
    (quiet : Quiet before.shared shared) :
    before.Forks parentId ⟨shared, before.calls ++ [ended op outcome]⟩ := by
  have nothing : before.startedSince ⟨shared, before.calls ++ [ended op outcome]⟩ = [] :=
    @startedSince_of_calls before ⟨shared, before.calls ++ [ended op outcome]⟩ (ended op outcome) rfl
  refine ⟨List.prefix_append .., fun branchId => ?_, fun branch member => ?_, ?_⟩
  · rw [nothing, Shared.isLive_congr (quiet.branches branchId)]
    exact (or_iff_left List.not_mem_nil).symm
  · rw [nothing] at member
    cases member
  · rw [nothing]
    exact List.nodup_nil

end State

theorem Sprouting.forks {before state : State} {parentId : BranchId} {children : List Branch} {call : Call}
    {shared : Shared} (sprouting : Sprouting config before parentId children state call)
    (journaled : Journaled config before.shared children shared)
    (parents : ∀ child ∈ children, child.parentId = some parentId)
    (ended : call.fanOutEnded config = true) : before.Forks parentId state := by
  have absent : ∀ child ∈ children, before.shared.branches.get? child.branchId = none :=
    fun child member => Dict.get?_eq_none.2 (journaled.absent child member)
  have started := State.startedSince_of_calls sprouting.calls
  refine ⟨sprouting.calls ▸ List.prefix_append .., fun branchId => ?_, fun branch member => ?_, ?_⟩
  · rw [started, ← sprouting.isLive_child_iff journaled.forking ended]
    by_cases member : branchId ∈ children.map Branch.branchId
    · obtain ⟨child, isChild, rfl⟩ := List.mem_map.1 member
      have wasDead : before.shared.isLive child.branchId ≠ true := by
        intro wasLive
        obtain ⟨branch, recorded, _⟩ := Shared.isLive_iff.1 wasLive
        rw [absent child isChild] at recorded
        cases recorded
      exact ⟨fun isLive => .inr ⟨member, isLive⟩, fun either => (either.resolve_left wasDead).2⟩
    · rw [Shared.isLive_congr (sprouting.elsewhere branchId member)]
      exact ⟨.inl, fun either => either.resolve_right fun both => member both.1⟩
  · rw [started] at member
    obtain ⟨child, isChild, rfl, _⟩ := sprouting.child_of_branch member
    exact ⟨absent child isChild, parents child isChild⟩
  · rw [started]
    exact journaled.distinct.sublist sprouting.branches_sublist

namespace State

variable {before after : State} {outcome : Except Fault Value}

/-- A fork, however it ends; one that returns has started all of its children. -/
theorem Alone.forks {parentId : BranchId} {n : Nat} {childIds : Option (List BranchId)} {lease : Option Int}
    (alone : before.Alone config (.fork parentId n childIds lease) outcome after) :
    before.Forks parentId after ∧ ∀ branches, outcome = .ok (.branches branches) →
      branches = before.startedSince after ∧ branches.length = n := by
  obtain ⟨env, first, taken, reached, isOutcome⟩ := alone
  obtain ⟨⟨shared, opening⟩, invoked, rfl⟩ := Option.map_eq_some_iff.1 taken
  cases invoke_move invoked with
  | kills listed => cases listed
  | refused _ quiet =>
    rw [State.unmoved List.getElem?_concat_length rfl reached] at isOutcome ⊢
    rw [List.getElem?_concat_length] at isOutcome
    cases isOutcome
    exact ⟨.refused quiet, fun branches returned => by cases returned⟩
  | fork admits _ parents journaled =>
    obtain ⟨call, op, sprouting⟩ := Sprouting.of_reachable (.start journaled rfl parents) journaled.distinct reached
    rw [sprouting.atCall, Option.map_some] at isOutcome
    obtain atStage | ⟨other, atStage, hasEnded, concluded⟩ := sprouting.stage
    · rw [atStage] at isOutcome
      cases isOutcome
    · rw [atStage] at isOutcome
      cases isOutcome
      refine ⟨sprouting.forks journaled parents hasEnded, fun branches returned => ?_⟩
      subst returned
      obtain ⟨answer, noFault⟩ := concluded
      rw [op] at answer
      cases answer
      refine ⟨(startedSince_of_calls sprouting.calls).symm, ?_⟩
      rw [sprouting.length_of_returned hasEnded noFault, admitFork_length admits]

end State

end Agentfork.Orchestrator

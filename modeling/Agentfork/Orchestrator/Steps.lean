import Agentfork.Orchestrator.CallMoves
import Agentfork.Orchestrator.Discipline

/-! # What a step of the orchestrator can do

A step advances one task, journals new branches, or is silent and at most adds
kills that have not begun. -/

namespace Agentfork.Orchestrator

open Shared

/-! ## Silent sections -/

theorem renewLease_silent (config : Config) (failure : Option Fault) (now : Int) (branchId : BranchId)
    (lease : Int) (shared : Shared) :
    Silent config shared (renewLease config failure now branchId lease shared).2 := by
  obtain ⟨fault, failed, equal, quiet⟩ | ⟨previous, found, equal⟩ :=
    renewLease_cases config failure now branchId lease shared
  · rw [equal]
    exact Silent.of_quiet quiet
  · rw [equal]
    refine ⟨fun origin other => ?_, fun synced => synced_write fun other branch stored => ?_,
      write_spawning _ _, write_killing _ _, write_started _ _⟩
    · rw [view_replaced]
      split
      · next here =>
        have same : (shared.view origin branchId).record = some (previous.state, previous.parentId) :=
          view_record_of_get? found
        rw [here, ← same]
      · rfl
    · rw [Dict.get?_insert] at stored
      split at stored
      · next here =>
        cases stored
        exact (synced.keyed branchId previous found).trans here.symm
      · exact synced.keyed other branch stored

/-! ## Tasks that have not begun -/

def Dormant (items : List Task) : Prop := ∀ task ∈ items, task.active = false

theorem dormant_nil : Dormant [] := fun _ member => absurd member List.not_mem_nil

theorem dormant_kills (allowClosing : Bool) (branchIds : List BranchId) :
    Dormant (branchIds.map (killTask allowClosing)) := by
  intro task member
  obtain ⟨branchId, _, rfl⟩ := List.mem_map.1 member
  rfl

theorem active_startTask {phase : StartPhase} (fresh : phase = .queued ∨ phase = .kvStart)
    (tokens : List Nat) (branch : Branch) : (startTask phase tokens branch).active = true := by
  obtain rfl | rfl := fresh <;> rfl

/-! ## Calls -/

theorem invoke_cases {config : Config} {env : Env} {shared after : Shared} {op : Op} {call : Call}
    (invoked : invoke config env shared op = some (after, call)) :
    Silent config shared after ∧ Dormant call.items ∨
    ∃ children phase tokens, Journaled config shared children after ∧
      (phase = .queued ∨ phase = .kvStart) ∧ call.items = children.map (startTask phase tokens) ∧
      call.stage = .fanOut := by
  cases invoke_move invoked with
  | refused _ quiet => exact .inl ⟨Silent.of_quiet quiet, dormant_nil⟩
  | createParent _ _ _ journaled => exact .inr ⟨_, .kvStart, _, journaled, .inr rfl, rfl, rfl⟩
  | fork _ _ _ journaled => exact .inr ⟨_, .queued, [], journaled, .inl rfl, rfl, rfl⟩
  | @renewLease branchId lease _ _ renews =>
    have silent := renewLease_silent config env.persist env.now branchId lease shared
    rw [renews] at silent
    exact .inl ⟨silent, dormant_nil⟩
  | kills => exact .inl ⟨Silent.refl shared, dormant_kills _ _⟩
  | closed | closing => exact .inl ⟨Silent.refl shared, dormant_nil⟩
  | closes => exact .inl ⟨Silent.flags shared shared.metrics true shared.closed, dormant_nil⟩

theorem invoke_op {config : Config} {env : Env} {shared after : Shared} {op : Op} {call : Call}
    (invoked : invoke config env shared op = some (after, call)) : call.op = op := by
  cases invoke_move invoked <;> rfl

/-- The later sections of a call touch counters and closing flags only. -/
theorem advance_flags {config : Config} {shared after : Shared} {call next : Call}
    (advanced : call.advance config shared = some (after, next)) :
    ∃ metrics closing closed, after = { shared with metrics := metrics, closing := closing, closed := closed } := by
  cases Call.advance_move advanced with
  | fanOut _ _ _ move => cases move <;> exact ⟨_, _, _, rfl⟩
  | tally | sweep | retryRaised | retried | drained | follows => exact ⟨_, _, _, rfl⟩

/-- A call stays the call that was made. -/
theorem advance_op {config : Config} {shared after : Shared} {call next : Call}
    (advanced : call.advance config shared = some (after, next)) : next.op = call.op := by
  cases Call.advance_move advanced with
  | fanOut _ _ _ move => cases move <;> rfl
  | sweep _ move => cases move <;> rfl
  | tally | retryRaised | retried | drained | follows => rfl

/-- The later sections of a call run no task; they may add kills. -/
theorem advance_cases {config : Config} {shared after : Shared} {call next : Call}
    (advanced : call.advance config shared = some (after, next)) :
    Silent config shared after ∧ ∃ more, Dormant more ∧ next.items = call.items ++ more := by
  have same : call.items = call.items ++ [] := (List.append_nil _).symm
  cases Call.advance_move advanced with
  | fanOut _ _ _ move => cases move <;> exact ⟨Silent.flags shared _ _ _, [], dormant_nil, same⟩
  | sweep _ move =>
    cases move with
    | ends | reaped | gone | waits => exact ⟨Silent.refl shared, [], dormant_nil, same⟩
    | killsAgain => exact ⟨Silent.refl shared, _, dormant_kills false [_], rfl⟩
  | tally => exact ⟨Silent.flags shared _ _ _, [], dormant_nil, same⟩
  | retryRaised | retried | follows => exact ⟨Silent.refl shared, [], dormant_nil, same⟩
  | drained => exact ⟨Silent.refl shared, _, dormant_kills true _, rfl⟩

/-! ## The whole system -/

/-- What one step can do. -/
inductive Move (config : Config) (before : State) : Action → State → Prop where
  | item {c i : Nat} {env : Env} {call : Call} {task next : Task} {shared : Shared}
    (atCall : before.calls[c]? = some call) (atItem : call.items[i]? = some task)
    (running : call.isOver = false) (allowed : task.queued = true → call.mayStart config i = true)
    (stepped : task.step config env before.shared = some (shared, next)) :
    Move config before (.item c i env)
      ⟨shared, before.calls.set c { call with items := call.items.set i next }⟩
  | journal {op : Op} {env : Env} {children : List Branch} {phase : StartPhase} {tokens : List Nat}
    {shared : Shared} {call : Call} (journaled : Journaled config before.shared children shared)
    (fresh : phase = .queued ∨ phase = .kvStart)
    (items : call.items = children.map (startTask phase tokens)) (stage : call.stage = .fanOut)
    (invoked : invoke config env before.shared op = some (shared, call)) :
    Move config before (.invoke op env) ⟨shared, before.calls ++ [call]⟩
  | invoke {op : Op} {env : Env} {shared : Shared} {call : Call}
    (silent : Silent config before.shared shared) (dormant : Dormant call.items)
    (invoked : invoke config env before.shared op = some (shared, call)) :
    Move config before (.invoke op env) ⟨shared, before.calls ++ [call]⟩
  | advance {c : Nat} {shared : Shared} {call next : Call} {more : List Task}
    (atCall : before.calls[c]? = some call) (silent : Silent config before.shared shared)
    (dormant : Dormant more) (items : next.items = call.items ++ more)
    (advanced : call.advance config before.shared = some (shared, next)) :
    Move config before (.advance c) ⟨shared, before.calls.set c next⟩

theorem State.Step.move {config : Config} {before after : State} {action : Action}
    (taken : before.Step config action after) : Move config before action after := by
  unfold State.Step State.step at taken
  cases action with
  | invoke op env =>
    obtain ⟨⟨shared, call⟩, invoked, rfl⟩ := Option.map_eq_some_iff.1 taken
    obtain ⟨silent, dormant⟩ | ⟨children, phase, tokens, journaled, fresh, items, stage⟩ := invoke_cases invoked
    · exact .invoke silent dormant invoked
    · exact .journal journaled fresh items stage invoked
  | item c i env =>
    obtain ⟨call, atCall, taken⟩ := Option.bind_eq_some_iff.1 taken
    obtain ⟨⟨shared, next⟩, stepped, rfl⟩ := Option.map_eq_some_iff.1 taken
    unfold Call.stepItem at stepped
    cases atItem : call.items[i]? with
    | none => rw [atItem] at stepped; cases stepped
    | some task =>
      simp only [atItem] at stepped
      split at stepped
      · cases stepped
      · next free =>
        simp only [Bool.or_eq_true, not_or, Bool.not_eq_true, Bool.and_eq_true, Bool.not_eq_true',
          not_and] at free
        obtain ⟨⟨stepShared, stepTask⟩, taskStepped, equal⟩ := Option.map_eq_some_iff.1 stepped
        cases equal
        exact .item atCall atItem free.1 (fun queued => by simpa using free.2 queued) taskStepped
  | advance c =>
    obtain ⟨call, atCall, taken⟩ := Option.bind_eq_some_iff.1 taken
    obtain ⟨⟨shared, next⟩, advanced, rfl⟩ := Option.map_eq_some_iff.1 taken
    obtain ⟨silent, more, dormant, items⟩ := advance_cases advanced
    exact .advance atCall silent dormant items advanced

/-! ## The tasks of a state -/

/-- A task by its call and its place in it. -/
def taskAt (calls : List Call) (index : Nat × Nat) : Option Task :=
  (calls[index.1]?).bind fun call => call.items[index.2]?

def State.task? (state : State) (index : Nat × Nat) : Option Task := taskAt state.calls index

theorem taskAt_of_call {calls : List Call} {c : Nat} {call : Call} (atCall : calls[c]? = some call)
    (i : Nat) : taskAt calls (c, i) = call.items[i]? := by
  rw [taskAt, atCall]
  rfl

theorem taskAt_length (calls : List Call) (i : Nat) : taskAt calls (calls.length, i) = none := by
  rw [taskAt, List.getElem?_eq_none (le_refl _)]
  rfl

theorem taskAt_set {calls : List Call} {c : Nat} {call : Call} (atCall : calls[c]? = some call)
    (next : Call) (index : Nat × Nat) : taskAt (calls.set c next) index =
      if index.1 = c then next.items[index.2]? else taskAt calls index := by
  obtain ⟨inside, _⟩ := List.getElem?_eq_some_iff.1 atCall
  unfold taskAt
  by_cases here : index.1 = c
  · rw [if_pos here, here, List.getElem?_set_self inside]
    rfl
  · rw [if_neg here, List.getElem?_set_ne (Ne.symm here)]

theorem taskAt_append (calls : List Call) (call : Call) (index : Nat × Nat) :
    taskAt (calls ++ [call]) index =
      if index.1 = calls.length then call.items[index.2]? else taskAt calls index := by
  unfold taskAt
  by_cases here : index.1 = calls.length
  · rw [if_pos here, here, List.getElem?_concat_length]
    rfl
  · rw [if_neg here]
    by_cases before : index.1 < calls.length
    · rw [List.getElem?_append_left before]
    · have outside : (calls ++ [call]).length ≤ index.1 := by
        rw [List.length_append, List.length_singleton]
        omega
      rw [List.getElem?_eq_none outside, List.getElem?_eq_none (by omega)]

/-- A new call leaves the tasks there were. -/
theorem taskAt_append_of_some {calls : List Call} {call : Call} {index : Nat × Nat} {task : Task}
    (found : taskAt calls index = some task) : taskAt (calls ++ [call]) index = some task := by
  rw [taskAt_append, if_neg]
  · exact found
  · intro here
    obtain ⟨c, i⟩ := index
    simp only at here
    rw [here, taskAt_length] at found
    cases found

/-- A step of one task leaves the others. -/
theorem taskAt_item {calls : List Call} {c i : Nat} {call : Call} {task : Task}
    (atCall : calls[c]? = some call) (atItem : call.items[i]? = some task) (next : Task)
    (index : Nat × Nat) : taskAt (calls.set c { call with items := call.items.set i next }) index =
      if index = (c, i) then some next else taskAt calls index := by
  obtain ⟨inside, _⟩ := List.getElem?_eq_some_iff.1 atItem
  obtain ⟨c', i'⟩ := index
  rw [taskAt_set atCall]
  by_cases here : c' = c
  · subst here
    by_cases same : i' = i
    · subst same
      rw [if_pos rfl, if_pos rfl]
      exact List.getElem?_set_self inside
    · rw [if_pos rfl, if_neg fun equal => same (congrArg Prod.snd equal), List.getElem?_set_ne (Ne.symm same)]
      exact (taskAt_of_call atCall i').symm
  · rw [if_neg here, if_neg fun equal => here (congrArg Prod.fst equal)]

/-- A step of one task keeps the ids that the call works on. -/
theorem ids_set {items : List Task} {i : Nat} {task next : Task} (atItem : items[i]? = some task)
    (same : next.branchId = task.branchId) :
    (items.set i next).map Task.branchId = items.map Task.branchId := by
  refine List.ext_getElem? fun j => ?_
  rw [List.getElem?_map, List.getElem?_map, List.getElem?_set]
  split
  · next here =>
    subst here
    rw [if_pos (List.getElem?_eq_some_iff.1 atItem).1, atItem, Option.map_some, Option.map_some, same]
  · rfl

/-- Two items with one key are one item. -/
theorem index_of_key {α κ : Type} {items : List α} {key : α → κ} (distinct : (items.map key).Nodup) {i j : Nat}
    {first second : α} (atFirst : items[i]? = some first) (atSecond : items[j]? = some second)
    (same : key first = key second) : i = j := by
  have inside : i < (items.map key).length := by
    rw [List.length_map]
    exact (List.getElem?_eq_some_iff.1 atFirst).1
  refine (List.getElem?_inj inside distinct).1 ?_
  rw [List.getElem?_map, List.getElem?_map, atFirst, atSecond, Option.map_some, Option.map_some, same]

/-- The last call moves and the others stay. -/
theorem set_last {calls earlier : List Call} {call : Call} (last : calls = earlier ++ [call]) (next : Call) :
    calls.set earlier.length next = earlier ++ [next] := by
  rw [last, List.set_append_right _ _ (le_refl _), Nat.sub_self, List.set_cons_zero]

/-- A call that adds tasks keeps those there were. -/
theorem taskAt_advance_of_some {calls : List Call} {c : Nat} {call next : Call} {more : List Task}
    (atCall : calls[c]? = some call) (items : next.items = call.items ++ more) {index : Nat × Nat}
    {task : Task} (found : taskAt calls index = some task) :
    taskAt (calls.set c next) index = some task := by
  obtain ⟨c', i'⟩ := index
  rw [taskAt_set atCall]
  split
  · next here =>
    simp only at here
    subst here
    rw [taskAt_of_call atCall] at found
    rw [items, List.getElem?_append_left (List.getElem?_eq_some_iff.1 found).1]
    exact found
  · exact found

end Agentfork.Orchestrator

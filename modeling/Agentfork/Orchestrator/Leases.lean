import Agentfork.Orchestrator.Journal

/-! # What a step makes of one record

A section of a task leaves a record, sets its state or forgets it, so a lease
changes only when it is renewed or the id is journaled anew. -/

namespace Agentfork.Orchestrator

open Shared

/-- What a section of a task on `key` makes of the record of `branchId`. -/
inductive RecordMove (key : BranchId) (state : BranchState) (before after : Shared) (branchId : BranchId) :
    Prop where
  | kept (record : after.branches.get? branchId = before.branches.get? branchId)
      (loaded : branchId ∈ before.loaded → branchId ∈ after.loaded)
  | moved {previous : Branch} (here : branchId = key)
      (found : before.branches.get? branchId = some previous)
      (record : after.branches.get? branchId = some (setState state previous))
      (loaded : branchId ∈ before.loaded → branchId ∈ after.loaded)
  | forgotten (record : after.branches.get? branchId = none)

namespace RecordMove

variable {key : BranchId} {state : BranchState} {before after : Shared} {branchId : BranchId}

theorem of_quiet (quiet : Quiet before after) : RecordMove key state before after branchId :=
  .kept (quiet.branches branchId) fun loaded => quiet.loaded ▸ loaded

theorem of_replaced {previous : Branch} (found : before.branches.get? key = some previous)
    (written : after.branches = before.branches.insert key (setState state previous))
    (loaded : after.loaded = before.loaded) : RecordMove key state before after branchId := by
  have stillLoaded : branchId ∈ before.loaded → branchId ∈ after.loaded := fun member => loaded ▸ member
  by_cases here : branchId = key
  · subst here
    refine .moved rfl found ?_ stillLoaded
    rw [written, Dict.get?_insert, if_pos rfl]
  · refine .kept ?_ stillLoaded
    rw [written, Dict.get?_insert, if_neg here]

theorem of_forgotten (erased : after.branches = before.branches.erase key)
    (loaded : after.loaded = before.loaded.erase key) : RecordMove key state before after branchId := by
  by_cases here : branchId = key
  · refine .forgotten ?_
    rw [erased, Dict.get?_erase, if_pos here]
  · refine .kept ?_ fun member => ?_
    · rw [erased, Dict.get?_erase, if_neg here]
    · rw [loaded]
      exact Finset.mem_erase.2 ⟨here, member⟩

/-- The lease of a record that is still there is the one it had. -/
theorem lease (move : RecordMove key state before after branchId) {branch : Branch}
    (found : after.branches.get? branchId = some branch) :
    ∃ previous, before.branches.get? branchId = some previous ∧
      previous.leaseExpiresAt = branch.leaseExpiresAt := by
  cases move with
  | kept record _ => exact ⟨branch, record.symm.trans found, rfl⟩
  | moved _ stored record _ =>
    rw [record, Option.some.injEq] at found
    exact ⟨_, stored, found ▸ rfl⟩
  | forgotten record => exact absurd (record.symm.trans found) nofun

/-- Of a step at another id, which may forget no record but its own. -/
theorem elsewhere {origin : Finset BranchId} (move : RecordMove key state before after branchId)
    (onlyAt : OnlyAt origin key before after) (differs : branchId ≠ key) :
    after.branches.get? branchId = before.branches.get? branchId := by
  cases move with
  | kept record _ => exact record
  | moved here => exact absurd here differs
  | forgotten record =>
    have same := congrArg View.record (onlyAt branchId differs)
    simp only [view, record, Option.map_none] at same
    rw [record]
    exact (Option.map_eq_none_iff.1 same.symm).symm

end RecordMove

variable {config : Config} {env : Env} {shared after : Shared}

theorem startStep_record {task : StartTask} {phase : StartPhase}
    (taken : startStep config env shared task = some (after, phase)) (branchId : BranchId) :
    RecordMove task.branchId .live shared after branchId := by
  cases startStep_move taken with
  | begins => exact .kept rfl id
  | calls _ call replies =>
    obtain rfl | rfl := replies.state
    · cases call <;> exact .kept rfl id
    · exact .kept rfl id
  | goesLive _ found => exact .of_replaced found (write_branches _ _) (write_loaded _ _)
  | staysForking _ _ quiet | staysRecorded _ _ quiet => exact .of_quiet quiet
  | forgets => exact .of_forgotten (write_branches _ _) rfl
  | ends => exact .kept rfl id

theorem killStep_record {task : KillTask} {phase : KillPhase}
    (taken : killStep config env shared task = some (after, phase)) (branchId : BranchId) :
    RecordMove task.branchId .killing shared after branchId := by
  cases killStep_move taken with
  | refused _ _ quiet => exact .of_quiet quiet
  | admitted _ found => exact .of_replaced found (write_branches _ _) (write_loaded _ _)
  | calls _ call replies =>
    obtain rfl | rfl := replies.state
    · cases call <;> exact .kept rfl id
    · exact .kept rfl id
  | fails => exact .kept rfl id
  | forgets => exact .of_forgotten (write_branches _ _) rfl
  | staysRecorded _ _ quiet => exact .kept (quiet.branches branchId) fun member => quiet.loaded ▸ member

/-! ## Calls -/

/-- The ids whose lease the first section of a call renews. -/
def renewed (config : Config) (env : Env) (shared : Shared) : Op → List BranchId
  | .renewLease branchId lease =>
    match (shared.renewLease config env.persist env.now branchId lease).1 with
    | .ok _ => [branchId]
    | .error _ => []
  | _ => []

/-- The first section of a call leaves the records of all ids that it neither
journals nor renews. -/
theorem invoke_record {op : Op} {call : Call} (invoked : invoke config env shared op = some (after, call))
    {branchId : BranchId} (notStarted : branchId ∉ after.started.drop shared.started.length)
    (notRenewed : branchId ∉ renewed config env shared op) :
    after.branches.get? branchId = shared.branches.get? branchId := by
  have ofJournaled : ∀ {children admitted}, Journaled config shared children admitted →
      branchId ∉ admitted.started.drop shared.started.length →
      admitted.branches.get? branchId = shared.branches.get? branchId := by
    intro children admitted journaled notStarted
    rw [journaled.started, List.drop_left] at notStarted
    have notFound : (children.find? fun child => child.branchId = branchId) = none := by
      rw [List.find?_eq_none]
      intro child member same
      exact notStarted (List.mem_map.2 ⟨child, member, of_decide_eq_true same⟩)
    rw [journaled.branches, notFound, Option.none_or]
  cases invoke_move invoked with
  | refused _ quiet => exact quiet.branches branchId
  | createParent _ _ _ journaled | fork _ _ _ journaled => exact ofJournaled journaled notStarted
  | renewLease _ renews =>
    simp only [renewed, renews] at notRenewed
    rw [write_branches, Dict.get?_insert, if_neg (by simpa using notRenewed)]
  | kills | closed | closing | closes => rfl

theorem advance_branches {call next : Call} (advanced : call.advance config shared = some (after, next)) :
    after.branches = shared.branches := by
  obtain ⟨metrics, closing, closed, rfl⟩ := advance_flags advanced
  rfl

end Agentfork.Orchestrator

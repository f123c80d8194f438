import Agentfork.Orchestrator.Steps

/-! # Who changes the marks

`_spawning` and `_killing` grow only by the task that is about to work on the id
and shrink only by the task that is done with it. -/

namespace Agentfork.Orchestrator

open Shared

variable {config : Config} {env : Env} {shared after : Shared}

theorem startStep_marks {task : StartTask} {phase : StartPhase}
    (taken : startStep config env shared task = some (after, phase)) :
    after.started = shared.started ∧ after.killing = shared.killing ∧
      ((∀ outcome, phase ≠ .finished outcome) → after.spawning = shared.spawning) := by
  cases startStep_move taken with
  | begins => exact ⟨rfl, rfl, fun _ => rfl⟩
  | calls _ call replies =>
    obtain rfl | rfl := replies.state
    · cases call <;> exact ⟨rfl, rfl, fun _ => rfl⟩
    · exact ⟨rfl, rfl, fun _ => rfl⟩
  | goesLive | forgets => exact ⟨write_started _ _, write_killing _ _, fun _ => write_spawning _ _⟩
  | staysForking _ _ quiet | staysRecorded _ _ quiet => exact ⟨quiet.started, quiet.killing, fun _ => quiet.spawning⟩
  | ends => exact ⟨rfl, rfl, fun running => absurd rfl (running _)⟩

theorem killStep_marks {task : KillTask} {phase : KillPhase}
    (taken : killStep config env shared task = some (after, phase)) :
    after.started = shared.started ∧ after.spawning = shared.spawning ∧
      (∀ branchId ∈ after.killing, branchId ∈ shared.killing ∨
        branchId = task.branchId ∧ phase = .sandboxKill) ∧
      (task.phase ≠ .queued → ∀ outcome, phase = .finished outcome → task.branchId ∉ after.killing) := by
  cases killStep_move taken with
  | refused atPhase _ quiet =>
    exact ⟨quiet.started, quiet.spawning, fun _ member => .inl (quiet.killing ▸ member),
      fun begun => absurd atPhase begun⟩
  | admitted =>
    refine ⟨write_started _ _, write_spawning _ _, fun branchId member => ?_, fun _ _ => nofun⟩
    rw [write_killing] at member
    obtain here | before := Finset.mem_insert.1 member
    · exact .inr ⟨here, rfl⟩
    · exact .inl before
  | calls _ call replies =>
    have unfinished : ∀ outcome, phase ≠ .finished outcome := by
      intro outcome isFinished
      subst isFinished
      cases call <;> cases replies
    obtain rfl | rfl := replies.state
    · cases call <;> exact ⟨rfl, rfl, fun _ member => .inl member, fun _ outcome isFinished =>
        absurd isFinished (unfinished outcome)⟩
    · exact ⟨rfl, rfl, fun _ member => .inl member, fun _ outcome isFinished => absurd isFinished (unfinished outcome)⟩
  | fails =>
    exact ⟨rfl, rfl, fun _ member => .inl (Finset.mem_of_mem_erase member), fun _ _ _ => Finset.notMem_erase _ _⟩
  | forgets =>
    refine ⟨write_started _ _, write_spawning _ _, fun _ member => ?_, fun _ _ _ => ?_⟩
    · simp only [write_killing] at member
      exact .inl (Finset.mem_of_mem_erase member)
    · simp only [write_killing]
      exact Finset.notMem_erase _ _
  | staysRecorded _ _ quiet =>
    refine ⟨quiet.started, quiet.spawning, fun _ member => ?_, fun _ _ _ => ?_⟩
    · rw [quiet.killing] at member
      exact .inl (Finset.mem_of_mem_erase member)
    · rw [quiet.killing]
      exact Finset.notMem_erase _ _

/-- A step of a task journals no id, and marks at most its own. -/
theorem Task.step_marks {task next : Task} (stepped : task.step config env shared = some (after, next)) :
    after.started = shared.started ∧ after.spawning ⊆ shared.spawning := by
  cases task with
  | start task =>
    obtain ⟨⟨_, phase⟩, taken, equal⟩ := Option.map_eq_some_iff.1 stepped
    cases equal
    obtain ⟨started, _, spawning⟩ := startStep_marks taken
    refine ⟨started, ?_⟩
    cases phase with
    | finished outcome =>
      rw [(startStep_finished taken).2]
      exact Finset.erase_subset _ _
    | _ => exact (spawning (fun _ same => by cases same)).le
  | kill task =>
    obtain ⟨⟨_, phase⟩, taken, equal⟩ := Option.map_eq_some_iff.1 stepped
    cases equal
    obtain ⟨started, spawning, _⟩ := killStep_marks taken
    exact ⟨started, spawning.le⟩

/-! ## Marks and history -/

/-- Steps only add to the history, and what they mark they have journaled. -/
theorem State.Step.history {before after : State} {action : Action}
    (taken : before.Step config action after) :
    ∃ more, after.shared.started = before.shared.started ++ more ∧
      ∀ branchId ∈ after.shared.spawning, branchId ∈ before.shared.spawning ∨ branchId ∈ more := by
  cases State.Step.move taken with
  | item _ _ _ _ stepped =>
    obtain ⟨started, spawning⟩ := Task.step_marks stepped
    exact ⟨[], by rw [List.append_nil]; exact started, fun _ member => .inl (spawning member)⟩
  | journal journaled _ _ _ _ =>
    refine ⟨_, journaled.started, fun branchId member => ?_⟩
    rw [journaled.spawning] at member
    exact (Finset.mem_union.1 member).imp_right List.mem_toFinset.1
  | invoke silent _ _ | advance _ silent _ _ _ =>
    refine ⟨[], by rw [List.append_nil]; exact silent.started, fun branchId member => .inl ?_⟩
    rw [← silent.spawning]
    exact member

end Agentfork.Orchestrator

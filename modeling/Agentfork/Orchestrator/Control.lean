import Agentfork.Orchestrator.Steps

/-! # The counter of children and the closing flags

Both are set under the lock in few places: no section but those of `fork` counts,
no section but those of `close` opens or closes. -/

namespace Agentfork.Orchestrator

namespace Shared

variable {config : Config} {before middle after : Shared}

/-- The flags are the same, and the counter has not gone back. -/
structure Continues (before after : Shared) : Prop where
  seq : before.seq ≤ after.seq
  closing : after.closing = before.closing
  closed : after.closed = before.closed

theorem Continues.refl (shared : Shared) : Continues shared shared := ⟨le_refl _, rfl, rfl⟩

theorem Continues.trans (first : Continues before middle) (second : Continues middle after) :
    Continues before after :=
  ⟨first.seq.trans second.seq, second.closing.trans first.closing, second.closed.trans first.closed⟩

theorem Continues.of_outcome {α : Type} {outcome : Except Fault α × Shared} {result : Except Fault α}
    (equal : outcome = (result, after)) (continues : Continues before outcome.2) : Continues before after := by
  rw [equal] at continues
  exact continues

theorem persist_continues (config : Config) (failure : Option Fault) (shared : Shared) :
    Continues shared (persist config failure shared).2 := by
  unfold persist
  split
  · cases failure <;> exact ⟨le_refl _, rfl, rfl⟩
  · exact .refl shared

theorem record_continues (config : Config) (failure : Option Fault) (branch : Branch) (shared : Shared) :
    Continues shared (record config failure branch shared).2 := by
  have kept := persist_continues config failure
    { shared with branches := shared.branches.insert branch.branchId branch }
  unfold record
  simp only
  split
  · next written => rw [written] at kept; exact ⟨kept.seq, kept.closing, kept.closed⟩
  · next failed => rw [failed] at kept; exact ⟨kept.seq, kept.closing, kept.closed⟩

theorem forget_continues (config : Config) (failure : Option Fault) (branchId : BranchId) (shared : Shared) :
    Continues shared (forget config failure branchId shared).2 := by
  have kept := persist_continues config failure { shared with branches := shared.branches.erase branchId }
  unfold forget
  simp only
  split
  · next written => rw [written] at kept; exact ⟨kept.seq, kept.closing, kept.closed⟩
  · next failed => rw [failed] at kept; exact ⟨kept.seq, kept.closing, kept.closed⟩

theorem replaceBranch_continues (config : Config) (failure : Option Fault) (branchId : BranchId)
    (change : Branch → Branch) (shared : Shared) :
    Continues shared (replaceBranch config failure branchId change shared).2 := by
  unfold replaceBranch
  cases shared.branches.get? branchId with
  | none => exact .refl shared
  | some previous =>
    have kept := persist_continues config failure
      { shared with branches := shared.branches.insert branchId (change previous) }
    simp only
    split
    · next written => rw [written] at kept; exact ⟨kept.seq, kept.closing, kept.closed⟩
    · next failed => rw [failed] at kept; exact ⟨kept.seq, kept.closing, kept.closed⟩

theorem admitParent_continues (config : Config) (failure : Option Fault) (now : Int) (branchId : BranchId)
    (tokens : List Nat) (lease : Option Int) (shared : Shared) :
    Continues shared (admitParent config failure now branchId tokens lease shared).2 := by
  unfold admitParent
  split
  · exact .refl shared
  · split
    · exact .refl shared
    · split
      · exact .refl shared
      · split
        · exact .refl shared
        · next expiry _ =>
          have kept := record_continues config failure ⟨branchId, none, .forking, now, expiry⟩ shared
          simp only
          split
          · next failed => rw [failed] at kept; exact kept
          · next written => rw [written] at kept; exact ⟨kept.seq, kept.closing, kept.closed⟩

theorem renewLease_continues (config : Config) (failure : Option Fault) (now : Int) (branchId : BranchId)
    (lease : Int) (shared : Shared) :
    Continues shared (renewLease config failure now branchId lease shared).2 := by
  unfold renewLease
  split
  · exact .refl shared
  · split
    · exact .refl shared
    · split
      · exact .refl shared
      · exact replaceBranch_continues _ _ _ _ _

theorem nextSeq_gt (branches : Dict BranchId Branch) (parentId : BranchId) (fuel seq : Nat) :
    seq < nextSeq branches parentId fuel seq := by
  induction fuel generalizing seq with
  | zero => exact Nat.lt_succ_self seq
  | succ fuel inductionHypothesis =>
    rw [nextSeq]
    split
    · exact (Nat.lt_succ_self seq).trans (inductionHypothesis (seq + 1))
    · exact Nat.lt_succ_self seq

theorem planChildren_continues (config : Config) (now : Int) (parentId : BranchId) (lease : Option Int)
    (asked : List (Option BranchId)) (children : List Branch) (shared : Shared) :
    Continues shared (planChildren config now parentId lease asked children shared).2 := by
  induction asked generalizing children shared with
  | nil => exact .refl shared
  | cons given asked inductionHypothesis =>
    have chosen : Continues shared (chooseId parentId shared given).2 := by
      cases given with
      | some childId => exact .refl shared
      | none => exact ⟨(nextSeq_gt _ _ _ _).le, rfl, rfl⟩
    rw [planChildren]
    simp only
    split
    · exact chosen
    · split
      · exact chosen
      · exact chosen.trans (inductionHypothesis _ _)

theorem admitFork_continues (config : Config) (failure : Option Fault) (now : Int) (parentId : BranchId) (n : Int)
    (childIds : Option (List BranchId)) (lease : Option Int) (shared : Shared) :
    Continues shared (admitFork config failure now parentId n childIds lease shared).2 := by
  unfold admitFork
  split
  · exact .refl shared
  · split
    · exact .refl shared
    · split
      · exact .refl shared
      · have planned := planChildren_continues config now parentId lease (requested n childIds) [] shared
        split
        · next failed => rw [failed] at planned; exact planned
        · next children after result =>
          rw [result] at planned
          have kept := persist_continues config failure
            { after with branches := insertAll children after.branches }
          split
          · next failed =>
            rw [failed] at kept
            exact planned.trans ⟨kept.seq, kept.closing, kept.closed⟩
          · next written =>
            rw [written] at kept
            exact planned.trans ⟨kept.seq, kept.closing, kept.closed⟩

end Shared

open Shared

variable {config : Config} {env : Env} {shared after : Shared}

/-! ## Tasks -/

theorem goLive_continues (config : Config) (failure : Option Fault) (task : StartTask) (shared : Shared) :
    Continues shared (goLive config failure task shared).2 := by
  unfold goLive
  split
  · exact replaceBranch_continues _ _ _ _ _
  · split
    · exact replaceBranch_continues _ _ _ _ _
    · exact .refl shared

theorem startStep_continues {task : StartTask} {phase : StartPhase}
    (taken : startStep config env shared task = some (after, phase)) : Continues shared after := by
  cases startStep_move taken with
  | begins => exact .refl shared
  | calls _ call replies =>
    obtain rfl | rfl := replies.state
    · cases call <;> exact ⟨le_refl _, rfl, rfl⟩
    · exact .refl _
  | goesLive _ _ _ written =>
    have kept := goLive_continues config env.persist task shared
    rwa [written] at kept
  | staysForking _ raises =>
    have kept := goLive_continues config env.persist task shared
    rwa [raises] at kept
  | forgets _ outcome | staysRecorded _ outcome =>
    have kept := forget_continues config env.persist task.branchId shared
    rwa [outcome] at kept
  | ends => exact ⟨le_refl _, rfl, rfl⟩

theorem admitKill_continues (config : Config) (failure : Option Fault) (task : KillTask) (shared : Shared) :
    Continues shared (admitKill config failure task shared).1 := by
  unfold admitKill
  split
  · exact .refl shared
  · split
    · exact .refl shared
    · have kept := replaceBranch_continues config failure task.branchId (setState .killing)
        (shared.markKilling task.branchId)
      split
      · next outcome => rw [outcome] at kept; exact ⟨kept.seq, kept.closing, kept.closed⟩
      · next outcome => rw [outcome] at kept; exact ⟨kept.seq, kept.closing, kept.closed⟩

theorem killStep_continues {task : KillTask} {phase : KillPhase}
    (taken : killStep config env shared task = some (after, phase)) : Continues shared after := by
  cases killStep_move taken with
  | refused _ outcome | admitted _ _ _ _ outcome =>
    have kept := admitKill_continues config env.persist task shared
    rwa [outcome] at kept
  | calls _ call replies =>
    obtain rfl | rfl := replies.state
    · cases call <;> exact ⟨le_refl _, rfl, rfl⟩
    · exact .refl _
  | fails => exact ⟨le_refl _, rfl, rfl⟩
  | forgets _ outcome | staysRecorded _ outcome =>
    have kept := forget_continues config env.persist task.branchId (shared.doneKilling task.branchId)
    rw [outcome] at kept
    exact ⟨kept.seq, kept.closing, kept.closed⟩

theorem Task.step_continues {task next : Task} (stepped : task.step config env shared = some (after, next)) :
    Continues shared after := by
  cases task with
  | start task =>
    obtain ⟨⟨_, phase⟩, taken, equal⟩ := Option.map_eq_some_iff.1 stepped
    cases equal
    exact startStep_continues taken
  | kill task =>
    obtain ⟨⟨_, phase⟩, taken, equal⟩ := Option.map_eq_some_iff.1 stepped
    cases equal
    exact killStep_continues taken

/-! ## Calls -/

/-- A call other than `close` sets no flag in its first section. -/
theorem invoke_continues {op : Op} {call : Call} (invoked : invoke config env shared op = some (after, call))
    (noClose : op ≠ .close) : Continues shared after := by
  cases invoke_move invoked with
  | refused refuses =>
    cases refuses with
    | createParent raises => exact .of_outcome raises (admitParent_continues ..)
    | fork raises => exact .of_outcome raises (admitFork_continues ..)
    | renewLease raises => exact .of_outcome raises (renewLease_continues ..)
    | killLosers | noWinner | reapExpired | reconcile => exact .refl shared
  | createParent admits => exact .of_outcome admits (admitParent_continues ..)
  | fork admits => exact .of_outcome admits (admitFork_continues ..)
  | renewLease _ renews => exact .of_outcome renews (renewLease_continues ..)
  | kills => exact .refl shared
  | closed | closing | closes => exact absurd rfl noClose

/-- What `close` does in its first section. -/
theorem invoke_close {call : Call} (invoked : invoke config env shared .close = some (after, call)) :
    shared.closed = true ∧ after = shared ∧ call = ended .close (.ok .none) ∨
    shared.closed = false ∧ shared.closing = true ∧ after = shared ∧ call = ⟨.close, [], .awaitClosed, []⟩ ∨
    shared.closed = false ∧ shared.closing = false ∧ after = { shared with closing := true } ∧
      call = ⟨.close, [], .draining, []⟩ := by
  cases invoke_move invoked with
  | refused refuses => cases refuses
  | kills listed => cases listed
  | closed isClosed => exact .inl ⟨isClosed, rfl, rfl⟩
  | closing notClosed isClosing => exact .inr (.inl ⟨notClosed, isClosing, rfl, rfl⟩)
  | closes notClosed notClosing => exact .inr (.inr ⟨notClosed, notClosing, rfl, rfl⟩)

theorem invoke_seq {op : Op} {call : Call} (invoked : invoke config env shared op = some (after, call)) :
    shared.seq ≤ after.seq := by
  by_cases isClose : op = .close
  · subst isClose
    obtain ⟨_, rfl, _⟩ | ⟨_, _, rfl, _⟩ | ⟨_, _, rfl, _⟩ := invoke_close invoked
    · exact le_refl _
    · exact le_refl _
    · exact le_refl _
  · exact (invoke_continues invoked isClose).seq

theorem State.Step.seq {before after : State} {action : Action} (taken : before.Step config action after) :
    before.shared.seq ≤ after.shared.seq := by
  cases State.Step.move taken with
  | item _ _ _ _ stepped => exact (Task.step_continues stepped).seq
  | journal _ _ _ _ invoked => exact invoke_seq invoked
  | invoke _ _ invoked => exact invoke_seq invoked
  | advance _ _ _ _ advanced =>
    obtain ⟨metrics, closing, closed, rfl⟩ := advance_flags advanced
    exact le_refl _

end Agentfork.Orchestrator

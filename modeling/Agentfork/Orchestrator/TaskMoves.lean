import Agentfork.Orchestrator.Sections

/-! # What one step of a task can do

`StartMove` and `KillMove` list what `startStep` and `killStep` may have done, with
what the section has found to do it. A fact about one step of a task is a case
analysis of its move, so the two functions are unfolded here only. -/

namespace Agentfork.Orchestrator

open Shared

/-! ## Backend calls -/

/-- A task calls a backend in its phase `here`. The call makes `changed` of `shared`
where it takes effect; it is at work, returns or raises. -/
inductive Replies {φ : Type} (reply : Reply) (shared changed : Shared) (here returned : φ) (raised : Fault → φ) :
    Shared → φ → Prop where
  | working (replied : reply = .working) : Replies reply shared changed here returned raised changed here
  | returned (replied : reply = .returned) : Replies reply shared changed here returned raised changed returned
  | raised {fault : Fault} (replied : reply = .raised fault true) :
    Replies reply shared changed here returned raised changed (raised fault)
  /-- the call has raised without effect -/
  | refused {fault : Fault} (replied : reply = .raised fault false) :
    Replies reply shared changed here returned raised shared (raised fault)

namespace Replies

variable {φ : Type} {reply : Reply} {shared changed after : Shared} {here returned phase : φ} {raised : Fault → φ}

theorem of_reply (taken : (match reply with
    | .working => some (if reply.effect then changed else shared, here)
    | .returned => some (if reply.effect then changed else shared, returned)
    | .raised fault _ => some (if reply.effect then changed else shared, raised fault)) = some (after, phase)) :
    Replies reply shared changed here returned raised after phase := by
  cases reply with
  | working =>
    cases taken
    exact .working rfl
  | returned =>
    cases taken
    exact .returned rfl
  | raised fault tookEffect =>
    cases tookEffect <;> cases taken
    · exact .refused rfl
    · exact .raised rfl

theorem effect (replies : Replies reply shared changed here returned raised after phase) :
    after = if reply.effect then changed else shared := by
  cases replies with
  | working replied | returned replied | raised replied | refused replied =>
    rw [replied]
    rfl

theorem state (replies : Replies reply shared changed here returned raised after phase) :
    after = changed ∨ after = shared := by
  rw [replies.effect]
  split
  · exact .inl rfl
  · exact .inr rfl

end Replies

/-! ## Starts -/

/-- The backend calls of a start: in which phase they are made, what they change, and
where the start goes on from them. -/
inductive StartCall (config : Config) (shared : Shared) (task : StartTask) :
    StartPhase → Shared → StartPhase → (Fault → StartPhase) → Prop where
  | kvStart : StartCall config shared task .kvStart (shared.holdKv task.branchId) .sandboxSpawn .rollbackKv
  | sandboxSpawn : StartCall config shared task .sandboxSpawn (shared.holdSandbox task.branchId)
      (task.afterSpawn config) .rollbackKv
  | waitReady : StartCall config shared task .waitReady shared task.afterReady .rollbackKv
  | kvExtend : StartCall config shared task .kvExtend shared .goLive .rollbackKv
  | rollbackKv {fault : Fault} : StartCall config shared task (.rollbackKv fault) (shared.dropKv task.branchId)
      (.rollbackSandbox fault false) fun _ => .rollbackSandbox fault true
  | rollbackSandbox {fault : Fault} {failed : Bool} : StartCall config shared task (.rollbackSandbox fault failed)
      (shared.dropSandbox task.branchId) (if failed then .settle (.error fault) else .rollbackForget fault)
      fun _ => .settle (.error fault)

inductive StartMove (config : Config) (env : Env) (shared : Shared) (task : StartTask) : Shared → StartPhase → Prop where
  | begins (atPhase : task.phase = .queued) : StartMove config env shared task shared .kvStart
  | calls {here returned phase : StartPhase} {changed after : Shared} {raised : Fault → StartPhase}
    (atPhase : task.phase = here) (call : StartCall config shared task here changed returned raised)
    (replies : Replies env.reply shared changed here returned raised after phase) :
    StartMove config env shared task after phase
  | goesLive {previous : Branch} (atPhase : task.phase = .goLive)
    (found : shared.branches.get? task.branchId = some previous)
    (parentLive : ∀ parentId, task.parentId = some parentId → shared.isLive parentId = true)
    (written : goLive config env.persist task shared = (.ok (setState .live previous), write config { shared with
      branches := shared.branches.insert task.branchId (setState .live previous) })) :
    StartMove config env shared task (write config { shared with
      branches := shared.branches.insert task.branchId (setState .live previous) })
      (.settle (.ok (setState .live previous)))
  | staysForking {fault : Fault} {after : Shared} (atPhase : task.phase = .goLive)
    (raises : goLive config env.persist task shared = (.error fault, after)) (quiet : Quiet shared after) :
    StartMove config env shared task after (.rollbackKv fault)
  | forgets {fault : Fault} (atPhase : task.phase = .rollbackForget fault)
    (forgotten : shared.forget config env.persist task.branchId = (.ok (), { write config { shared with
      branches := shared.branches.erase task.branchId } with loaded := shared.loaded.erase task.branchId })) :
    StartMove config env shared task ({ write config { shared with
      branches := shared.branches.erase task.branchId } with loaded := shared.loaded.erase task.branchId })
      (.settle (.error fault))
  /-- an exception out of `_forget` takes the place of the one that caused the rollback -/
  | staysRecorded {fault raised : Fault} {after : Shared} (atPhase : task.phase = .rollbackForget fault)
    (raises : shared.forget config env.persist task.branchId = (.error raised, after)) (quiet : Quiet shared after) :
    StartMove config env shared task after (.settle (.error raised))
  | ends {outcome : Except Fault Branch} (atPhase : task.phase = .settle outcome) :
    StartMove config env shared task (shared.doneSpawning task.branchId) (.finished outcome)

theorem goLive_cases (config : Config) (failure : Option Fault) (task : StartTask) (shared : Shared) :
    (∃ fault after, goLive config failure task shared = (.error fault, after) ∧ Quiet shared after) ∨
    ∃ previous, shared.branches.get? task.branchId = some previous ∧
      (∀ parentId, task.parentId = some parentId → shared.isLive parentId = true) ∧
      goLive config failure task shared = (.ok (setState .live previous), write config { shared with
        branches := shared.branches.insert task.branchId (setState .live previous) }) := by
  have replaced := replaceBranch_cases config failure task.branchId (setState .live) shared
  unfold goLive
  cases isParent : task.parentId with
  | none =>
    obtain failed | ⟨previous, found, written⟩ := replaced
    · exact .inl failed
    · exact .inr ⟨previous, found, nofun, written⟩
  | some parentId =>
    by_cases parentLive : shared.isLive parentId = true
    · simp only [if_pos parentLive]
      obtain failed | ⟨previous, found, written⟩ := replaced
      · exact .inl failed
      · refine .inr ⟨previous, found, fun _ same => ?_, written⟩
        cases same
        exact parentLive
    · simp only [if_neg parentLive]
      exact .inl ⟨_, shared, rfl, Quiet.refl shared⟩

theorem startStep_move {config : Config} {env : Env} {shared after : Shared} {task : StartTask} {phase : StartPhase}
    (taken : startStep config env shared task = some (after, phase)) : StartMove config env shared task after phase := by
  unfold startStep at taken
  cases atPhase : task.phase with
  | queued =>
    simp only [atPhase] at taken
    cases taken
    exact .begins atPhase
  | kvStart =>
    simp only [atPhase] at taken
    exact .calls atPhase .kvStart (.of_reply taken)
  | sandboxSpawn =>
    simp only [atPhase] at taken
    exact .calls atPhase .sandboxSpawn (.of_reply taken)
  | waitReady =>
    simp only [atPhase] at taken
    refine .calls atPhase .waitReady (.of_reply ?_)
    rw [ite_self]
    exact taken
  | kvExtend =>
    simp only [atPhase] at taken
    refine .calls atPhase .kvExtend (.of_reply ?_)
    rw [ite_self]
    exact taken
  | goLive =>
    simp only [atPhase] at taken
    obtain ⟨fault, failed, raises, quiet⟩ | ⟨previous, found, parentLive, written⟩ :=
      goLive_cases config env.persist task shared
    · rw [raises] at taken
      cases taken
      exact .staysForking atPhase raises quiet
    · rw [written] at taken
      cases taken
      exact .goesLive atPhase found parentLive written
  | rollbackKv fault =>
    simp only [atPhase] at taken
    exact .calls atPhase .rollbackKv (.of_reply taken)
  | rollbackSandbox fault failed =>
    simp only [atPhase] at taken
    exact .calls atPhase .rollbackSandbox (.of_reply taken)
  | rollbackForget fault =>
    simp only [atPhase] at taken
    obtain ⟨raised, failed, raises, quiet⟩ | forgotten := forget_cases config env.persist task.branchId shared
    · rw [raises] at taken
      cases taken
      exact .staysRecorded atPhase raises quiet
    · rw [forgotten] at taken
      cases taken
      exact .forgets atPhase forgotten
  | settle outcome =>
    simp only [atPhase] at taken
    cases taken
    exact .ends atPhase
  | finished outcome =>
    simp only [atPhase] at taken
    cases taken

theorem startStep_unfinished {config : Config} {env : Env} {shared after : Shared} {task : StartTask} {phase : StartPhase}
    (taken : startStep config env shared task = some (after, phase)) (outcome : Except Fault Branch) :
    task.phase ≠ .finished outcome := by
  intro isFinished
  simp only [startStep, isFinished] at taken
  cases taken

/-! ## Kills -/

inductive KillCall (env : Env) (shared : Shared) (task : KillTask) : KillPhase → Shared → KillPhase → Prop where
  | sandboxKill : KillCall env shared task .sandboxKill (shared.dropSandbox task.branchId) .kvKill
  | kvKill : KillCall env shared task .kvKill (shared.dropKv task.branchId) (.forget env.freed)

inductive KillMove (config : Config) (env : Env) (shared : Shared) (task : KillTask) : Shared → KillPhase → Prop where
  /-- the first section raises, or has nothing to do -/
  | refused {outcome : Except Fault KillReceipt} {after : Shared} (atPhase : task.phase = .queued)
    (refuses : admitKill config env.persist task shared = (after, .finished outcome)) (quiet : Quiet shared after) :
    KillMove config env shared task after (.finished outcome)
  | admitted {previous : Branch} (atPhase : task.phase = .queued)
    (found : shared.branches.get? task.branchId = some previous) (notKilling : task.branchId ∉ shared.killing)
    (notSpawning : task.branchId ∉ shared.spawning)
    (admits : admitKill config env.persist task shared = (write config { shared.markKilling task.branchId with
      branches := shared.branches.insert task.branchId (setState .killing previous) }, .sandboxKill)) :
    KillMove config env shared task (write config { shared.markKilling task.branchId with
      branches := shared.branches.insert task.branchId (setState .killing previous) }) .sandboxKill
  | calls {here returned phase : KillPhase} {changed after : Shared} (atPhase : task.phase = here)
    (call : KillCall env shared task here changed returned)
    (replies : Replies env.reply shared changed here returned .failed after phase) :
    KillMove config env shared task after phase
  | fails {fault : Fault} (atPhase : task.phase = .failed fault) :
    KillMove config env shared task { shared.doneKilling task.branchId with
      metrics := { shared.metrics with killFailures := shared.metrics.killFailures + 1 } } (.finished (.error fault))
  | forgets {freed : Nat} (atPhase : task.phase = .forget freed)
    (forgotten : (shared.doneKilling task.branchId).forget config env.persist task.branchId =
      (.ok (), { write config { shared.doneKilling task.branchId with
        branches := shared.branches.erase task.branchId } with loaded := shared.loaded.erase task.branchId })) :
    KillMove config env shared task ({ write config { shared.doneKilling task.branchId with
      branches := shared.branches.erase task.branchId } with
      loaded := shared.loaded.erase task.branchId
      metrics := { shared.metrics with kills := shared.metrics.kills + 1 } }) (.finished (.ok ⟨task.branchId, freed, true⟩))
  | staysRecorded {freed : Nat} {fault : Fault} {after : Shared} (atPhase : task.phase = .forget freed)
    (raises : (shared.doneKilling task.branchId).forget config env.persist task.branchId = (.error fault, after))
    (quiet : Quiet (shared.doneKilling task.branchId) after) :
    KillMove config env shared task after (.finished (.error fault))

/-- The first section of a kill raises or does nothing, or journals the intent on
an id that nobody works on. -/
theorem admitKill_cases (config : Config) (failure : Option Fault) (task : KillTask) (shared : Shared) :
    (∃ outcome after, admitKill config failure task shared = (after, .finished outcome) ∧ Quiet shared after) ∨
    ∃ previous, shared.branches.get? task.branchId = some previous ∧
      task.branchId ∉ shared.killing ∧ task.branchId ∉ shared.spawning ∧
      admitKill config failure task shared = (write config { shared.markKilling task.branchId with
        branches := shared.branches.insert task.branchId (setState .killing previous) }, .sandboxKill) := by
  unfold admitKill
  cases shared.ensureOpen task.allowClosing with
  | error fault => exact .inl ⟨.error fault, shared, rfl, Quiet.refl shared⟩
  | ok =>
    simp only
    split
    · exact .inl ⟨_, shared, rfl, Quiet.refl shared⟩
    · next free =>
      rw [not_or, not_or] at free
      obtain ⟨_, notKilling, notSpawning⟩ := free
      obtain ⟨fault, failed, equal, quiet⟩ | ⟨previous, found, equal⟩ :=
        replaceBranch_cases config failure task.branchId (setState .killing) (shared.markKilling task.branchId)
      · -- the mark is taken back, so the section has changed nothing
        rw [equal]
        refine .inl ⟨.error fault, _, rfl, quiet.world, quiet.branches, quiet.loaded, quiet.spawning, ?_, quiet.started⟩
        change failed.killing.erase task.branchId = shared.killing
        rw [quiet.killing]
        exact Finset.erase_insert notKilling
      · rw [equal]
        exact .inr ⟨previous, found, notKilling, notSpawning, rfl⟩

/-- The last section of a kill whose backend calls have returned. -/
theorem forgetKilled_cases (config : Config) (failure : Option Fault) (branchId : BranchId) (freed : Nat)
    (shared : Shared) :
    (∃ fault after, (shared.doneKilling branchId).forget config failure branchId = (.error fault, after) ∧
      forgetKilled config failure branchId freed shared = (after, .finished (.error fault)) ∧
      Quiet (shared.doneKilling branchId) after) ∨
    (shared.doneKilling branchId).forget config failure branchId =
      (.ok (), { write config { shared.doneKilling branchId with
        branches := shared.branches.erase branchId } with loaded := shared.loaded.erase branchId }) ∧
    forgetKilled config failure branchId freed shared =
      ({ write config { shared.doneKilling branchId with branches := shared.branches.erase branchId } with
        loaded := shared.loaded.erase branchId
        metrics := { shared.metrics with kills := shared.metrics.kills + 1 } },
        .finished (.ok ⟨branchId, freed, true⟩)) := by
  unfold forgetKilled
  obtain ⟨fault, failed, raises, quiet⟩ | forgotten :=
    forget_cases config failure branchId (shared.doneKilling branchId)
  · rw [raises]
    exact .inl ⟨fault, failed, rfl, rfl, quiet⟩
  · rw [forgotten]
    simp only [write_metrics]
    exact .inr ⟨rfl, rfl⟩

theorem killStep_move {config : Config} {env : Env} {shared after : Shared} {task : KillTask} {phase : KillPhase}
    (taken : killStep config env shared task = some (after, phase)) : KillMove config env shared task after phase := by
  unfold killStep at taken
  cases atPhase : task.phase with
  | queued =>
    simp only [atPhase, Option.some.injEq] at taken
    obtain ⟨outcome, refused, refuses, quiet⟩ | ⟨previous, found, notKilling, notSpawning, admits⟩ :=
      admitKill_cases config env.persist task shared
    · rw [refuses] at taken
      cases taken
      exact .refused atPhase refuses quiet
    · rw [admits] at taken
      cases taken
      exact .admitted atPhase found notKilling notSpawning admits
  | sandboxKill =>
    simp only [atPhase] at taken
    exact .calls atPhase .sandboxKill (.of_reply taken)
  | kvKill =>
    simp only [atPhase] at taken
    exact .calls atPhase .kvKill (.of_reply taken)
  | failed fault =>
    simp only [atPhase] at taken
    cases taken
    exact .fails atPhase
  | forget freed =>
    simp only [atPhase, Option.some.injEq] at taken
    obtain ⟨fault, failed, raises, ends, quiet⟩ | ⟨forgotten, ends⟩ := forgetKilled_cases config env.persist task.branchId freed shared
    · rw [ends] at taken
      cases taken
      exact .staysRecorded atPhase raises quiet
    · rw [ends] at taken
      cases taken
      exact .forgets atPhase forgotten
  | finished outcome =>
    simp only [atPhase] at taken
    cases taken

theorem killStep_unfinished {config : Config} {env : Env} {shared after : Shared} {task : KillTask} {phase : KillPhase}
    (taken : killStep config env shared task = some (after, phase)) (outcome : Except Fault KillReceipt) :
    task.phase ≠ .finished outcome := by
  intro isFinished
  simp only [killStep, isFinished] at taken
  cases taken

end Agentfork.Orchestrator

import Agentfork.Orchestrator.Reload

/-! # Writing the registry file

`_persist` in the steps of the source: a temporary file is written and renamed
over the registry, and the rename is what counts. An update of the records in
memory is taken back by hand if `_persist` raises, so it takes effect in memory
and file or in neither. -/

namespace Agentfork.Orchestrator

open Shared Transition

/-! ## The file system calls of a write -/

/-- What a file holds: the text of a whole registry, or a part of one. -/
inductive Contents where
  | torn
  | complete (records : List Branch)
  deriving DecidableEq, Repr

/-- The directory of the registry. -/
structure RegistryDir where
  registry : Contents
  tmp : Option Contents
  deriving DecidableEq, Repr

/-- The calls up to the rename, in their order. -/
inductive WritePoint where
  | openTmp
  | dump
  | flush
  | fsync
  | closeTmp
  | replace
  deriving DecidableEq, Repr

/-- The calls that make the rename durable. -/
inductive SyncPoint where
  | openDir
  | fsyncDir
  | closeDir
  deriving DecidableEq, Repr

inductive WriteFailure where
  /-- one of the calls up to the rename raises -/
  | write (point : WritePoint) (fault : Fault)
  /-- one of the later ones fails: `os.open`, `os.fsync` and `os.close` of a directory fail with
  an `OSError` and raise nothing else -/
  | sync (point : SyncPoint)
  deriving DecidableEq, Repr

/-- The `OSError` of the directory sync is caught. -/
def WriteFailure.raised : WriteFailure → Option Fault
  | .write _ fault => some fault
  | .sync _ => none

namespace RegistryDir

/-- `open(tmp, "w")` -/
def openTmp (dir : RegistryDir) : RegistryDir := { dir with tmp := some .torn }

/-- The text has been flushed. -/
def flush (records : List Branch) (dir : RegistryDir) : RegistryDir := { dir with tmp := some (.complete records) }

/-- `os.replace(tmp, self.registry_path)` -/
def replace (dir : RegistryDir) : RegistryDir :=
  match dir.tmp with
  | some contents => ⟨contents, none⟩
  | none => dir

/-- `_persist` of an orchestrator with a registry. -/
def persist (failure : Option WriteFailure) (records : List Branch) (dir : RegistryDir) :
    Except Fault Unit × RegistryDir :=
  match failure with
  | some (.write .openTmp fault) => (.error fault, dir)
  | some (.write .dump fault) | some (.write .flush fault) => (.error fault, dir.openTmp)
  | some (.write .fsync fault) | some (.write .closeTmp fault) | some (.write .replace fault) =>
    (.error fault, dir.openTmp.flush records)
  | some (.sync _) | none => (.ok (), (dir.openTmp.flush records).replace)

/-- A write that raises leaves the registry as it was, one that returns puts the
records into it. -/
theorem persist_cases (failure : Option WriteFailure) (records : List Branch) (dir : RegistryDir) :
    (∃ fault, failure.bind WriteFailure.raised = some fault ∧ (dir.persist failure records).1 = .error fault ∧
      (dir.persist failure records).2.registry = dir.registry) ∨
    failure.bind WriteFailure.raised = none ∧ (dir.persist failure records).1 = .ok () ∧
      (dir.persist failure records).2.registry = .complete records := by
  cases failure with
  | none => exact .inr ⟨rfl, rfl, rfl⟩
  | some failure =>
    cases failure with
    | sync => exact .inr ⟨rfl, rfl, rfl⟩
    | write point fault => cases point <;> exact .inl ⟨fault, rfl, rfl, rfl⟩

end RegistryDir

/-- For the orchestrator a write is the one step that `Shared.persist` takes. -/
theorem persist_refines {config : Config} (registry : config.registry = true) {shared : Shared} {dir : RegistryDir}
    (same : dir.registry = .complete shared.file) (failure : Option WriteFailure) :
    (dir.persist failure shared.branches.values).1 = (shared.persist config (failure.bind WriteFailure.raised)).1 ∧
    (dir.persist failure shared.branches.values).2.registry =
      .complete (shared.persist config (failure.bind WriteFailure.raised)).2.file := by
  unfold Shared.persist
  rw [if_pos registry]
  obtain ⟨fault, raised, result, kept⟩ | ⟨raised, result, written⟩ :=
    RegistryDir.persist_cases failure shared.branches.values dir
  · rw [raised]
    exact ⟨result, kept.trans same⟩
  · rw [raised]
    exact ⟨result, written⟩

/-! ## Updates with their rollback -/

/-- The updates of the records that write the file. -/
inductive Update where
  | record (branch : Branch)
  | forget (branchId : BranchId)
  | replaceBranch (branchId : BranchId) (change : Branch → Branch)
  /-- all children of a `fork` -/
  | journal (children : List Branch)

namespace Update

/-- The records before `_persist` is called. -/
def apply (branches : Dict BranchId Branch) : Update → Dict BranchId Branch
  | .record branch => branches.insert branch.branchId branch
  | .forget branchId => branches.erase branchId
  | .replaceBranch branchId change =>
    match branches.get? branchId with
    | some previous => branches.insert branchId (change previous)
    | none => branches
  | .journal children => insertAll children branches

/-- What the `except BaseException` of each update does, given what it has read before. -/
def undo (before branches : Dict BranchId Branch) : Update → Dict BranchId Branch
  | .record branch =>
    match before.get? branch.branchId with
    | none => branches.erase branch.branchId
    | some previous => branches.insert branch.branchId previous
  | .forget branchId =>
    match before.get? branchId with
    | none => branches
    | some previous => branches.insert branchId previous
  | .replaceBranch branchId _ =>
    match before.get? branchId with
    | none => branches
    | some previous => branches.insert branchId previous
  | .journal children => eraseAll children branches

/-- What the callers see to: a replaced branch is recorded, and the children of
a fork are new. -/
def Admitted (branches : Dict BranchId Branch) : Update → Prop
  | .record _ | .forget _ => True
  | .replaceBranch branchId _ => branchId ∈ branches
  | .journal children => ∀ child ∈ children, child.branchId ∉ branches

/-- An update of the records in memory together with the directory. -/
def run (failure : Option WriteFailure) (branches : Dict BranchId Branch) (dir : RegistryDir) (update : Update) :
    Except Fault Unit × Dict BranchId Branch × RegistryDir :=
  match dir.persist failure (update.apply branches).values with
  | (.ok (), dir) => (.ok (), update.apply branches, dir)
  | (.error fault, dir) => (.error fault, update.undo branches (update.apply branches), dir)

/-- An update that is taken back leaves the records there were. -/
theorem undo_apply {branches : Dict BranchId Branch} {update : Update} (admitted : update.Admitted branches)
    (branchId : BranchId) : (update.undo branches (update.apply branches)).get? branchId = branches.get? branchId := by
  cases update with
  | record branch =>
    cases found : branches.get? branch.branchId with
    | none =>
      simp only [undo, apply, found, Dict.get?_erase, Dict.get?_insert]
      split
      · next same => rw [same, found]
      · rfl
    | some previous =>
      simp only [undo, apply, found, Dict.get?_insert]
      split
      · next same => rw [same, found]
      · rfl
  | forget forgotten =>
    cases found : branches.get? forgotten with
    | none =>
      simp only [undo, apply, found, Dict.get?_erase]
      split
      · next same => rw [same, found]
      · rfl
    | some previous =>
      simp only [undo, apply, found, Dict.get?_insert, Dict.get?_erase]
      split
      · next same => rw [same, found]
      · rfl
  | replaceBranch replaced change =>
    obtain ⟨previous, found⟩ := Dict.mem_iff_get?.1 admitted
    simp only [undo, apply, found, Dict.get?_insert]
    split
    · next same => rw [same, found]
    · rfl
  | journal children =>
    simp only [undo, apply, get?_eraseAll]
    split
    · next member =>
      obtain ⟨child, isChild, rfl⟩ := List.mem_map.1 member
      exact (Dict.get?_eq_none.2 (admitted child isChild)).symm
    · next notMember =>
      clear admitted
      induction children generalizing branches with
      | nil => rfl
      | cons child children inductionHypothesis =>
        rw [List.map_cons, List.mem_cons, not_or] at notMember
        change (insertAll children (branches.insert child.branchId child)).get? branchId = _
        rw [inductionHypothesis notMember.2, Dict.get?_insert, if_neg notMember.1]

/-- The update has taken effect in memory and in the file, or in neither. -/
theorem run_atomic {branches after : Dict BranchId Branch} {dir next : RegistryDir} {update : Update}
    {failure : Option WriteFailure} {result : Except Fault Unit} (admitted : update.Admitted branches)
    (ran : update.run failure branches dir = (result, after, next)) :
    (result = .ok () ∧ after = update.apply branches ∧ next.registry = .complete after.values) ∨
    ((∃ fault, result = .error fault) ∧ (∀ branchId, after.get? branchId = branches.get? branchId) ∧
      next.registry = dir.registry) := by
  have outcome := dir.persist_cases failure (update.apply branches).values
  unfold run at ran
  split at ran
  · next written persisted =>
    rw [persisted] at outcome
    obtain ⟨_, _, impossible, _⟩ | ⟨_, _, isWritten⟩ := outcome
    · cases impossible
    · cases ran
      exact .inl ⟨rfl, rfl, isWritten⟩
  · next fault written persisted =>
    rw [persisted] at outcome
    obtain ⟨_, _, _, kept⟩ | ⟨_, impossible, _⟩ := outcome
    · cases ran
      exact .inr ⟨⟨fault, rfl⟩, undo_apply admitted, kept⟩
    · cases impossible

/-! ## The updates of the sections -/

/-- The sections that make the updates; the last one is the end of `admitFork`. -/
def perform (config : Config) (failure : Option Fault) (shared : Shared) : Update → Except Fault Unit × Shared
  | .record branch => shared.record config failure branch
  | .forget branchId => shared.forget config failure branchId
  | .replaceBranch branchId change =>
    Prod.map (Except.map fun _ => ()) id (shared.replaceBranch config failure branchId change)
  | .journal children =>
    match persist config failure { shared with branches := insertAll children shared.branches } with
    | (.error fault, shared) => (.error fault, { shared with branches := eraseAll children shared.branches })
    | (.ok (), shared) => (.ok (), shared)

/-- The sections update memory and file as `run` does. -/
theorem perform_refines {config : Config} (registry : config.registry = true) {shared : Shared} {dir : RegistryDir}
    (same : dir.registry = .complete shared.file) {update : Update} (admitted : update.Admitted shared.branches)
    (failure : Option WriteFailure) :
    (update.run failure shared.branches dir).1 = (update.perform config (failure.bind WriteFailure.raised) shared).1 ∧
    (update.run failure shared.branches dir).2.1 =
      (update.perform config (failure.bind WriteFailure.raised) shared).2.branches ∧
    (update.run failure shared.branches dir).2.2.registry =
      .complete (update.perform config (failure.bind WriteFailure.raised) shared).2.file := by
  have outcome := dir.persist_cases failure (update.apply shared.branches).values
  unfold run
  obtain ⟨fault, raised, result, kept⟩ | ⟨raised, result, written⟩ := outcome
  · generalize dir.persist failure (update.apply shared.branches).values = persisted at result kept
    obtain ⟨_, next⟩ := persisted
    cases result
    rw [raised]
    cases update with
    | record branch =>
      simp only [perform, Shared.record, Shared.persist, registry, if_true, undo, apply]
      exact ⟨trivial, by trivial, kept.trans same⟩
    | forget branchId =>
      simp only [perform, Shared.forget, Shared.persist, registry, if_true, undo, apply]
      exact ⟨trivial, by trivial, kept.trans same⟩
    | replaceBranch branchId change =>
      obtain ⟨previous, found⟩ := Dict.mem_iff_get?.1 admitted
      simp only [perform, Shared.replaceBranch, Shared.persist, registry, if_true, undo, apply, found]
      exact ⟨rfl, rfl, kept.trans same⟩
    | journal children =>
      simp only [perform, Shared.persist, registry, if_true, undo, apply]
      exact ⟨trivial, trivial, kept.trans same⟩
  · generalize dir.persist failure (update.apply shared.branches).values = persisted at result written
    obtain ⟨_, next⟩ := persisted
    cases result
    rw [raised]
    cases update with
    | record branch =>
      simp only [perform, Shared.record, Shared.persist, registry, if_true, apply]
      exact ⟨trivial, trivial, written⟩
    | forget branchId =>
      simp only [perform, Shared.forget, Shared.persist, registry, if_true, apply]
      exact ⟨trivial, trivial, written⟩
    | replaceBranch branchId change =>
      obtain ⟨previous, found⟩ := Dict.mem_iff_get?.1 admitted
      simp only [perform, Shared.replaceBranch, Shared.persist, registry, if_true, apply, found] at written ⊢
      exact ⟨rfl, rfl, written⟩
    | journal children =>
      simp only [perform, Shared.persist, registry, if_true, apply]
      exact ⟨trivial, trivial, written⟩

end Update

/-! ## Every step is one update at most -/

/-- A step has changed neither the records in memory nor the file, or has left
the file with the records in memory. -/
def TookEffect (before after : Shared) : Prop :=
  after.file = before.file ∧ (∀ branchId, after.branches.get? branchId = before.branches.get? branchId) ∨
    after.file = after.branches.values

namespace TookEffect

variable {config : Config} {env : Env} {before shared after : Shared}

theorem of_quiet (quiet : Quiet before after) : TookEffect before after :=
  .inl ⟨congrArg World.file quiet.world, quiet.branches⟩

theorem refl (shared : Shared) : TookEffect shared shared := .of_quiet (Quiet.refl shared)

theorem of_write (registry : config.registry = true) :
    (write config shared).file = (write config shared).branches.values := by
  unfold write
  rw [if_pos registry]

theorem record (registry : config.registry = true) (failure : Option Fault) (branch : Branch) (shared : Shared) :
    TookEffect shared (shared.record config failure branch).2 := by
  obtain ⟨fault, after, equal, quiet⟩ | equal := record_cases config failure branch shared
  · rw [equal]
    exact .of_quiet quiet
  · rw [equal]
    exact .inr (of_write registry)

theorem admitParent (registry : config.registry = true) (failure : Option Fault) (now : Int) (branchId : BranchId)
    (tokens : List Nat) (lease : Option Int) (shared : Shared) :
    TookEffect shared (shared.admitParent config failure now branchId tokens lease).2 := by
  unfold Shared.admitParent
  split
  · exact .refl shared
  · split
    · exact .refl shared
    · split
      · exact .refl shared
      · split
        · exact .refl shared
        · next expiry _ =>
          have recorded := TookEffect.record registry failure ⟨branchId, none, .forking, now, expiry⟩ shared
          simp only
          split
          · next failed => rw [failed] at recorded; exact recorded
          · next written => rw [written] at recorded; exact recorded

theorem admitFork (registry : config.registry = true) (failure : Option Fault) (now : Int) (parentId : BranchId)
    (n : Int) (childIds : Option (List BranchId)) (lease : Option Int) (shared : Shared) :
    TookEffect shared (shared.admitFork config failure now parentId n childIds lease).2 := by
  obtain ⟨fault, after, equal, quiet⟩ | ⟨children, after, equal, _⟩ :=
    admitFork_cases config failure now parentId n childIds lease shared
  · rw [equal]
    exact .of_quiet quiet
  · rw [equal]
    -- the children have been planned, and the only write has gone through
    unfold Shared.admitFork at equal
    split at equal
    · cases equal
    · split at equal
      · cases equal
      · split at equal
        · cases equal
        · split at equal
          · cases equal
          · next planned middle _ =>
            obtain ⟨fault, failed⟩ | written := persist_cases config failure
              { middle with branches := insertAll planned middle.branches }
            · rw [failed] at equal
              cases equal
            · rw [written] at equal
              cases equal
              exact .inr (of_write registry)

theorem renewLease (registry : config.registry = true) (failure : Option Fault) (now : Int) (branchId : BranchId)
    (lease : Int) (shared : Shared) : TookEffect shared (shared.renewLease config failure now branchId lease).2 := by
  obtain ⟨fault, after, equal, quiet⟩ | ⟨previous, _, equal⟩ :=
    renewLease_cases config failure now branchId lease shared
  · rw [equal]
    exact .of_quiet quiet
  · rw [equal]
    exact .inr (of_write registry)

theorem startStep (registry : config.registry = true) {task : StartTask} {phase : StartPhase}
    (taken : startStep config env shared task = some (after, phase)) : TookEffect shared after := by
  cases startStep_move taken with
  | begins => exact .refl shared
  | calls _ call replies =>
    obtain rfl | rfl := replies.state
    · cases call <;> exact .inl ⟨rfl, fun _ => rfl⟩
    · exact .refl _
  | goesLive | forgets => exact .inr (of_write registry)
  | staysForking _ _ quiet | staysRecorded _ _ quiet => exact .of_quiet quiet
  | ends => exact .inl ⟨rfl, fun _ => rfl⟩

theorem killStep (registry : config.registry = true) {task : KillTask} {phase : KillPhase}
    (taken : killStep config env shared task = some (after, phase)) : TookEffect shared after := by
  cases killStep_move taken with
  | refused _ _ quiet => exact .of_quiet quiet
  | admitted | forgets => exact .inr (of_write registry)
  | calls _ call replies =>
    obtain rfl | rfl := replies.state
    · cases call <;> exact .inl ⟨rfl, fun _ => rfl⟩
    · exact .refl _
  | fails => exact .inl ⟨rfl, fun _ => rfl⟩
  | staysRecorded _ _ quiet => exact .inl ⟨congrArg World.file quiet.world, quiet.branches⟩

theorem invoke (registry : config.registry = true) {op : Op} {call : Call}
    (invoked : invoke config env shared op = some (after, call)) : TookEffect shared after := by
  cases invoke_move invoked with
  | refused _ quiet => exact .of_quiet quiet
  | @createParent branchId tokens lease _ _ admits =>
    have updated := TookEffect.admitParent registry env.persist env.now branchId tokens lease shared
    rw [admits] at updated
    exact updated
  | @fork parentId n childIds lease _ _ admits =>
    have updated := TookEffect.admitFork registry env.persist env.now parentId n childIds lease shared
    rw [admits] at updated
    exact updated
  | @renewLease branchId lease _ _ renews =>
    have updated := TookEffect.renewLease registry env.persist env.now branchId lease shared
    rw [renews] at updated
    exact updated
  | kills | closed | closing | closes => exact .inl ⟨rfl, fun _ => rfl⟩

end TookEffect

variable {config : Config} {world : World} {shared : Shared} {state after : State} {action : Action}

theorem State.Step.tookEffect (registry : config.registry = true) (taken : state.Step config action after) :
    TookEffect state.shared after.shared := by
  cases State.Step.move taken with
  | @item _ _ _ _ task next _ _ _ _ _ stepped =>
    cases task with
    | start task =>
      obtain ⟨⟨_, phase⟩, moved, equal⟩ := Option.map_eq_some_iff.1 stepped
      cases equal
      exact .startStep registry moved
    | kill task =>
      obtain ⟨⟨_, phase⟩, moved, equal⟩ := Option.map_eq_some_iff.1 stepped
      cases equal
      exact .killStep registry moved
  | journal _ _ _ _ invoked => exact .invoke registry invoked
  | invoke _ _ invoked => exact .invoke registry invoked
  | advance _ _ _ _ advanced =>
    obtain ⟨metrics, closing, closed, rfl⟩ := advance_flags advanced
    exact .inl ⟨rfl, fun _ => rfl⟩

/-! ## Memory and file do not diverge -/

/-- In every state of every run the file holds the records in memory, each step
takes effect in both or in neither, and so does each update wherever its write
fails. -/
theorem memory_and_file_agree (registry : config.registry = true) (booted : Shared.boot config world = .ok shared)
    (reached : Reachable (State.Step config) always (State.fresh shared) state) :
    (∀ branchId, (ofRecords state.shared.file).get? branchId = state.shared.branches.get? branchId) ∧
    (∀ action after, state.Step config action after → TookEffect state.shared after.shared) ∧
    ∀ (update : Update) (failure : Option WriteFailure) (dir next : RegistryDir) (result : Except Fault Unit)
      (branches : Dict BranchId Branch), update.Admitted state.shared.branches →
      dir.registry = .complete state.shared.file →
      update.run failure state.shared.branches dir = (result, branches, next) →
      (result = .ok () ∧ branches = update.apply state.shared.branches ∧ next.registry = .complete branches.values) ∨
      ((∃ fault, result = .error fault) ∧
        (∀ branchId, branches.get? branchId = state.shared.branches.get? branchId) ∧
        next.registry = .complete state.shared.file) := by
  refine ⟨(synced_of_reachable booted reached).file registry, fun action after taken => taken.tookEffect registry, ?_⟩
  intro update failure dir next result branches admitted same ran
  rw [← same]
  exact Update.run_atomic admitted ran

/-- A root goes live, and the write of its kill fails before the rename. -/
def failedWriteRun : List Action :=
  [.invoke (.createParent "p" [] none) returns, .item 0 0 returns, .item 0 0 returns, .item 0 0 returns,
    .item 0 0 returns, .advance 0, .invoke (.kill "p") returns,
    .item 1 0 { returns with persist := some .exception }, .advance 1]

theorem failedWriteRun_agrees :
    ((serialRun failedWriteRun).shared.file.map Branch.state = [.live]) ∧
    ∀ branchId, (ofRecords (serialRun failedWriteRun).shared.file).get? branchId =
      (serialRun failedWriteRun).shared.branches.get? branchId := by
  have reached : Reachable (State.Step serialConfig) always (State.fresh blank) (serialRun failedWriteRun) :=
    serialRun_reachable (by decide) meets_always
  exact ⟨by decide, (memory_and_file_agree rfl boot_blank reached).1⟩

end Agentfork.Orchestrator

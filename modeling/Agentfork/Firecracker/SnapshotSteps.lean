import Agentfork.Firecracker.SnapshotCalls

/-! # What one step of a call does to the disk and to the guests

Only a capture writes snapshot files, and only those of its own branch. Other steps
remove files, which no handle notices, or copy one. A guest gets its memory from a
handle when it is restored, and no step changes that handle later. -/

namespace Agentfork.Firecracker.Snapshots

/-! ## Frames -/

namespace Sandbox

variable (sandbox : Sandbox) (branchId : BranchId) (vm other : Vmm) (lock gen : Nat) (now : Instant)
  (update : Machine → Machine) (parentId : Option BranchId)

@[simp] theorem get?_alter : (sandbox.alter vm update).machines.get? other =
    if other = vm then (sandbox.machines.get? vm).map update else sandbox.machines.get? other := by
  unfold alter
  split
  · next found => simp [found]
  · next absent =>
    split
    · next here => rw [here, absent, Option.map_none]
    · rfl

@[simp] theorem disk_alter : (sandbox.alter vm update).disk = sandbox.disk := by
  unfold alter
  split <;> rfl

@[simp] theorem vms_alter : (sandbox.alter vm update).vms = sandbox.vms := by
  unfold alter
  split <;> rfl

@[simp] theorem snapshots_alter : (sandbox.alter vm update).snapshots = sandbox.snapshots := by
  unfold alter
  split <;> rfl

@[simp] theorem gen_alter : (sandbox.alter vm update).gen = sandbox.gen := by
  unfold alter
  split <;> rfl

@[simp] theorem snapGen_alter : (sandbox.alter vm update).snapGen = sandbox.snapGen := by
  unfold alter
  split <;> rfl

@[simp] theorem parentLocks_alter : (sandbox.alter vm update).parentLocks = sandbox.parentLocks := by
  unfold alter
  split <;> rfl

@[simp] theorem held_alter : (sandbox.alter vm update).held = sandbox.held := by
  unfold alter
  split <;> rfl

@[simp] theorem started_alter : (sandbox.alter vm update).started = sandbox.started := by
  unfold alter
  split <;> rfl

@[simp] theorem disk_release : (sandbox.release lock).disk = sandbox.disk := rfl
@[simp] theorem machines_release : (sandbox.release lock).machines = sandbox.machines := rfl
@[simp] theorem disk_record : (sandbox.record branchId gen).disk = sandbox.disk := rfl
@[simp] theorem machines_record : (sandbox.record branchId gen).machines = sandbox.machines := rfl
@[simp] theorem disk_enter : (sandbox.enter branchId parentId).disk = sandbox.disk := rfl
@[simp] theorem machines_enter : (sandbox.enter branchId parentId).machines = sandbox.machines := rfl
@[simp] theorem disk_leave : (sandbox.leave branchId parentId).disk = sandbox.disk := rfl
@[simp] theorem machines_leave : (sandbox.leave branchId parentId).machines = sandbox.machines := rfl
@[simp] theorem disk_track : (sandbox.track branchId vm).disk = sandbox.disk := rfl
@[simp] theorem machines_track : (sandbox.track branchId vm).machines = sandbox.machines := rfl
@[simp] theorem disk_untrack : (sandbox.untrack branchId).disk = sandbox.disk := rfl
@[simp] theorem machines_untrack : (sandbox.untrack branchId).machines = sandbox.machines := rfl
@[simp] theorem disk_forget : (sandbox.forget branchId).disk = sandbox.disk := rfl
@[simp] theorem machines_forget : (sandbox.forget branchId).machines = sandbox.machines := rfl
@[simp] theorem disk_dropLock : (sandbox.dropLock branchId).disk = sandbox.disk := rfl
@[simp] theorem machines_dropLock : (sandbox.dropLock branchId).machines = sandbox.machines := rfl
@[simp] theorem disk_launch : (sandbox.launch branchId).2.disk = sandbox.disk := rfl

@[simp] theorem disk_bump : (sandbox.bump branchId).disk = sandbox.disk := by
  unfold bump
  split <;> rfl

@[simp] theorem machines_bump : (sandbox.bump branchId).machines = sandbox.machines := by
  unfold bump
  split <;> rfl

@[simp] theorem disk_parentLock : (sandbox.parentLock branchId).2.disk = sandbox.disk := by
  unfold parentLock
  split <;> rfl

@[simp] theorem machines_parentLock : (sandbox.parentLock branchId).2.machines = sandbox.machines := by
  unfold parentLock
  split <;> rfl

variable {sandbox branchId lock} {after : Sandbox}

theorem acquire_some (acquired : sandbox.acquire lock = some after) :
    lock ∉ sandbox.held ∧ after = { sandbox with held := insert lock sandbox.held } := by
  unfold acquire at acquired
  split at acquired
  · cases acquired
  · next free =>
    cases acquired
    exact ⟨free, rfl⟩

/-! ## The disk -/

theorem snapshot_changes {written : Finset SnapshotFile} {touched : Path → Prop}
    (isTouched : ∀ file ∈ written, touched (branchId, file)) : sandbox.disk.Changes
      (sandbox.snapshot branchId vm written now).disk touched ⟨now, sandbox.instantOf vm now⟩ := by
  have one : ∀ (disk : Disk Path Image) (file : SnapshotFile), disk.Changes
      (if file ∈ written then disk.write (branchId, file) ⟨now, sandbox.instantOf vm now⟩ else disk)
      touched ⟨now, sandbox.instantOf vm now⟩ := by
    intro disk file
    split
    · next member => exact .write (isTouched file member)
    · exact .refl disk
  refine (one sandbox.disk .mem).trans (one _ .state) fun path _ => ?_
  split
  · rw [Disk.write_removals]
  · rfl

/-- A snapshot that has succeeded is in both files. -/
theorem snapshot_holds {file : SnapshotFile} {inode : Nat}
    (stored : (sandbox.snapshot branchId vm {.mem, .state} now).disk.inode? (branchId, file) = some inode) :
    (sandbox.snapshot branchId vm {.mem, .state} now).disk.contents inode =
      ⟨now, sandbox.instantOf vm now⟩ := by
  have both : (sandbox.snapshot branchId vm {.mem, .state} now).disk =
      (sandbox.disk.write (branchId, .mem) ⟨now, sandbox.instantOf vm now⟩).write (branchId, .state)
        ⟨now, sandbox.instantOf vm now⟩ := rfl
  rw [both] at stored ⊢
  cases file with
  | mem =>
    -- the second write leaves the memory file alone
    have second : (sandbox.disk.write (branchId, .mem) ⟨now, sandbox.instantOf vm now⟩).Changes
        ((sandbox.disk.write (branchId, .mem) ⟨now, sandbox.instantOf vm now⟩).write (branchId, .state)
          ⟨now, sandbox.instantOf vm now⟩)
        (fun path => path = (branchId, .state)) ⟨now, sandbox.instantOf vm now⟩ := .write rfl
    obtain ⟨stored, same⟩ | ⟨_, written⟩ := second.named _ _ stored
    · obtain ⟨found, isFound, written⟩ :=
        sandbox.disk.write_here (branchId, .mem) ⟨now, sandbox.instantOf vm now⟩
      have sameInode : found = inode := Option.some.inj (isFound.symm.trans stored)
      rw [same, ← sameInode, written]
    · exact written
  | state =>
    obtain ⟨found, isFound, written⟩ := (sandbox.disk.write (branchId, .mem)
      ⟨now, sandbox.instantOf vm now⟩).write_here (branchId, .state) ⟨now, sandbox.instantOf vm now⟩
    have sameInode : found = inode := Option.some.inj (isFound.symm.trans stored)
    rw [← sameInode, written]

theorem cleanup_changes {removed : Finset SnapshotFile} {image : Image} : sandbox.disk.Changes
    (sandbox.cleanupArtifacts branchId removed).disk (fun _ => False) image := by
  have one : ∀ (disk : Disk Path Image) (file : SnapshotFile), disk.Changes
      (if file ∈ removed then disk.remove (branchId, file) else disk) (fun _ => False) image := by
    intro disk file
    split
    · exact .remove
    · exact .refl disk
  exact (one sandbox.disk .mem).trans (one _ .state) fun _ none => none.elim

variable {path : Path} {linked : Bool} {staged : Handle Path}

theorem linkInto_changes (image : Image) (staging : sandbox.linkInto linked path = some (staged, after)) :
    sandbox.disk.Changes after.disk (fun _ => False) image := by
  obtain ⟨source, isSource, equal⟩ := Option.map_eq_some_iff.1 staging
  split at equal
  · cases equal
    exact .refl _
  · cases equal
    exact .copy

theorem linkInto_opened (staging : sandbox.linkInto linked path = some (staged, after)) :
    after.disk.Opened path staged := by
  obtain ⟨source, isSource, equal⟩ := Option.map_eq_some_iff.1 staging
  split at equal
  · cases equal
    exact .of_lookup isSource
  · cases equal
    exact .copied

/-- What was staged is what the path named. -/
theorem linkInto_read (staging : sandbox.linkInto linked path = some (staged, after)) :
    ∃ inode, sandbox.disk.inode? path = some inode ∧ after.disk.read staged = sandbox.disk.contents inode := by
  obtain ⟨source, isSource, equal⟩ := Option.map_eq_some_iff.1 staging
  refine ⟨source.inode, (Disk.lookup_some isSource).1, ?_⟩
  split at equal
  · cases equal
    rfl
  · cases equal
    exact Disk.read_copied

theorem linkInto_machines (staging : sandbox.linkInto linked path = some (staged, after)) :
    after = { sandbox with disk := after.disk } := by
  obtain ⟨source, isSource, equal⟩ := Option.map_eq_some_iff.1 staging
  split at equal <;> cases equal <;> rfl

variable {vm}

/-- The files that a restore reads, and the guest it makes. -/
theorem restore_some {handed : Handed} (restored : sandbox.restore vm handed = some after) :
    ∃ mem state, handed.mem.or (sandbox.disk.lookup (handed.parentId, .mem)) = some mem ∧
      handed.state.or (sandbox.disk.lookup (handed.parentId, .state)) = some state ∧
      after = sandbox.alter vm fun machine => { machine with
        restored := some ⟨handed, mem, sandbox.disk.read mem, sandbox.disk.read state⟩ } := by
  unfold restore at restored
  split at restored
  · next mem state isMem isState => exact ⟨mem, state, isMem, isState, (Option.some.inj restored).symm⟩
  · cases restored

end Sandbox

/-! ## What a step can do -/

section Moves

variable (config : Config) (env : Env) (now : Instant) (sandbox : Sandbox)

inductive CaptureMove (capture : Capture) : CapturePhase → Sandbox → CaptureResult → Prop where
  | synced : CaptureMove capture .sync sandbox (.goes capture .pause)
  | paused : sandbox.runs capture.vm = true → CaptureMove capture .pause (sandbox.pause capture.vm now)
      (.goes capture (if capture.takes then .snapshot else .copyOverlay))
  | taken : sandbox.runs capture.vm = true → env.written capture.vm sandbox = {.mem, .state} →
      CaptureMove capture .snapshot
        (sandbox.snapshot capture.branchId capture.vm (env.written capture.vm sandbox) now)
        (.goes capture .record)
  | torn : CaptureMove capture .snapshot
      (sandbox.snapshot capture.branchId capture.vm (env.written capture.vm sandbox) now)
      (.goes capture (.resume true))
  | recorded : CaptureMove capture .record (sandbox.record capture.branchId capture.gen)
      (.goes capture (if capture.copies then .copyOverlay else .resume false))
  | copied : CaptureMove capture .copyOverlay sandbox
      (.goes { capture with overlay := some (sandbox.instantOf capture.vm now) } (.resume false))
  | uncopied : CaptureMove capture .copyOverlay sandbox (.goes capture (.resume true))
  | returned : CaptureMove capture (.resume false)
      ((sandbox.resume capture.vm).release capture.lock) (.returned capture)
  | raised {phase : CapturePhase} {middle : Sandbox} : middle = sandbox ∨
        middle = sandbox.pause capture.vm now ∨ middle = sandbox.resume capture.vm →
      CaptureMove capture phase (middle.release capture.lock) .raised

/-- The steps of a spawn; `fails` are the steps that raise before there is a VMM,
`aborts` those that raise after. -/
inductive SpawnMove (branchId : BranchId) (parentId : Option BranchId) :
    SpawnPhase → Sandbox → SpawnPhase → Prop where
  | refused : branchId ∈ sandbox.vms ∨ branchId ∈ sandbox.pending →
      SpawnMove branchId parentId .admission sandbox
        (.refused (.valueError s!"branch exists: {branchId}"))
  | admitted : ¬ (branchId ∈ sandbox.vms ∨ branchId ∈ sandbox.pending) →
      SpawnMove branchId parentId .admission (sandbox.enter branchId parentId) .prepare
  | boots : SpawnMove branchId parentId .prepare sandbox (.launch none)
  | forks {source : BranchId} : SpawnMove branchId parentId .prepare sandbox (.lock source)
  | locks {source : BranchId} : SpawnMove branchId parentId (.lock source)
      (sandbox.parentLock source).2 (.acquire source (sandbox.parentLock source).1)
  | acquires {source : BranchId} {lock : Nat} {after : Sandbox} : sandbox.acquire lock = some after →
      SpawnMove branchId parentId (.acquire source lock) after (.inspect source lock now)
  | findsNone {source : BranchId} {lock lockedAt : Nat} : sandbox.vms.get? source = none →
      SpawnMove branchId parentId (.inspect source lock lockedAt) sandbox (.reuse source lock lockedAt)
  | captures {source : BranchId} {lock lockedAt : Nat} {vm : Vmm} {phase : CapturePhase} :
      sandbox.vms.get? source = some vm → phase = .sync ∨ phase = .pause →
      (sandbox.stale source = false → config.overlays = true) →
      SpawnMove branchId parentId (.inspect source lock lockedAt) sandbox
        (.capture ⟨source, lock, lockedAt, vm, sandbox.genOf source, sandbox.stale source,
          config.overlays, none⟩ phase)
  | finds {source : BranchId} {lock lockedAt : Nat} {vm : Vmm} : sandbox.vms.get? source = some vm →
      sandbox.stale source = false → config.overlays = false →
      SpawnMove branchId parentId (.inspect source lock lockedAt) (sandbox.release lock)
        (.staging config ⟨source, lockedAt, true, none, none, none⟩)
  | reuses {source : BranchId} {lock lockedAt : Nat} :
      SpawnMove branchId parentId (.reuse source lock lockedAt) (sandbox.release lock)
        (.staging config ⟨source, lockedAt, false, none, none, none⟩)
  | misses {source : BranchId} {lock lockedAt : Nat} {fault : Fault} :
      SpawnMove branchId parentId (.reuse source lock lockedAt) (sandbox.release lock) (.discard fault)
  | captured {capture : Capture} {phase : CapturePhase} {after : Sandbox} {result : CaptureResult} :
      CaptureMove env now sandbox capture phase after result →
      SpawnMove branchId parentId (.capture capture phase) after (result.forked config)
  | linksMem {handed : Handed} {staged : Handle Path} {after : Sandbox} :
      sandbox.linkInto env.linked (handed.parentId, .mem) = some (staged, after) →
      SpawnMove branchId parentId (.linkMem handed) after (.linkState { handed with mem := some staged })
  | linksState {handed : Handed} {staged : Handle Path} {after : Sandbox} :
      sandbox.linkInto env.linked (handed.parentId, .state) = some (staged, after) →
      SpawnMove branchId parentId (.linkState handed) after
        (.launch (some { handed with state := some staged }))
  | launches {handed : Option Handed} : SpawnMove branchId parentId (.launch handed)
      (sandbox.launch branchId).2 (.start (sandbox.launch branchId).1 handed)
  | booted {vm : Vmm} : SpawnMove branchId parentId (.start vm none) sandbox (.install vm)
  | restored {vm : Vmm} {handed : Handed} {after : Sandbox} : sandbox.runs vm = true →
      sandbox.restore vm handed = some after →
      SpawnMove branchId parentId (.start vm (some handed)) after (.install vm)
  | installs {vm : Vmm} :
      SpawnMove branchId parentId (.install vm) (sandbox.track branchId vm) (.reseed vm)
  | reseeds {vm : Vmm} : SpawnMove branchId parentId (.reseed vm) sandbox (.settle (.ok ()))
  | fails {phase : SpawnPhase} : (phase = .prepare ∨ (∃ handed, phase = .linkMem handed) ∨
        (∃ handed, phase = .linkState handed) ∨ ∃ handed, phase = .launch handed) →
      SpawnMove branchId parentId phase sandbox (.discard .raised)
  | aborts {phase : SpawnPhase} {vm : Vmm} : ((∃ handed, phase = .start vm handed) ∨
        phase = .install vm ∨ phase = .reseed vm) →
      SpawnMove branchId parentId phase sandbox (.abort vm)
  | untracks {vm : Vmm} :
      SpawnMove branchId parentId (.abort vm) (sandbox.untrack branchId) (.reap vm)
  | reaps {vm : Vmm} :
      SpawnMove branchId parentId (.reap vm) (sandbox.exit vm now) (.discard .raised)
  | discards {fault : Fault} : SpawnMove branchId parentId (.discard fault)
      (sandbox.cleanupArtifacts branchId env.removed) (.settle (.error fault))
  | settles {outcome : Except Fault Unit} : SpawnMove branchId parentId (.settle outcome)
      (sandbox.leave branchId parentId) (.finished outcome)

inductive ExecMove (branchId : BranchId) : ExecPhase → Sandbox → ExecPhase → Prop where
  | locks : ExecMove branchId .lock (sandbox.parentLock branchId).2
      (.acquire (sandbox.parentLock branchId).1)
  | acquires {lock : Nat} {after : Sandbox} : sandbox.acquire lock = some after →
      ExecMove branchId (.acquire lock) after (.inspect lock)
  | finds {lock : Nat} : branchId ∈ sandbox.vms → ExecMove branchId (.inspect lock) sandbox (.run lock)
  | misses {lock : Nat} {fault : Fault} :
      ExecMove branchId (.inspect lock) (sandbox.release lock) (.refused fault)
  | runs {lock : Nat} {outcome : Except Fault Unit} :
      ExecMove branchId (.run lock) sandbox (.bump lock outcome)
  | bumps {lock : Nat} {outcome : Except Fault Unit} : ExecMove branchId (.bump lock outcome)
      ((sandbox.bump branchId).release lock) (.finished outcome now)

inductive CheckpointMove (branchId : BranchId) : CheckpointPhase → Sandbox → CheckpointPhase → Prop where
  | locks : CheckpointMove branchId .lock (sandbox.parentLock branchId).2
      (.acquire (sandbox.parentLock branchId).1)
  | acquires {lock : Nat} {after : Sandbox} : sandbox.acquire lock = some after →
      CheckpointMove branchId (.acquire lock) after (.inspect lock now)
  | misses {lock lockedAt : Nat} {outcome : Except Fault Unit} : sandbox.vms.get? branchId = none →
      CheckpointMove branchId (.inspect lock lockedAt) (sandbox.release lock) (.finished outcome)
  | finds {lock lockedAt : Nat} {vm : Vmm} {phase : CapturePhase} :
      sandbox.vms.get? branchId = some vm → phase = .sync ∨ phase = .pause →
      CheckpointMove branchId (.inspect lock lockedAt) sandbox
        (.capture ⟨branchId, lock, lockedAt, vm, sandbox.genOf branchId, true, false, none⟩ phase)
  | captured {capture : Capture} {phase : CapturePhase} {after : Sandbox} {result : CaptureResult} :
      CaptureMove env now sandbox capture phase after result →
      CheckpointMove branchId (.capture capture phase) after result.checkpointed

inductive KillMove (branchId : BranchId) : KillPhase → Sandbox → KillPhase → Prop where
  | takes {vm : Vmm} : sandbox.vms.get? branchId = some vm →
      KillMove branchId .wait (sandbox.forget branchId) (.reap vm)
  | misses : sandbox.vms.get? branchId = none →
      KillMove branchId .wait (sandbox.forget branchId) .recover
  | reaps {vm : Vmm} : KillMove branchId (.reap vm) (sandbox.exit vm now) (.cleanup true)
  | recovers {phase : KillPhase} : KillMove branchId .recover sandbox phase
  | cleans {dropsLock : Bool} {phase : KillPhase} : KillMove branchId (.cleanup dropsLock)
      (sandbox.cleanupArtifacts branchId env.removed) phase
  | drops {phase : KillPhase} : KillMove branchId .dropLock (sandbox.dropLock branchId) phase

end Moves

section Inversion

variable {config : Config} {env : Env} {now : Instant} {sandbox after : Sandbox}

theorem written_of_answer {vm : Vmm} (answered : env.answer vm sandbox = .returned) :
    sandbox.runs vm = true ∧ env.written vm sandbox = {.mem, .state} := by
  refine ⟨?_, by rw [Env.written, answered]⟩
  unfold Env.answer at answered
  split at answered
  · assumption
  · cases answered

theorem captureStep_moves (capture : Capture) (phase : CapturePhase) :
    CaptureMove env now sandbox capture phase (captureStep env now sandbox capture phase).1
      (captureStep env now sandbox capture phase).2 := by
  cases phase with
  | sync =>
    simp only [captureStep]
    split
    · exact .synced
    · exact .raised (.inl rfl)
  | pause =>
    simp only [captureStep]
    split
    · next answered => exact .paused (written_of_answer answered).1
    · refine .raised ?_
      split
      · exact .inr (.inl rfl)
      · exact .inl rfl
  | snapshot =>
    simp only [captureStep]
    split
    · next answered => exact .taken (written_of_answer answered).1 (written_of_answer answered).2
    · exact .torn
  | record => exact .recorded
  | copyOverlay =>
    simp only [captureStep]
    split
    · exact .copied
    · exact .uncopied
  | resume failed =>
    simp only [captureStep]
    split
    · cases failed
      · exact .returned
      · exact .raised (.inr (.inr rfl))
    · refine .raised ?_
      split
      · exact .inr (.inr rfl)
      · exact .inl rfl

theorem spawnStep_moves {task : SpawnTask} {phase : SpawnPhase}
    (taken : spawnStep config env now sandbox task = some (after, phase)) :
    SpawnMove config env now sandbox task.branchId task.parentId task.phase after phase := by
  obtain ⟨branchId, parentId, before⟩ := task
  cases before with
  | admission =>
    simp only [spawnStep] at taken
    split at taken
    · next busy =>
      cases taken
      exact .refused busy
    · next free =>
      cases taken
      exact .admitted free
  | refused fault => cases taken
  | prepare =>
    simp only [spawnStep] at taken
    split at taken
    · cases parentId with
      | none =>
        cases taken
        exact .boots
      | some source =>
        cases taken
        exact .forks
    · cases taken
      exact .fails (.inl rfl)
  | lock source =>
    cases taken
    exact .locks
  | acquire source lock =>
    obtain ⟨_, acquired, equal⟩ := Option.map_eq_some_iff.1 taken
    cases equal
    exact .acquires acquired
  | inspect source lock lockedAt =>
    simp only [spawnStep, inspectParent] at taken
    split at taken
    · next absent =>
      cases taken
      exact .findsNone absent
    · next vm found =>
      split at taken
      · next syncs =>
        cases taken
        simp only [Bool.and_eq_true] at syncs
        exact .captures found (.inl rfl) fun _ => syncs.1.2
      · split at taken
        · next works =>
          cases taken
          refine .captures found (.inr rfl) fun current => ?_
          simpa only [current, Bool.false_or] using works
        · next idle =>
          cases taken
          simp only [Bool.or_eq_true, not_or, Bool.not_eq_true] at idle
          exact .finds found idle.1 idle.2
  | reuse source lock lockedAt =>
    simp only [spawnStep] at taken
    split at taken
    · split at taken <;> cases taken
      · exact .reuses
      · exact .misses
    · cases taken
      exact .misses
  | capture capture work =>
    simp only [spawnStep] at taken
    cases taken
    exact .captured (captureStep_moves capture work)
  | linkMem handed =>
    simp only [spawnStep] at taken
    split at taken
    · next staging =>
      cases taken
      exact .linksMem staging
    · cases taken
      exact .fails (.inr (.inl ⟨handed, rfl⟩))
  | linkState handed =>
    simp only [spawnStep] at taken
    split at taken
    · next staging =>
      cases taken
      exact .linksState staging
    · cases taken
      exact .fails (.inr (.inr (.inl ⟨handed, rfl⟩)))
  | launch handed =>
    simp only [spawnStep] at taken
    split at taken <;> cases taken
    · exact .launches
    · exact .fails (.inr (.inr (.inr ⟨handed, rfl⟩)))
  | start vm handed =>
    simp only [spawnStep] at taken
    split at taken
    · cases taken
      exact .booted
    · next answered =>
      split at taken
      · next restored =>
        cases taken
        exact .restored (written_of_answer answered).1 restored
      · cases taken
        exact .aborts (.inl ⟨_, rfl⟩)
    · cases taken
      exact .aborts (.inl ⟨_, rfl⟩)
  | install vm =>
    simp only [spawnStep] at taken
    split at taken <;> cases taken
    · exact .installs
    · exact .aborts (.inr (.inl rfl))
  | reseed vm =>
    simp only [spawnStep] at taken
    split at taken <;> cases taken
    · exact .aborts (.inr (.inr rfl))
    · exact .reseeds
  | abort vm =>
    cases taken
    exact .untracks
  | reap vm =>
    cases taken
    exact .reaps
  | discard fault =>
    cases taken
    exact .discards
  | settle outcome =>
    cases taken
    exact .settles
  | finished outcome => cases taken

theorem execStep_moves {task : ExecTask} {phase : ExecPhase}
    (taken : execStep env now sandbox task = some (after, phase)) :
    ExecMove now sandbox task.branchId task.phase after phase := by
  obtain ⟨branchId, detached, before⟩ := task
  cases before with
  | lock =>
    cases taken
    exact .locks
  | acquire lock =>
    obtain ⟨_, acquired, equal⟩ := Option.map_eq_some_iff.1 taken
    cases equal
    exact .acquires acquired
  | inspect lock =>
    simp only [execStep] at taken
    split at taken
    · next live =>
      cases taken
      exact .finds live
    · cases taken
      exact .misses
  | run lock =>
    simp only [execStep] at taken
    split at taken <;> cases taken <;> exact .runs
  | bump lock outcome =>
    cases taken
    exact .bumps
  | refused fault => cases taken
  | finished outcome returnedAt => cases taken

theorem checkpointStep_moves {task : CheckpointTask} {phase : CheckpointPhase}
    (taken : checkpointStep config env now sandbox task = some (after, phase)) :
    CheckpointMove env now sandbox task.branchId task.phase after phase := by
  obtain ⟨branchId, before⟩ := task
  cases before with
  | lock =>
    cases taken
    exact .locks
  | acquire lock =>
    obtain ⟨_, acquired, equal⟩ := Option.map_eq_some_iff.1 taken
    cases equal
    exact .acquires acquired
  | inspect lock lockedAt =>
    simp only [checkpointStep] at taken
    split at taken
    · next absent =>
      cases taken
      exact .misses absent
    · next vm found =>
      cases taken
      refine .finds found ?_
      split
      · exact .inl rfl
      · exact .inr rfl
  | capture capture work =>
    simp only [checkpointStep] at taken
    cases taken
    exact .captured (captureStep_moves capture work)
  | finished outcome => cases taken

theorem killStep_moves {task : KillTask} {phase : KillPhase}
    (taken : killStep env now sandbox task = some (after, phase)) :
    KillMove env now sandbox task.branchId task.phase after phase := by
  obtain ⟨branchId, before⟩ := task
  cases before with
  | wait =>
    simp only [killStep] at taken
    split at taken
    · cases taken
    · split at taken
      · next found =>
        cases taken
        exact .takes found
      · next absent =>
        cases taken
        exact .misses absent
  | reap vm =>
    cases taken
    exact .reaps
  | recover =>
    simp only [killStep] at taken
    split at taken <;> cases taken <;> exact .recovers
  | cleanup dropsLock =>
    simp only [killStep] at taken
    split at taken <;> cases taken <;> exact .cleans
  | dropLock =>
    cases taken
    exact .drops
  | finished outcome => cases taken

/-- The step of a call is one of its kind. -/
inductive CallMove (config : Config) (env : Env) (now : Instant) (sandbox : Sandbox) :
    Call → Sandbox → Call → Prop where
  | spawn {branchId : BranchId} {parentId : Option BranchId} {before phase : SpawnPhase} {after : Sandbox} :
      SpawnMove config env now sandbox branchId parentId before after phase →
      CallMove config env now sandbox (.spawn ⟨branchId, parentId, before⟩) after
        (.spawn ⟨branchId, parentId, phase⟩)
  | exec {branchId : BranchId} {detached : Bool} {before phase : ExecPhase} {after : Sandbox} :
      ExecMove now sandbox branchId before after phase →
      CallMove config env now sandbox (.exec ⟨branchId, detached, before⟩) after
        (.exec ⟨branchId, detached, phase⟩)
  | checkpoint {branchId : BranchId} {before phase : CheckpointPhase} {after : Sandbox} :
      CheckpointMove env now sandbox branchId before after phase →
      CallMove config env now sandbox (.checkpoint ⟨branchId, before⟩) after (.checkpoint ⟨branchId, phase⟩)
  | kill {branchId : BranchId} {before phase : KillPhase} {after : Sandbox} :
      KillMove env now sandbox branchId before after phase →
      CallMove config env now sandbox (.kill ⟨branchId, before⟩) after (.kill ⟨branchId, phase⟩)

theorem Call.step_moves {call next : Call} (taken : call.step config env now sandbox = some (after, next)) :
    CallMove config env now sandbox call after next := by
  cases call with
  | spawn task =>
    obtain ⟨⟨_, phase⟩, stepped, equal⟩ := Option.map_eq_some_iff.1 taken
    cases equal
    exact .spawn (spawnStep_moves stepped)
  | exec task =>
    obtain ⟨⟨_, phase⟩, stepped, equal⟩ := Option.map_eq_some_iff.1 taken
    cases equal
    exact .exec (execStep_moves stepped)
  | checkpoint task =>
    obtain ⟨⟨_, phase⟩, stepped, equal⟩ := Option.map_eq_some_iff.1 taken
    cases equal
    exact .checkpoint (checkpointStep_moves stepped)
  | kill task =>
    obtain ⟨⟨_, phase⟩, stepped, equal⟩ := Option.map_eq_some_iff.1 taken
    cases equal
    exact .kill (killStep_moves stepped)

end Inversion

/-! ## What a call holds and touches -/

def Handed.stage (file : SnapshotFile) (staged : Handle Path) (handed : Handed) : Handed :=
  match file with
  | .mem => { handed with mem := some staged }
  | .state => { handed with state := some staged }

def Handed.staged (file : SnapshotFile) (handed : Handed) : Option (Handle Path) :=
  match file with
  | .mem => handed.mem
  | .state => handed.state

theorem Handed.staged_stage (file other : SnapshotFile) (staged : Handle Path) (handed : Handed) :
    (handed.stage file staged).staged other = if other = file then some staged else handed.staged other := by
  cases file <;> cases other <;> rfl

@[simp] theorem Handed.parentId_stage (file : SnapshotFile) (staged : Handle Path) (handed : Handed) :
    (handed.stage file staged).parentId = handed.parentId := by
  cases file <;> rfl

/-- What the spawn has been handed, until its child is restored. -/
def SpawnPhase.handed : SpawnPhase → Option Handed
  | .linkMem handed | .linkState handed => some handed
  | .launch handed | .start _ handed => handed
  | _ => none

namespace Call

def handed : Call → Option Handed
  | .spawn task => task.phase.handed
  | _ => none

/-- What the call is doing to a live branch. -/
def capturing : Call → Option (Capture × CapturePhase)
  | .spawn ⟨_, _, .capture capture phase⟩ => some (capture, phase)
  | .checkpoint ⟨_, .capture capture phase⟩ => some (capture, phase)
  | _ => none

/-- The next step of the call writes the file. -/
def Touches (env : Env) (sandbox : Sandbox) (call : Call) (path : Path) : Prop :=
  ∃ capture, call.capturing = some (capture, .snapshot) ∧ path.1 = capture.branchId ∧
    path.2 ∈ env.written capture.vm sandbox

/-- What it writes. -/
def image (now : Instant) (sandbox : Sandbox) (call : Call) : Image :=
  ⟨now, (call.capturing.map fun work => sandbox.instantOf work.1.vm now).getD now⟩

end Call

@[simp] theorem handed_staging (config : Config) (handed : Handed) :
    (SpawnPhase.staging config handed).handed = some handed := by
  unfold SpawnPhase.staging
  split <;> rfl

section Steps

variable {config : Config} {env : Env} {now : Instant} {sandbox after : Sandbox}

/-! ## The disk -/

theorem CaptureMove.disk {capture : Capture} {phase : CapturePhase} {result : CaptureResult}
    (move : CaptureMove env now sandbox capture phase after result) : sandbox.disk.Changes after.disk
      (fun path => phase = .snapshot ∧ path.1 = capture.branchId ∧ path.2 ∈ env.written capture.vm sandbox)
      ⟨now, sandbox.instantOf capture.vm now⟩ := by
  cases move with
  | taken | torn => exact Sandbox.snapshot_changes capture.vm now fun file member => ⟨rfl, rfl, member⟩
  | synced | recorded | copied | uncopied => exact .refl _
  | paused | returned =>
    simp only [Sandbox.pause, Sandbox.resume, Sandbox.disk_release, Sandbox.disk_alter]
    exact .refl _
  | raised isMiddle =>
    obtain rfl | rfl | rfl := isMiddle <;>
      simp only [Sandbox.pause, Sandbox.resume, Sandbox.disk_release, Sandbox.disk_alter] <;> exact .refl _

theorem CallMove.disk {call next : Call} (move : CallMove config env now sandbox call after next) :
    sandbox.disk.Changes after.disk (call.Touches env sandbox) (call.image now sandbox) := by
  cases move with
  | @spawn branchId parentId before phase after move =>
    cases move with
    | @captured capture work after result move =>
      refine move.disk.weaken fun path isTouched => ?_
      exact ⟨capture, by rw [← isTouched.1]; rfl, isTouched.2⟩
    | linksMem staging | linksState staging =>
      exact (Sandbox.linkInto_changes _ staging).weaken fun _ none => none.elim
    | discards => exact Sandbox.cleanup_changes.weaken fun _ none => none.elim
    | acquires acquired =>
      obtain ⟨_, rfl⟩ := Sandbox.acquire_some acquired
      exact .refl _
    | restored _ restored =>
      obtain ⟨_, _, _, _, rfl⟩ := Sandbox.restore_some restored
      rw [Sandbox.disk_alter]
      exact .refl _
    | locks =>
      rw [Sandbox.disk_parentLock]
      exact .refl _
    | reaps =>
      rw [Sandbox.exit, Sandbox.disk_alter]
      exact .refl _
    | _ => exact .refl _
  | exec move =>
    cases move with
    | locks =>
      rw [Sandbox.disk_parentLock]
      exact .refl _
    | acquires acquired =>
      obtain ⟨_, rfl⟩ := Sandbox.acquire_some acquired
      exact .refl _
    | bumps =>
      rw [Sandbox.disk_release, Sandbox.disk_bump]
      exact .refl _
    | _ => exact .refl _
  | checkpoint move =>
    cases move with
    | @captured capture work after result move =>
      refine move.disk.weaken fun path isTouched => ?_
      exact ⟨capture, by rw [← isTouched.1]; rfl, isTouched.2⟩
    | locks =>
      rw [Sandbox.disk_parentLock]
      exact .refl _
    | acquires acquired =>
      obtain ⟨_, rfl⟩ := Sandbox.acquire_some acquired
      exact .refl _
    | _ => exact .refl _
  | kill move =>
    cases move with
    | cleans => exact Sandbox.cleanup_changes.weaken fun _ none => none.elim
    | reaps =>
      rw [Sandbox.exit, Sandbox.disk_alter]
      exact .refl _
    | _ => exact .refl _

/-! ## The guests -/

/-- The guest is one that was there, or has not been restored, or the VMM runs no
guest any more. -/
def Keeps (before after : Sandbox) : Prop :=
  ∀ vm machine, after.machines.get? vm = some machine → machine.restored = none ∨
    ∃ old, before.machines.get? vm = some old ∧ machine.restored = old.restored ∧
      (machine.running = true → old.running = true)

theorem Keeps.of_eq {before after : Sandbox} (same : after.machines = before.machines) : Keeps before after :=
  fun _ machine found => .inr ⟨machine, same ▸ found, rfl, id⟩

theorem keeps_alter {vm : Vmm} {update : Machine → Machine}
    (restored : ∀ machine, (update machine).restored = machine.restored)
    (running : ∀ machine, (update machine).running = true → machine.running = true) :
    Keeps sandbox (sandbox.alter vm update) := by
  intro other machine found
  rw [Sandbox.get?_alter] at found
  split at found
  · next here =>
    obtain ⟨old, isOld, rfl⟩ := Option.map_eq_some_iff.1 found
    exact .inr ⟨old, here ▸ isOld, restored old, running old⟩
  · exact .inr ⟨machine, found, rfl, id⟩

theorem keeps_pause (sandbox : Sandbox) (vm : Vmm) : Keeps sandbox (sandbox.pause vm now) :=
  keeps_alter (fun _ => rfl) fun _ running => running

theorem keeps_exit (vm : Vmm) : Keeps sandbox (sandbox.exit vm now) :=
  keeps_alter (fun _ => rfl) (fun _ same => by cases same)

theorem keeps_resume (sandbox : Sandbox) (vm : Vmm) : Keeps sandbox (sandbox.resume vm) := by
  refine keeps_alter (fun machine => ?_) fun machine running => ?_
  · split <;> rfl
  · split at running <;> exact running

theorem keeps_launch (branchId : BranchId) : Keeps sandbox (sandbox.launch branchId).2 := by
  intro vm machine found
  have stored : (sandbox.machines.insert ⟨branchId, sandbox.started⟩ ⟨none, true, none⟩).get? vm =
      some machine := found
  rw [Dict.get?_insert] at stored
  split at stored
  · cases stored
    exact .inl rfl
  · exact .inr ⟨machine, stored, rfl, id⟩

theorem CaptureMove.keeps {capture : Capture} {phase : CapturePhase} {result : CaptureResult}
    (move : CaptureMove env now sandbox capture phase after result) : Keeps sandbox after := by
  cases move with
  | paused => exact keeps_pause sandbox capture.vm
  | returned => exact keeps_resume sandbox capture.vm
  | raised isMiddle =>
    obtain rfl | rfl | rfl := isMiddle
    · exact .of_eq rfl
    · exact keeps_pause sandbox capture.vm
    · exact keeps_resume sandbox capture.vm
  | _ => exact .of_eq rfl

/-- A step keeps the guests, or restores one from what its spawn has been handed. -/
theorem CallMove.guests {call next : Call} (move : CallMove config env now sandbox call after next) :
    Keeps sandbox after ∨ ∃ vm handed mem state, call.handed = some handed ∧
      handed.mem.or (sandbox.disk.lookup (handed.parentId, .mem)) = some mem ∧
      handed.state.or (sandbox.disk.lookup (handed.parentId, .state)) = some state ∧
      after = sandbox.alter vm fun machine => { machine with
        restored := some ⟨handed, mem, sandbox.disk.read mem, sandbox.disk.read state⟩ } := by
  cases move with
  | @spawn branchId parentId before phase after move =>
    cases move with
    | captured move => exact .inl move.keeps
    | @restored vm handed after _ restored =>
      obtain ⟨mem, state, isMem, isState, isAfter⟩ := Sandbox.restore_some restored
      exact .inr ⟨vm, handed, mem, state, rfl, isMem, isState, isAfter⟩
    | linksMem staging | linksState staging =>
      rw [Sandbox.linkInto_machines staging]
      exact .inl (.of_eq rfl)
    | acquires acquired =>
      obtain ⟨_, rfl⟩ := Sandbox.acquire_some acquired
      exact .inl (.of_eq rfl)
    | locks => exact .inl (.of_eq (Sandbox.machines_parentLock ..))
    | launches => exact .inl (keeps_launch branchId)
    | reaps => exact .inl (keeps_exit _)
    | _ => exact .inl (.of_eq rfl)
  | exec move =>
    cases move with
    | locks => exact .inl (.of_eq (Sandbox.machines_parentLock ..))
    | acquires acquired =>
      obtain ⟨_, rfl⟩ := Sandbox.acquire_some acquired
      exact .inl (.of_eq rfl)
    | bumps => exact .inl (.of_eq (Sandbox.machines_bump ..))
    | _ => exact .inl (.of_eq rfl)
  | checkpoint move =>
    cases move with
    | captured move => exact .inl move.keeps
    | locks => exact .inl (.of_eq (Sandbox.machines_parentLock ..))
    | acquires acquired =>
      obtain ⟨_, rfl⟩ := Sandbox.acquire_some acquired
      exact .inl (.of_eq rfl)
    | _ => exact .inl (.of_eq rfl)
  | kill move =>
    cases move with
    | reaps => exact .inl (keeps_exit _)
    | _ => exact .inl (.of_eq rfl)

/-! ## Staged files -/

/-- What a call has been handed after a step was handed before, or is new and has
no file staged yet, or has one more file staged. -/
theorem CallMove.staged {call next : Call} (move : CallMove config env now sandbox call after next)
    {handed : Handed} (isHanded : next.handed = some handed) :
    call.handed = some handed ∨ handed.mem = none ∧ handed.state = none ∨
      ∃ file staged old, sandbox.linkInto env.linked (old.parentId, file) = some (staged, after) ∧
        call.handed = some old ∧ handed = old.stage file staged := by
  cases move with
  | @spawn branchId parentId before phase after move =>
    have isHanded : phase.handed = some handed := isHanded
    show before.handed = some handed ∨ _
    cases move with
    | finds | reuses =>
      rw [handed_staging] at isHanded
      cases isHanded
      exact .inr (.inl ⟨rfl, rfl⟩)
    | @captured capture work after result move =>
      cases result with
      | goes => cases isHanded
      | raised => cases isHanded
      | returned capture =>
        rw [CaptureResult.forked, handed_staging] at isHanded
        cases isHanded
        exact .inr (.inl ⟨rfl, rfl⟩)
    | linksMem staging =>
      cases isHanded
      exact .inr (.inr ⟨.mem, _, _, staging, rfl, rfl⟩)
    | linksState staging =>
      cases isHanded
      exact .inr (.inr ⟨.state, _, _, staging, rfl, rfl⟩)
    | launches => exact .inl isHanded
    | _ => cases isHanded
  | exec => cases isHanded
  | checkpoint => cases isHanded
  | kill => cases isHanded

end Steps

end Agentfork.Firecracker.Snapshots

import Agentfork.Firecracker.Sandbox
import Agentfork.Library.Transition

/-! # kill without a handle, one system call at a time

A restarted sandbox has no handle for a branch that an earlier one has spawned,
and kills it by the pid record. The record is compared with `/proc` twice, before
and after the pidfd is opened, and between any two of these system calls
processes of the host may exit and their pids go to others.

The executable of a process stands for what `/proc/<pid>/exe` resolves to while
the process has the pid. -/

namespace Agentfork.Firecracker

open Transition

/-- What the host makes of a system call that not every host has. -/
inductive Facility where
  | works
  /-- Python has no such function: an `AttributeError` -/
  | missing
  /-- a `PermissionError` -/
  | refused
  deriving DecidableEq, Repr

structure RecoveryConfig where
  vmmComm : String
  pidfdOpen : Facility
  pidfdSendSignal : Facility

/-- What comes of a look into `/proc`. -/
inductive Reading where
  | reads
  /-- an error that is taken for the absence of the process -/
  | fails
  /-- a `ProcessLookupError`: the process has gone between `open` and `read` -/
  | lost
  deriving DecidableEq, Repr

inductive RecoveryPhase where
  | readRecord
  /-- in the first `_process_identity` -/
  | readStat (record : PidRecord)
  | readExe (record : PidRecord) (startTime : Nat)
  /-- in `_pid_is_our_vmm`, for a record of an older version -/
  | readComm (record current : PidRecord)
  | openPidfd (record current : PidRecord)
  /-- in the second `_process_identity` -/
  | readStatAgain (record current : PidRecord) (pidfd : Nat)
  | readExeAgain (record current : PidRecord) (pidfd startTime : Nat)
  | sendSignal (record : PidRecord) (pidfd : Nat)
  /-- `os.kill`, when there is no way by pidfd -/
  | plainKill (record : PidRecord)
  | cleanup
  | finished (outcome : Except Fault Unit)

namespace Sandbox

/-- `os.path.realpath(f"/proc/{pid}/exe")`, which leaves the path of a process that is gone as it is. -/
def exeOf (pid : Nat) (sandbox : Sandbox) : String :=
  match sandbox.withPid pid with
  | some (_, process) => process.exe
  | none => s!"/proc/{pid}/exe"

end Sandbox

/-- One step of the recovery path of `kill`; the last component gets a SIGKILL. -/
def recoverStep (config : RecoveryConfig) (branchId : BranchId) (reading : Reading) (permitted : Bool)
    (sandbox : Sandbox) : RecoveryPhase → Option (Sandbox × RecoveryPhase × Option Process)
  | .readRecord =>
    match sandbox.records.get? branchId with
    | none => some (sandbox, .cleanup, none)
    | some none => some (sandbox, .finished (.error
        (.runtimeError s!"invalid Firecracker pid record for {branchId}")), none)
    | some (some record) => some (sandbox, .readStat record, none)
  | .readStat record =>
    match reading, sandbox.withPid record.pid with
    | .reads, some (_, process) => some (sandbox, .readExe record process.startTime, none)
    | .lost, _ => some (sandbox, .finished (.error .raised), none)
    | _, _ => some (sandbox, .cleanup, none)
  | .readExe record startTime =>
    let current : PidRecord := ⟨record.pid, some startTime, some (sandbox.exeOf record.pid)⟩
    if record.startTime.isSome && record.exe.isSome then
      if current ≠ record then some (sandbox, .cleanup, none)
      else some (sandbox, .openPidfd record current, none)
    else some (sandbox, .readComm record current, none)
  | .readComm record current =>
    match reading, sandbox.withPid record.pid with
    | .reads, some (_, process) =>
      if process.comm = config.vmmComm then some (sandbox, .openPidfd record current, none)
      else some (sandbox, .cleanup, none)
    | _, _ => some (sandbox, .openPidfd record current, none)
  | .openPidfd record current =>
    match config.pidfdOpen, sandbox.withPid record.pid with
    | .works, some (proc, _) => some (sandbox, .readStatAgain record current proc, none)
    | .works, none => some (sandbox, .cleanup, none)
    | _, _ => some (sandbox, .plainKill record, none)
  | .readStatAgain record current pidfd =>
    match reading, sandbox.withPid record.pid with
    | .reads, some (_, process) => some (sandbox, .readExeAgain record current pidfd process.startTime, none)
    -- `None` is not the identity there was, and a `ProcessLookupError` is passed over
    | _, _ => some (sandbox, .cleanup, none)
  | .readExeAgain record current pidfd startTime =>
    if (⟨record.pid, some startTime, some (sandbox.exeOf record.pid)⟩ : PidRecord) = current then
      some (sandbox, .sendSignal record pidfd, none)
    else some (sandbox, .cleanup, none)
  | .sendSignal record pidfd =>
    match config.pidfdSendSignal with
    | .works => some (sandbox, .cleanup, sandbox.processes.get? pidfd)
    | _ => some (sandbox, .plainKill record, none)
  | .plainKill record =>
    some (sandbox, .cleanup, if permitted then (sandbox.withPid record.pid).map Prod.snd else none)
  | .cleanup => some (sandbox.removePidRecord branchId, .finished (.ok ()), none)
  | .finished _ => none

/-! ## The recovery and the host -/

structure Recovery where
  sandbox : Sandbox
  phase : RecoveryPhase
  /-- the processes that the recovery has sent a SIGKILL -/
  killed : List Process

inductive RecoveryAction where
  | exit (proc : Nat)
  | launch (process : Process)
  /-- the recovery makes its next system call -/
  | call (reading : Reading) (permitted : Bool)
  deriving DecidableEq

namespace Recovery

def step (config : RecoveryConfig) (branchId : BranchId) (recovery : Recovery) : RecoveryAction → Option Recovery
  | .exit proc => some { recovery with sandbox := recovery.sandbox.exit proc }
  | .launch process =>
    if process.pid = 0 then none
    else (recovery.sandbox.launch process).map fun (_, sandbox) => { recovery with sandbox := sandbox }
  | .call reading permitted =>
    (recoverStep config branchId reading permitted recovery.sandbox recovery.phase).map
      fun (sandbox, phase, receiver) => ⟨sandbox, phase, recovery.killed ++ receiver.toList⟩

def Step (config : RecoveryConfig) (branchId : BranchId) (before : Recovery) (action : RecoveryAction)
    (after : Recovery) : Prop :=
  before.step config branchId action = some after

def enter (sandbox : Sandbox) : Recovery := ⟨sandbox, .readRecord, []⟩

end Recovery

def Process.identity (process : Process) : PidRecord := ⟨process.pid, some process.startTime, some process.exe⟩

/-- The process is the one that the record is about. -/
def Process.IsRecorded (process : Process) (record : PidRecord) : Prop := process.identity = record

/-! ## Processes and their numbers -/

/-- No two processes have one pid, none has pid 0, and the numbers of processes are not reused. -/
structure Sandbox.Numbered (sandbox : Sandbox) : Prop where
  positive : ∀ proc process, sandbox.processes.get? proc = some process → process.pid ≠ 0
  issued : ∀ proc process, sandbox.processes.get? proc = some process → proc < sandbox.started
  pids : ∀ first second process other, sandbox.processes.get? first = some process →
    sandbox.processes.get? second = some other → process.pid = other.pid → first = second

namespace Sandbox

variable {sandbox after : Sandbox} {pid proc : Nat} {process : Process}

theorem withPid_some (found : sandbox.withPid pid = some (proc, process)) :
    sandbox.processes.get? proc = some process ∧ process.pid = pid := by
  unfold withPid at found
  have same := List.find?_some found
  exact ⟨Dict.mem_entries.1 (List.mem_of_find?_eq_some found), by simpa using same⟩

theorem withPid_of_running (numbered : sandbox.Numbered) (running : sandbox.processes.get? proc = some process) :
    sandbox.withPid process.pid = some (proc, process) := by
  cases found : sandbox.withPid process.pid with
  | none =>
    unfold withPid at found
    rw [List.find?_eq_none] at found
    exact absurd (decide_eq_true rfl) (found (proc, process) (Dict.mem_entries.2 running))
  | some entry =>
    obtain ⟨first, other⟩ := entry
    obtain ⟨otherRuns, samePid⟩ := withPid_some found
    have same := numbered.pids first proc other process otherRuns running samePid
    subst same
    rw [running] at otherRuns
    cases otherRuns
    rfl

theorem exeOf_of_running (numbered : sandbox.Numbered) (running : sandbox.processes.get? proc = some process) :
    sandbox.exeOf process.pid = process.exe := by
  unfold exeOf
  rw [withPid_of_running numbered running]

theorem Numbered.exit (numbered : sandbox.Numbered) (proc : Nat) : (sandbox.exit proc).Numbered := by
  have before : ∀ {other process}, (sandbox.exit proc).processes.get? other = some process →
      sandbox.processes.get? other = some process := by
    intro other process running
    unfold Sandbox.exit at running
    rw [Dict.get?_erase] at running
    split at running
    · cases running
    · exact running
  exact ⟨fun other process running => numbered.positive other process (before running),
    fun other process running => numbered.issued other process (before running),
    fun first second process other running otherRuns => numbered.pids first second process other (before running)
      (before otherRuns)⟩

theorem launch_eq {vm : MicroVM} (launched : sandbox.launch process = some (vm, after)) :
    sandbox.withPid process.pid = none ∧ after = { sandbox with
      processes := sandbox.processes.insert sandbox.started process
      started := sandbox.started + 1 } := by
  unfold launch at launched
  split at launched
  · cases launched
  · next free =>
    cases launched
    exact ⟨by simpa using free, rfl⟩

theorem Numbered.launch (numbered : sandbox.Numbered) {vm : MicroVM} (positive : process.pid ≠ 0)
    (launched : sandbox.launch process = some (vm, after)) : after.Numbered := by
  obtain ⟨free, rfl⟩ := launch_eq launched
  have unused : ∀ other running, sandbox.processes.get? other = some running → running.pid ≠ process.pid := by
    intro other running found samePid
    have taken := withPid_of_running numbered found
    rw [samePid, free] at taken
    cases taken
  constructor
  · intro other running found
    rw [Dict.get?_insert] at found
    split at found
    · cases found
      exact positive
    · exact numbered.positive other running found
  · intro other running found
    rw [Dict.get?_insert] at found
    split at found
    · next here => exact here ▸ Nat.lt_succ_self _
    · exact Nat.lt_succ_of_lt (numbered.issued other running found)
  · intro first second running other found otherFound samePid
    rw [Dict.get?_insert] at found otherFound
    split at found <;> split at otherFound
    · next firstHere secondHere => exact firstHere.trans secondHere.symm
    · cases found
      exact absurd samePid.symm (unused second other otherFound)
    · cases otherFound
      exact absurd samePid (unused first running found)
    · exact numbered.pids first second running other found otherFound samePid

/-! ## What a pidfd stands for -/

/-- The pidfd is of a process that was there; it meets the condition if it still is. -/
structure Pinned (sandbox : Sandbox) (pidfd : Nat) (condition : Process → Prop) : Prop where
  issued : pidfd < sandbox.started
  holds : ∀ process, sandbox.processes.get? pidfd = some process → condition process

variable {pidfd : Nat} {condition : Process → Prop}

theorem Pinned.exit (pinned : sandbox.Pinned pidfd condition) (proc : Nat) : (sandbox.exit proc).Pinned pidfd condition := by
  refine ⟨pinned.issued, fun process running => ?_⟩
  unfold Sandbox.exit at running
  rw [Dict.get?_erase] at running
  split at running
  · cases running
  · exact pinned.holds process running

/-- A new process is not the one that the pidfd is of, whatever pid it gets. -/
theorem Pinned.launch (pinned : sandbox.Pinned pidfd condition) {vm : MicroVM}
    (launched : sandbox.launch process = some (vm, after)) : after.Pinned pidfd condition := by
  obtain ⟨_, rfl⟩ := launch_eq launched
  refine ⟨Nat.lt_succ_of_lt pinned.issued, fun other running => ?_⟩
  rw [Dict.get?_insert, if_neg (Nat.ne_of_lt pinned.issued)] at running
  exact pinned.holds other running

/-- What is read under the pid is read of the process of the pidfd, if that is still there. -/
theorem Pinned.withPid (numbered : sandbox.Numbered) (pinned : sandbox.Pinned pidfd condition)
    (ofPid : ∀ process, condition process → process.pid = pid) (found : sandbox.withPid pid = some (proc, process)) :
    sandbox.Pinned pidfd fun other => condition other ∧ other = process := by
  refine ⟨pinned.issued, fun other running => ⟨pinned.holds other running, ?_⟩⟩
  have same := withPid_of_running numbered running
  rw [ofPid other (pinned.holds other running), found] at same
  cases same
  rfl

end Sandbox

/-! ## No stranger is killed -/

/-- What the recovery knows in each phase, for a record with start time and executable. -/
def RecoveryPhase.Knows (sandbox : Sandbox) (record : PidRecord) : RecoveryPhase → Prop
  | .readRecord | .cleanup | .finished _ => True
  | .readStat read => read = record
  | .readExe read _ => read = record ∧ record.pid ≠ 0
  | .readComm _ _ | .plainKill _ => False
  | .openPidfd read current => read = record ∧ record.pid ≠ 0 ∧ current = record
  | .readStatAgain read current pidfd => read = record ∧ record.pid ≠ 0 ∧ current = record ∧
      sandbox.Pinned pidfd fun process => process.pid = record.pid
  | .readExeAgain read current pidfd startTime => read = record ∧ record.pid ≠ 0 ∧ current = record ∧
      sandbox.Pinned pidfd fun process => process.pid = record.pid ∧ process.startTime = startTime
  | .sendSignal read pidfd => read = record ∧ record.pid ≠ 0 ∧
      sandbox.Pinned pidfd fun process => process.IsRecorded record

structure Recovery.Careful (branchId : BranchId) (record : PidRecord) (recovery : Recovery) : Prop where
  numbered : recovery.sandbox.Numbered
  stored : recovery.phase = .readRecord → recovery.sandbox.records.get? branchId = some (some record)
  knows : recovery.phase.Knows recovery.sandbox record
  killed : ∀ process ∈ recovery.killed, process.IsRecorded record

theorem RecoveryPhase.Knows.host {sandbox after : Sandbox} {record : PidRecord} {phase : RecoveryPhase}
    (knows : phase.Knows sandbox record)
    (stays : ∀ pidfd condition, sandbox.Pinned pidfd condition → after.Pinned pidfd condition) :
    phase.Knows after record := by
  cases phase with
  | readStatAgain read current pidfd => exact ⟨knows.1, knows.2.1, knows.2.2.1, stays _ _ knows.2.2.2⟩
  | readExeAgain read current pidfd startTime => exact ⟨knows.1, knows.2.1, knows.2.2.1, stays _ _ knows.2.2.2⟩
  | sendSignal read pidfd => exact ⟨knows.1, knows.2.1, stays _ _ knows.2.2⟩
  | _ => exact knows

section Works

variable {config : RecoveryConfig} {branchId : BranchId} {record : PidRecord} {recovery next : Recovery}
  {action : RecoveryAction} {reading : Reading} {permitted : Bool} {sandbox after : Sandbox}
  {phase moved : RecoveryPhase} {receiver : Option Process}

/-- One system call of the recovery, where the calls on pidfds work. -/
theorem recoverStep_careful
    (works : record.pid ≠ 0 → config.pidfdOpen = .works ∧ config.pidfdSendSignal = .works)
    (carries : record.startTime.isSome = true ∧ record.exe.isSome = true) (numbered : sandbox.Numbered)
    (stored : phase = .readRecord → sandbox.records.get? branchId = some (some record))
    (knows : phase.Knows sandbox record)
    (taken : recoverStep config branchId reading permitted sandbox phase = some (after, moved, receiver)) :
    moved.Knows after record ∧ after.processes = sandbox.processes ∧ after.started = sandbox.started ∧
      moved ≠ .readRecord ∧ ∀ process, receiver = some process → process.IsRecorded record := by
  cases phase with
  | readRecord =>
    simp only [recoverStep, stored rfl] at taken
    cases taken
    exact ⟨rfl, rfl, rfl, nofun, nofun⟩
  | readStat read =>
    cases knows
    simp only [recoverStep] at taken
    split at taken <;> cases taken
    · next found =>
      -- no process has pid 0
      obtain ⟨running, samePid⟩ := Sandbox.withPid_some found
      exact ⟨⟨rfl, samePid ▸ numbered.positive _ _ running⟩, rfl, rfl, nofun, fun _ same => by cases same⟩
    · exact ⟨trivial, rfl, rfl, nofun, nofun⟩
    · exact ⟨trivial, rfl, rfl, nofun, nofun⟩
  | readExe read startTime =>
    obtain ⟨rfl, positive⟩ := knows
    simp only [recoverStep, carries, Bool.and_self, if_true] at taken
    split at taken <;> cases taken
    · exact ⟨trivial, rfl, rfl, nofun, nofun⟩
    · next same => exact ⟨⟨rfl, positive, not_not.1 same⟩, rfl, rfl, nofun, nofun⟩
  | readComm | plainKill => exact knows.elim
  | openPidfd read current =>
    obtain ⟨rfl, positive, rfl⟩ := knows
    simp only [recoverStep, (works positive).1] at taken
    cases found : sandbox.withPid current.pid with
    | none =>
      rw [found] at taken
      cases taken
      exact ⟨trivial, rfl, rfl, nofun, fun _ same => by cases same⟩
    | some entry =>
      obtain ⟨proc, process⟩ := entry
      rw [found] at taken
      cases taken
      obtain ⟨running, samePid⟩ := Sandbox.withPid_some found
      refine ⟨⟨rfl, positive, rfl, numbered.issued proc process running, fun other otherRuns => ?_⟩, rfl, rfl, nofun,
        nofun⟩
      rw [running] at otherRuns
      cases otherRuns
      exact samePid
  | readStatAgain read current pidfd =>
    obtain ⟨rfl, positive, rfl, pinned⟩ := knows
    simp only [recoverStep] at taken
    split at taken <;> cases taken
    · next proc process _ found =>
      have pinned := pinned.withPid numbered (fun _ samePid => samePid) found
      refine ⟨⟨rfl, positive, rfl, pinned.issued, fun other running => ?_⟩, rfl, rfl, nofun, nofun⟩
      obtain ⟨samePid, rfl⟩ := pinned.holds other running
      exact ⟨samePid, rfl⟩
    · exact ⟨trivial, rfl, rfl, nofun, nofun⟩
  | readExeAgain read current pidfd startTime =>
    obtain ⟨rfl, positive, rfl, pinned⟩ := knows
    simp only [recoverStep] at taken
    split at taken <;> cases taken
    · next same =>
      refine ⟨⟨rfl, positive, pinned.issued, fun process running => ?_⟩, rfl, rfl, nofun, nofun⟩
      -- the process of the pidfd had the pid all the while, so it is the one that was read
      obtain ⟨samePid, sameStart⟩ := pinned.holds process running
      have sameExe := Sandbox.exeOf_of_running numbered running
      rw [samePid] at sameExe
      unfold Process.IsRecorded Process.identity
      rw [samePid, sameStart, ← sameExe]
      exact same
    · exact ⟨trivial, rfl, rfl, nofun, nofun⟩
  | sendSignal read pidfd =>
    obtain ⟨rfl, positive, pinned⟩ := knows
    simp only [recoverStep, (works positive).2] at taken
    cases taken
    exact ⟨trivial, rfl, rfl, nofun, fun process running => pinned.holds process running⟩
  | cleanup =>
    simp only [recoverStep] at taken
    cases taken
    exact ⟨trivial, rfl, rfl, nofun, nofun⟩
  | finished outcome =>
    simp only [recoverStep] at taken
    cases taken

theorem Recovery.Careful.step
    (works : record.pid ≠ 0 → config.pidfdOpen = .works ∧ config.pidfdSendSignal = .works)
    (carries : record.startTime.isSome = true ∧ record.exe.isSome = true) (careful : recovery.Careful branchId record)
    (taken : recovery.Step config branchId action next) : next.Careful branchId record := by
  unfold Recovery.Step Recovery.step at taken
  cases action with
  | exit proc =>
    cases taken
    exact ⟨careful.numbered.exit proc, careful.stored,
      careful.knows.host fun _ _ pinned => pinned.exit proc, careful.killed⟩
  | launch process =>
    simp only at taken
    split at taken
    · cases taken
    · next positive =>
      obtain ⟨⟨vm, sandbox⟩, launched, rfl⟩ := Option.map_eq_some_iff.1 taken
      refine ⟨careful.numbered.launch positive launched, fun atStart => ?_,
        careful.knows.host fun _ _ pinned => pinned.launch launched, careful.killed⟩
      obtain ⟨_, rfl⟩ := Sandbox.launch_eq launched
      exact careful.stored atStart
  | call reading permitted =>
    obtain ⟨⟨sandbox, phase, receiver⟩, stepped, rfl⟩ := Option.map_eq_some_iff.1 taken
    obtain ⟨knows, processes, started, notStart, recorded⟩ :=
      recoverStep_careful works carries careful.numbered careful.stored careful.knows stepped
    refine ⟨?_, fun atStart => absurd atStart notStart, knows, fun process member => ?_⟩
    · constructor
      · simp only [processes]
        exact careful.numbered.positive
      · simp only [processes, started]
        exact careful.numbered.issued
      · simp only [processes]
        exact careful.numbered.pids
    · obtain before | isReceiver := List.mem_append.1 member
      · exact careful.killed process before
      · exact recorded process (Option.mem_toList.1 isReceiver)

end Works

/-! ## The fallback kills whoever has the pid -/

section FallsBack

/-- One process runs; the record of the branch is as given. -/
def soloHost (branchId : BranchId) (record : PidRecord) (proc : Nat) (process : Process) : Sandbox where
  vms := .empty
  pending := ∅
  parentForks := .empty
  records := Dict.empty.insert branchId (some record)
  processes := Dict.empty.insert proc process
  started := proc + 1

variable {config : RecoveryConfig} {branchId : BranchId} {record : PidRecord} {proc : Nat} {process : Process}
  {phase : RecoveryPhase}

theorem soloHost_get? {other : Nat} {running : Process}
    (found : (soloHost branchId record proc process).processes.get? other = some running) :
    other = proc ∧ running = process := by
  unfold soloHost at found
  rw [Dict.get?_insert] at found
  split at found
  · next here => exact ⟨here, (Option.some.inj found).symm⟩
  · cases found

theorem soloHost_numbered (positive : process.pid ≠ 0) : (soloHost branchId record proc process).Numbered where
  positive other running found := by
    rw [(soloHost_get? found).2]
    exact positive
  issued other running found := by
    rw [(soloHost_get? found).1]
    exact Nat.lt_succ_self proc
  pids first second _ _ found otherFound _ := (soloHost_get? found).1.trans (soloHost_get? otherFound).1.symm

theorem soloHost_withPid (samePid : process.pid = record.pid) :
    (soloHost branchId record proc process).withPid record.pid = some (proc, process) := by
  rw [← samePid]
  unfold Sandbox.withPid soloHost
  exact List.find?_cons_of_pos (decide_eq_true rfl)

theorem Recovery.Step.call {sandbox after : Sandbox} {moved : RecoveryPhase} {receiver : Option Process}
    {reading : Reading} {permitted : Bool} (killed : List Process)
    (stepped : recoverStep config branchId reading permitted sandbox phase = some (after, moved, receiver)) :
    Recovery.Step config branchId ⟨sandbox, phase, killed⟩ (.call reading permitted)
      ⟨after, moved, killed ++ receiver.toList⟩ := by
  unfold Recovery.Step Recovery.step
  simp only [stepped, Option.map_some]

/-- The process exits and its pid goes to another one. -/
theorem soloHost_takeover {stranger : Process} (positive : stranger.pid ≠ 0) :
    Reachable (Recovery.Step config branchId) always ⟨soloHost branchId record proc process, phase, []⟩
      ⟨soloHost branchId record (proc + 1) stranger, phase, []⟩ := by
  let empty : Sandbox := { soloHost branchId record proc process with processes := .empty }
  have gone : (soloHost branchId record proc process).exit proc = empty := by
    simp [empty, Sandbox.exit, soloHost, Dict.erase, Dict.insert, Dict.empty, Dict.eraseEntry, Dict.insertEntry]
  have exits : Recovery.Step config branchId ⟨soloHost branchId record proc process, phase, []⟩ (.exit proc)
      ⟨empty, phase, []⟩ := congrArg (fun sandbox => some (Recovery.mk sandbox phase [])) gone
  have launches : Recovery.Step config branchId ⟨empty, phase, []⟩ (.launch stranger)
      ⟨soloHost branchId record (proc + 1) stranger, phase, []⟩ := by
    unfold Recovery.Step Recovery.step
    simp only [if_neg positive]
    rfl
  exact .tail (.tail .refl trivial exits) trivial launches

/-- The first three system calls find the process that is recorded. -/
theorem soloHost_recognized :
    Reachable (Recovery.Step config branchId) always (Recovery.enter (soloHost branchId process.identity proc process))
      ⟨soloHost branchId process.identity proc process, .openPidfd process.identity process.identity, []⟩ := by
  let host := soloHost branchId process.identity proc process
  have found : host.withPid process.identity.pid = some (proc, process) := soloHost_withPid rfl
  have exe : host.exeOf process.identity.pid = process.exe := by
    unfold Sandbox.exeOf
    rw [found]
  have stored : host.records.get? branchId = some (some process.identity) := by
    unfold host soloHost
    rw [Dict.get?_insert, if_pos rfl]
  have readsRecord : recoverStep config branchId .reads true host .readRecord =
      some (host, .readStat process.identity, none) := by
    simp only [recoverStep, stored]
  have readsStat : recoverStep config branchId .reads true host (.readStat process.identity) =
      some (host, .readExe process.identity process.startTime, none) := by
    simp only [recoverStep, found]
  have readsExe : recoverStep config branchId .reads true host (.readExe process.identity process.startTime) =
      some (host, .openPidfd process.identity process.identity, none) := by
    simp only [recoverStep, exe]
    exact if_neg (not_not.2 rfl)
  exact .tail (.tail (.tail .refl trivial (.call [] readsRecord)) trivial (.call [] readsStat)) trivial
    (.call [] readsExe)

/-- The pidfd is opened, and the process is still there. -/
theorem soloHost_reopened (openWorks : config.pidfdOpen = .works) :
    Reachable (Recovery.Step config branchId) always
      ⟨soloHost branchId process.identity proc process, .openPidfd process.identity process.identity, []⟩
      ⟨soloHost branchId process.identity proc process, .sendSignal process.identity proc, []⟩ := by
  let host := soloHost branchId process.identity proc process
  have found : host.withPid process.identity.pid = some (proc, process) := soloHost_withPid rfl
  have exe : host.exeOf process.identity.pid = process.exe := by
    unfold Sandbox.exeOf
    rw [found]
  have opens : recoverStep config branchId .reads true host (.openPidfd process.identity process.identity) =
      some (host, .readStatAgain process.identity process.identity proc, none) := by
    simp only [recoverStep, openWorks, found]
  have readsStat : recoverStep config branchId .reads true host (.readStatAgain process.identity process.identity proc) =
      some (host, .readExeAgain process.identity process.identity proc process.startTime, none) := by
    simp only [recoverStep, found]
  have readsExe : recoverStep config branchId .reads true host
      (.readExeAgain process.identity process.identity proc process.startTime) =
        some (host, .sendSignal process.identity proc, none) := by
    simp only [recoverStep, exe]
    exact if_pos rfl
  exact .tail (.tail (.tail .refl trivial (.call [] opens)) trivial (.call [] readsStat)) trivial (.call [] readsExe)

/-- Whoever has the pid when the fallback signals it gets the SIGKILL. -/
theorem soloHost_plainKill (samePid : process.pid = record.pid) :
    Recovery.Step config branchId ⟨soloHost branchId record proc process, .plainKill record, []⟩ (.call .reads true)
      ⟨soloHost branchId record proc process, .cleanup, [process]⟩ := by
  have signals : recoverStep config branchId .reads true (soloHost branchId record proc process) (.plainKill record) =
      some (soloHost branchId record proc process, .cleanup, some process) := by
    simp only [recoverStep, soloHost_withPid samePid]
    rfl
  exact .call [] signals

/-- Where the calls on pidfds do not work, a stranger that takes the pid over before the fallback is killed. -/
theorem stranger_killed (fallsBack : ¬ (config.pidfdOpen = .works ∧ config.pidfdSendSignal = .works))
    {stranger : Process} (positive : stranger.pid ≠ 0) (samePid : stranger.pid = process.pid) :
    ∃ recovery, Reachable (Recovery.Step config branchId) always
      (Recovery.enter (soloHost branchId process.identity 0 process)) recovery ∧ stranger ∈ recovery.killed := by
  have killed : ∀ {proc}, Recovery.Step config branchId
      ⟨soloHost branchId process.identity proc stranger, .plainKill process.identity, []⟩ (.call .reads true)
      ⟨soloHost branchId process.identity proc stranger, .cleanup, [stranger]⟩ := soloHost_plainKill samePid
  by_cases openWorks : config.pidfdOpen = .works
  · -- the signal by pidfd is what fails
    have falls : recoverStep config branchId .reads true (soloHost branchId process.identity (0 + 1) stranger)
        (.sendSignal process.identity 0) =
          some (soloHost branchId process.identity (0 + 1) stranger, .plainKill process.identity, none) := by
      simp only [recoverStep]
      split
      · next sendWorks => exact absurd ⟨openWorks, sendWorks⟩ fallsBack
      · rfl
    have reached : Reachable (Recovery.Step config branchId) always
        (Recovery.enter (soloHost branchId process.identity 0 process))
        ⟨soloHost branchId process.identity (0 + 1) stranger, .sendSignal process.identity 0, []⟩ :=
      (soloHost_recognized.trans (soloHost_reopened openWorks)).trans (soloHost_takeover positive)
    exact ⟨_, .tail (.tail reached trivial (.call [] falls)) trivial killed, List.mem_singleton.2 rfl⟩
  · have falls : recoverStep config branchId .reads true (soloHost branchId process.identity (0 + 1) stranger)
        (.openPidfd process.identity process.identity) =
          some (soloHost branchId process.identity (0 + 1) stranger, .plainKill process.identity, none) := by
      simp only [recoverStep]
      split
      · next works _ => exact absurd works openWorks
      · next works _ => exact absurd works openWorks
      · rfl
    have reached : Reachable (Recovery.Step config branchId) always
        (Recovery.enter (soloHost branchId process.identity 0 process))
        ⟨soloHost branchId process.identity (0 + 1) stranger, .openPidfd process.identity process.identity, []⟩ :=
      soloHost_recognized.trans (soloHost_takeover positive)
    exact ⟨_, .tail (.tail reached trivial (.call [] falls)) trivial killed, List.mem_singleton.2 rfl⟩

end FallsBack

/-- The recovery sends SIGKILL to no process but the one recorded, whatever
processes exit and whoever gets their pids meanwhile. -/
def SparesStrangers (config : RecoveryConfig) (branchId : BranchId) (record : PidRecord) : Prop :=
  ∀ sandbox recovery, sandbox.Numbered → sandbox.records.get? branchId = some (some record) →
    Reachable (Recovery.Step config branchId) always (Recovery.enter sandbox) recovery →
      ∀ process ∈ recovery.killed, process.IsRecorded record

/-- No stranger is killed exactly where the calls on pidfds work. -/
theorem spares_strangers_iff (config : RecoveryConfig) (branchId : BranchId) (pid startTime : Nat) (exe : String) :
    SparesStrangers config branchId ⟨pid, some startTime, some exe⟩ ↔
      pid = 0 ∨ config.pidfdOpen = .works ∧ config.pidfdSendSignal = .works := by
  constructor
  · intro spares
    by_contra neither
    obtain ⟨positive, fallsBack⟩ := not_or.1 neither
    let recorded : Process := ⟨pid, startTime, exe, "", none⟩
    let stranger : Process := ⟨pid, startTime + 1, exe, "", none⟩
    have killed : ∃ recovery, Reachable (Recovery.Step config branchId) always
        (Recovery.enter (soloHost branchId recorded.identity 0 recorded)) recovery ∧ stranger ∈ recovery.killed :=
      stranger_killed fallsBack positive rfl
    obtain ⟨recovery, reached, member⟩ := killed
    have stored : (soloHost branchId recorded.identity 0 recorded).records.get? branchId = some (some recorded.identity) := by
      unfold soloHost
      rw [Dict.get?_insert, if_pos rfl]
    have isRecorded := spares _ recovery (soloHost_numbered positive) stored reached stranger member
    have sameStart := congrArg PidRecord.startTime isRecorded
    exact absurd (Option.some.inj sameStart) (Nat.succ_ne_self startTime)
  · intro condition sandbox recovery numbered stored reached
    have works : pid ≠ 0 → config.pidfdOpen = .works ∧ config.pidfdSendSignal = .works := condition.resolve_left
    have careful : recovery.Careful branchId ⟨pid, some startTime, some exe⟩ := by
      refine reached.invariant ⟨numbered, fun _ => stored, trivial, fun _ member => absurd member List.not_mem_nil⟩ ?_
      intro before action after careful _ taken
      exact careful.step works ⟨rfl, rfl⟩ taken
    exact careful.killed

/-- On a host that refuses `pidfd_open`, the recorded process exits after it was
compared with the record, and another program gets its pid. -/
theorem program_killed_for_its_pid : ¬ ∀ config branchId pid startTime exe,
    SparesStrangers config branchId ⟨pid, some startTime, some exe⟩ := by
  intro claimed
  let config : RecoveryConfig := ⟨"firecracker", .refused, .works⟩
  let recorded : Process := ⟨4321, 1000, "/usr/bin/firecracker", "firecracker", none⟩
  let stranger : Process := ⟨4321, 2000, "/usr/bin/python3", "python3", none⟩
  let call : RecoveryAction := .call .reads true
  let actions := [call, call, call, .exit 0, .launch stranger, call, call]
  let start := Recovery.enter (soloHost "ghost" recorded.identity 0 recorded)
  have reached : Reachable (Recovery.Step config "ghost") always start
      (runFrom (Recovery.step config "ghost") start actions) := reachable_runFrom (by decide) meets_always
  have isRecorded := claimed config "ghost" 4321 1000 "/usr/bin/firecracker" _ _ (soloHost_numbered (by decide)) rfl
    reached stranger (by decide)
  exact absurd (congrArg PidRecord.exe isRecorded) (by decide)

end Agentfork.Firecracker

import Mathlib.Data.List.Basic

/-! # Threads, child processes and the parent-death signal

The threads of one process and the processes that they create. The parent of a
child is a thread: when that thread ends while others of its process live on, the
child is given to one of them, and a child that has armed the parent-death signal
receives it then. A `SIGKILL` cannot be caught, so its receiver stops running. -/

namespace Agentfork.ProcessTree

variable {τ κ : Type}

/-- Where a `SIGKILL` comes from. -/
inductive Origin (κ : Type) where
  | sent (sender : κ)
  | parentDeath
  deriving DecidableEq

structure Process (τ κ : Type) where
  parent : τ
  /-- it has set its parent-death signal -/
  armed : Bool
  running : Bool
  /-- the signals that it has received -/
  received : List (Origin κ)

namespace Process

def signal (origin : Origin κ) (process : Process τ κ) : Process τ κ :=
  if process.running then { process with running := false, received := process.received ++ [origin] }
  else process

theorem mem_signal {origin other : Origin κ} {process : Process τ κ} :
    other ∈ (process.signal origin).received ↔
      other ∈ process.received ∨ process.running = true ∧ other = origin := by
  unfold signal
  cases process.running <;> simp

/-- The thread `gone` has ended and its children go to `heir`. -/
def inherit [DecidableEq τ] (gone heir : τ) (process : Process τ κ) : Process τ κ :=
  if process.parent = gone then
    if process.armed then { process with parent := heir }.signal .parentDeath
    else { process with parent := heir }
  else process

theorem mem_inherit [DecidableEq τ] {gone heir : τ} {origin : Origin κ} {process : Process τ κ} :
    origin ∈ (process.inherit gone heir).received ↔ origin ∈ process.received ∨
      (process.parent = gone ∧ process.armed = true ∧ process.running = true) ∧ origin = .parentDeath := by
  unfold inherit
  split
  · next isChild =>
    split
    · next armed => simp [mem_signal, isChild, armed]
    · next notArmed => simp [notArmed]
  · next notChild => simp [notChild]

end Process

structure Tree (τ κ : Type) where
  threads : List τ
  processes : List (Process τ κ)

namespace Tree

/-- `fork` by a thread; the child gets the next number. -/
def fork (parent : τ) (tree : Tree τ κ) : Tree τ κ :=
  { tree with processes := tree.processes ++ [⟨parent, false, true, []⟩] }

@[simp] theorem length_fork {parent : τ} {tree : Tree τ κ} :
    (tree.fork parent).processes.length = tree.processes.length + 1 :=
  List.length_append

def update (pid : Nat) (change : Process τ κ → Process τ κ) (tree : Tree τ κ) : Tree τ κ :=
  { tree with processes := tree.processes.modify pid change }

/-- `prctl(PR_SET_PDEATHSIG, SIGKILL)` by the child. -/
def arm (pid : Nat) (tree : Tree τ κ) : Tree τ κ := tree.update pid fun process => { process with armed := true }

def exit (pid : Nat) (tree : Tree τ κ) : Tree τ κ := tree.update pid fun process => { process with running := false }

def send (pid : Nat) (sender : κ) (tree : Tree τ κ) : Tree τ κ := tree.update pid (Process.signal (.sent sender))

def startThread (thread : τ) (tree : Tree τ κ) : Tree τ κ := { tree with threads := tree.threads ++ [thread] }

def endThread [DecidableEq τ] (gone heir : τ) (tree : Tree τ κ) : Tree τ κ where
  threads := tree.threads.erase gone
  processes := tree.processes.map (Process.inherit gone heir)

/-- The whole process ends, and every armed child gets its signal. -/
def endProcess (tree : Tree τ κ) : Tree τ κ where
  threads := []
  processes := tree.processes.map fun process =>
    if process.armed then process.signal .parentDeath else process

/-! ## Which signals there are -/

/-- The child has received the signal. -/
def Received (tree : Tree τ κ) (pid : Nat) (origin : Origin κ) : Prop :=
  ∃ process, tree.processes[pid]? = some process ∧ origin ∈ process.received

variable {tree : Tree τ κ} {pid : Nat} {origin : Origin κ}

theorem Received.inside (received : tree.Received pid origin) : pid < tree.processes.length := by
  obtain ⟨process, found, _⟩ := received
  exact (List.getElem?_eq_some_iff.1 found).1

theorem received_fork {parent : τ} : (tree.fork parent).Received pid origin ↔ tree.Received pid origin := by
  constructor
  · intro received
    obtain ⟨process, found, member⟩ := received
    simp only [fork, List.getElem?_append] at found
    split at found
    · exact ⟨process, found, member⟩
    · obtain ⟨_, isNew⟩ := List.getElem?_eq_some_iff.1 found
      simp only [List.getElem_singleton] at isNew
      subst isNew
      cases member
  · intro received
    obtain ⟨process, found, member⟩ := received
    refine ⟨process, ?_, member⟩
    rw [fork, List.getElem?_append_left (List.getElem?_eq_some_iff.1 found).1]
    exact found

theorem received_update {target : Nat} {change : Process τ κ → Process τ κ} :
    (tree.update target change).Received pid origin ↔ ∃ process, tree.processes[pid]? = some process ∧
      origin ∈ (if target = pid then change process else process).received := by
  unfold Received update
  simp only [List.getElem?_modify]
  cases tree.processes[pid]? with
  | none => simp
  | some process => by_cases here : target = pid <;> simp [here]

/-- A change that brings no signal. -/
theorem received_update_of_same {target : Nat} {change : Process τ κ → Process τ κ}
    (same : ∀ process, (change process).received = process.received) :
    (tree.update target change).Received pid origin ↔ tree.Received pid origin := by
  rw [received_update]
  refine exists_congr fun process => and_congr_right fun _ => ?_
  split
  · rw [same]
  · rfl

theorem received_arm {target : Nat} : (tree.arm target).Received pid origin ↔ tree.Received pid origin :=
  received_update_of_same fun _ => rfl

theorem received_exit {target : Nat} : (tree.exit target).Received pid origin ↔ tree.Received pid origin :=
  received_update_of_same fun _ => rfl

/-- Whom a signal is sent to gets that one and nobody else gets one. -/
theorem received_of_send {target : Nat} {sender : κ} (received : (tree.send target sender).Received pid origin) :
    tree.Received pid origin ∨ pid = target ∧ origin = .sent sender := by
  obtain ⟨process, found, member⟩ := received_update.1 received
  split at member
  · next here =>
    obtain old | ⟨_, new⟩ := Process.mem_signal.1 member
    · exact .inl ⟨process, found, old⟩
    · exact .inr ⟨here.symm, new⟩
  · exact .inl ⟨process, found, member⟩

/-- The end of a thread signals its armed children and no others. -/
theorem received_endThread [DecidableEq τ] {gone heir : τ} :
    (tree.endThread gone heir).Received pid origin ↔ tree.Received pid origin ∨
      (∃ process, tree.processes[pid]? = some process ∧ process.parent = gone ∧ process.armed = true ∧
        process.running = true) ∧ origin = .parentDeath := by
  unfold Received endThread
  simp only [List.getElem?_map]
  cases tree.processes[pid]? with
  | none => simp
  | some process => simp [Process.mem_inherit, and_assoc]

end Tree

end Agentfork.ProcessTree

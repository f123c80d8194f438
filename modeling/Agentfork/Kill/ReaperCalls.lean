import Agentfork.Library.Children
import Agentfork.Library.Transition

/-! # The calls of `BranchReaper`

`spawn`, `kill`, `alive` and `close` between their system calls, and what the rest
of the supervisor and the system do meanwhile. A call holds the reaper's lock from
its start to its end. Any system call of a `try` may raise, and an interrupt may
come in its place. The `finally` of `kill` and the handler in `spawn` are not
interrupted: if the handler stopped before its `proc.wait()`, a child would be left
that nobody waits for. `Popen` is one step: it starts a child or raises without one.

Numbers of processes are used again. `Popen.wait` and `Popen.poll` name their child
by its number, the reaper's own calls name it by a pidfd. -/

namespace Agentfork.Kill.Reaper

open Children Transition

abbrev TreeId := String

/-- Who in the supervisor has started a child or opened a descriptor. -/
inductive Owner where
  | reaper
  | other
  deriving DecidableEq

/-- `subprocess.Popen`, as far as the reaper uses it. -/
structure Popen where
  pid : Nat
  /-- `returncode` is set -/
  returned : Bool
  deriving DecidableEq

namespace Popen

def poll (proc : Popen) (system : System Owner) : Popen × System Owner :=
  if proc.returned then (proc, system)
  else match system.waitNumber proc.pid with
    | some after => ({ proc with returned := true }, after)
    | none => (proc, system)

/-- `kill`, which polls first. -/
def kill (proc : Popen) (system : System Owner) : Popen × System Owner :=
  let (proc, system) := proc.poll system
  if proc.returned then (proc, system) else (proc, system.killNumber proc.pid)

/-- `wait`; `none` as long as the child runs. -/
def wait (proc : Popen) (system : System Owner) : Option (Popen × System Owner) :=
  let (proc, system) := proc.poll system
  if proc.returned then some (proc, system) else none

end Popen

/-- `Exception`, or a `BaseException` that is none. -/
inductive Failure where
  | exception
  | interrupt
  deriving DecidableEq

/-- Where a `kill` is; from `polling` on it is in its `finally`, with what the `try` has raised. -/
inductive Place where
  /-- before `pidfd_send_signal` -/
  | signal
  /-- before `os.waitid` -/
  | waitid
  /-- before `proc.wait()` -/
  | wait
  /-- before `proc.poll()` -/
  | polling (raised : Option Failure)
  /-- before `proc.kill()` -/
  | killing (raised : Option Failure)
  /-- before the `proc.wait()` that follows it -/
  | waiting (raised : Option Failure)
  /-- before `os.close` and the `pop` -/
  | closing (raised : Option Failure)
  /-- before `self.kv.kill` -/
  | kv
  deriving DecidableEq

/-- The call that holds the lock. -/
inductive Call where
  /-- a `spawn` before `os.pidfd_open` -/
  | opening (treeId : TreeId) (proc : Popen)
  /-- a `spawn` in its handler, before `proc.kill()` or before `proc.wait()` -/
  | abandoning (proc : Popen) (killed : Bool)
  /-- a `kill`; one of `close` comes with the branches that are left for it -/
  | killing (treeId : TreeId) (place : Place) (rest : Option (List TreeId))
  deriving DecidableEq

/-- What a call has come to. -/
inductive Outcome where
  /-- the child's number, unless it has raised -/
  | spawn (pid : Option Nat)
  | kill (result : Except Failure Unit)
  /-- `close` has gone through all branches; whether it raises is left open -/
  | close
  | closeInterrupted

structure State where
  system : System Owner
  /-- `_branches`, with the process and its pidfd -/
  branches : Dict TreeId (Popen × Nat)
  call : Option Call
  /-- of the last `spawn`, `kill` or `close`; no function reads it -/
  outcome : Option Outcome

inductive Action where
  /-- `spawn`, with the number that its child is given -/
  | spawn (treeId : TreeId) (pid : Nat)
  | pidfdOpened (fd : Nat)
  | pidfdFailed
  | kill (treeId : TreeId)
  | close
  | alive (treeId : TreeId)
  /-- the call goes on -/
  | advance
  /-- the call is in a `try` and what it has called raises -/
  | raise (failure : Failure)
  | exit (child : Nat)
  /-- the rest of the supervisor starts a child, waits for one of its own, and opens and closes descriptors -/
  | otherStarts (pid : Nat)
  | otherWaits (child : Nat)
  | otherOpens (fd : Nat) (target : Option Nat)
  | otherCloses (fd : Nat)
  deriving DecidableEq

namespace State

def start : State := ⟨.empty, .empty, none, none⟩

def finish (outcome : Outcome) (state : State) : State := { state with call := none, outcome := some outcome }

def setCall (call : Call) (state : State) : State := { state with call := some call }

/-- The loop of `close` over the ids that are left. -/
def closeRest (state : State) : List TreeId → State
  | [] => state.finish .close
  -- `self.kill` raises a `KeyError` for an id that is not there
  | treeId :: rest =>
    if treeId ∈ state.branches then state.setCall (.killing treeId .signal (some rest)) else state.closeRest rest

/-- A `kill` returns or raises: to its caller, or to the loop of `close`. -/
def killDone (result : Except Failure Unit) (rest : Option (List TreeId)) (state : State) : State :=
  match rest, result with
  | none, result => state.finish (.kill result)
  | some _, .error .interrupt => state.finish .closeInterrupted
  | some rest, _ => state.closeRest rest

/-- The branch's process object and the system are as one of its methods has left them. -/
def setProc (treeId : TreeId) (fd : Nat) (result : Popen × System Owner) (state : State) : State :=
  { state with system := result.2, branches := state.branches.insert treeId (result.1, fd) }

/-- What the pidfd is on. -/
def target (state : State) (fd : Nat) : Option Nat := (state.system.descriptors.get? fd).bind Prod.snd

/-- One step of a `kill` whose branch has the process and the pidfd. -/
def killStep (state : State) (treeId : TreeId) (rest : Option (List TreeId)) (proc : Popen) (fd : Nat) :
    Place → Option State
  | .signal => match state.target fd with
    -- a process that is gone makes it raise `ProcessLookupError`, which is passed over
    | some i => some { state with system := state.system.signal i, call := some (.killing treeId .waitid rest) }
    | none => some (state.setCall (.killing treeId (.polling (some .exception)) rest))
  | .waitid => match state.target fd with
    | some i => (state.system.waitChild i).map fun system =>
        { state with system := system, call := some (.killing treeId .wait rest) }
    | none => some (state.setCall (.killing treeId (.polling (some .exception)) rest))
  | .wait => (proc.wait state.system).map fun result =>
      (state.setProc treeId fd result).setCall (.killing treeId (.polling none) rest)
  | .polling raised =>
    let result := proc.poll state.system
    some ((state.setProc treeId fd result).setCall
      (.killing treeId (if result.1.returned then .closing raised else .killing raised) rest))
  | .killing raised =>
      some ((state.setProc treeId fd (proc.kill state.system)).setCall (.killing treeId (.waiting raised) rest))
  | .waiting raised => (proc.wait state.system).map fun result =>
      (state.setProc treeId fd result).setCall (.killing treeId (.closing raised) rest)
  | .closing raised =>
    let after : State := { state with
      system := state.system.closeHandle fd
      branches := state.branches.erase treeId }
    match raised with
    | none => some (after.setCall (.killing treeId .kv rest))
    | some failure => some (after.killDone (.error failure) rest)
  | .kv => none

/-- The call goes on by itself. -/
def advance (state : State) : Option State :=
  state.call.bind fun
    | .opening _ _ => none
    | .abandoning proc false =>
      let result := proc.kill state.system
      some { state with system := result.2, call := some (.abandoning result.1 true) }
    | .abandoning proc true => (proc.wait state.system).map fun result =>
        ({ state with system := result.2 }).finish (.spawn none)
    | .killing _ .kv rest => some (state.killDone (.ok ()) rest)
    | .killing treeId place rest => (state.branches.get? treeId).bind fun (proc, fd) =>
        state.killStep treeId rest proc fd place

/-- Something that a `try` of the call, or its caller, has to deal with. -/
def raise (failure : Failure) (state : State) : Option State :=
  state.call.bind fun
    | .killing treeId .signal rest | .killing treeId .waitid rest | .killing treeId .wait rest =>
        some (state.setCall (.killing treeId (.polling (some failure)) rest))
    | .killing _ .kv rest => some (state.killDone (.error failure) rest)
    | _ => none

def step (state : State) : Action → Option State
  | .spawn treeId pid =>
    if state.call.isSome then none
    else if treeId ∈ state.branches then some (state.finish (.spawn none))
    else (state.system.fork .reaper pid).map fun system =>
      { state with system := system, call := some (.opening treeId ⟨pid, false⟩) }
  | .pidfdOpened fd => match state.call with
    | some (.opening treeId proc) => (state.system.holder proc.pid).bind fun i =>
        (state.system.openHandle fd .reaper (some i)).map fun system =>
          ({ state with system := system, branches := state.branches.insert treeId (proc, fd) }).finish
            (.spawn (some proc.pid))
    | _ => none
  | .pidfdFailed => match state.call with
    | some (.opening _ proc) => some (state.setCall (.abandoning proc false))
    | _ => none
  | .kill treeId =>
    if state.call.isSome then none
    else if treeId ∈ state.branches then some (state.setCall (.killing treeId .signal none))
    else some (state.finish (.kill (.error .exception)))
  | .close => if state.call.isSome then none else some (state.closeRest state.branches.keys)
  | .alive treeId =>
    if state.call.isSome then none
    else some <| match state.branches.get? treeId with
      | some (proc, fd) => state.setProc treeId fd (proc.poll state.system)
      | none => state
  | .advance => state.advance
  | .raise failure => state.raise failure
  | .exit child => some { state with system := state.system.exit child }
  | .otherStarts pid => (state.system.fork .other pid).map fun system => { state with system := system }
  | .otherWaits child => match state.system.children[child]? with
    | some ⟨.other, _, _, _⟩ => (state.system.waitChild child).map fun system => { state with system := system }
    | _ => none
  | .otherOpens fd target =>
      (state.system.openHandle fd .other target).map fun system => { state with system := system }
  | .otherCloses fd => match state.system.descriptors.get? fd with
    | some (.other, _) => some { state with system := state.system.closeHandle fd }
    | _ => none

def Step (before : State) (action : Action) (after : State) : Prop := before.step action = some after

/-- A child that the rest of the supervisor starts is not given the number of a branch's
process that its `Popen` has not seen end. -/
def Guard (state : State) : Action → Prop
  | .otherStarts pid => ∀ entry ∈ state.branches.values, entry.1.returned = false → entry.1.pid ≠ pid
  | _ => True

instance (state : State) (action : Action) : Decidable (state.Guard action) := by
  cases action <;> first | exact inferInstanceAs (Decidable (∀ entry ∈ state.branches.values, _)) | exact instDecidableTrue

end State

end Agentfork.Kill.Reaper

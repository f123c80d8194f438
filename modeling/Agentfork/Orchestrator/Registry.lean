import Mathlib.Data.Finset.Basic
import Agentfork.Library.Dict

/-! # The orchestrator's registry

The records of the branches, the state that the orchestrator's lock protects and
the functions that run under it. A function that raises returns the exception
together with the state it leaves.

`_persist` replaces the whole file at once, so a registry write either puts the
records in memory into the file or fails and leaves the file alone. The clock is
read once for each locked section. -/

namespace Agentfork.Orchestrator

abbrev BranchId := String

inductive BranchState where
  | forking
  | live
  | killing
  deriving DecidableEq, Repr

structure Branch where
  branchId : BranchId
  parentId : Option BranchId
  state : BranchState
  createdAt : Int
  leaseExpiresAt : Option Int
  deriving DecidableEq, Repr

structure KillReceipt where
  branchId : BranchId
  kvFreedTokens : Nat
  reaped : Bool
  deriving DecidableEq, Repr

/-- The counters of `OrchestratorMetrics` that the lifecycle calls keep. -/
structure Metrics where
  forks : Nat
  kills : Nat
  killFailures : Nat
  reconciles : Nat
  reapedExpired : Nat
  deriving DecidableEq, Repr

/-- What a call can raise: the exceptions of the orchestrator's own checks, an
`Exception` of a backend call or a registry write, and a `BaseException` that is
no `Exception`, such as `KeyboardInterrupt`. -/
inductive Fault where
  | valueError (message : String)
  | keyError (message : String)
  | runtimeError (message : String)
  | exception
  | baseException
  deriving DecidableEq, Repr

/-- `except Exception` catches it. -/
def Fault.ordinary : Fault → Bool
  | .baseException => false
  | _ => true

/-- What the constructor and the backends fix for the orchestrator's lifetime. -/
structure Config where
  /-- a `registry_path` was given -/
  registry : Bool
  /-- `sandbox.parallel_lifecycle` -/
  parallelLifecycle : Bool
  /-- the sandbox has a `wait_ready` -/
  waitReady : Bool
  /-- `kv.external_data_path` -/
  externalDataPath : Bool
  defaultLease : Option Int
  /-- `str.isdigit` -/
  isDigit : String → Bool
  /-- `int` on a string, with the `ValueError` it may raise -/
  parseInt : String → Except Fault Nat

/-- The registry file and the branches that the two backends hold. A crash of
the orchestrator's process leaves them as they are. -/
structure World where
  file : List Branch
  kv : Finset BranchId
  sandbox : Finset BranchId

structure Shared extends World where
  branches : Dict BranchId Branch
  loaded : Finset BranchId
  spawning : Finset BranchId
  killing : Finset BranchId
  seq : Nat
  closing : Bool
  closed : Bool
  metrics : Metrics
  /-- every id journaled by `create_parent` or `fork` so far; no function reads it -/
  started : List BranchId

namespace Shared

/-- A branch is recorded as live. -/
def isLive (shared : Shared) (branchId : BranchId) : Bool :=
  (shared.branches.get? branchId).any fun branch => branch.state = .live

/-! ## Construction from the registry file -/

/-- `branch_id.rsplit("/", 1)[1]` -/
def suffix (branchId : BranchId) : String :=
  String.ofList (branchId.toList.reverse.takeWhile (· ≠ '/')).reverse

/-- The numeric suffixes of the loaded ids. -/
def numericSuffixes (config : Config) : List BranchId → Except Fault (List Nat)
  | [] => .ok []
  | branchId :: rest =>
    if '/' ∈ branchId.toList ∧ config.isDigit (suffix branchId) = true then
      match config.parseInt (suffix branchId), numericSuffixes config rest with
      | .error fault, _ => .error fault
      | .ok _, .error fault => .error fault
      | .ok first, .ok others => .ok (first :: others)
    else numericSuffixes config rest

def insertAll (children : List Branch) (branches : Dict BranchId Branch) : Dict BranchId Branch :=
  children.foldl (fun branches branch => branches.insert branch.branchId branch) branches

/-- `{b["branch_id"]: Branch.from_dict(b) for b in ...}` -/
def ofRecords (file : List Branch) : Dict BranchId Branch := insertAll file .empty

/-- What the constructor makes of the file that a previous owner has left. -/
def boot (config : Config) (world : World) : Except Fault Shared :=
  let branches := ofRecords world.file
  match numericSuffixes config branches.keys with
  | .error fault => .error fault
  | .ok suffixes => .ok {
      toWorld := world
      branches := branches
      loaded := branches.keys.toFinset
      spawning := ∅
      killing := ∅
      seq := suffixes.foldl max 0
      closing := false
      closed := false
      metrics := ⟨0, 0, 0, 0, 0⟩
      started := [] }

/-! ## Registry writes -/

def ensureOpen (allowClosing : Bool) (shared : Shared) : Except Fault Unit :=
  if shared.closed then .error (.runtimeError "orchestrator is closed")
  else if shared.closing && !allowClosing then .error (.runtimeError "orchestrator is closing")
  else .ok ()

def persist (config : Config) (failure : Option Fault) (shared : Shared) : Except Fault Unit × Shared :=
  if config.registry then
    match failure with
    | some fault => (.error fault, shared)
    | none => (.ok (), { shared with file := shared.branches.values })
  else (.ok (), shared)

/-- `_record` -/
def record (config : Config) (failure : Option Fault) (branch : Branch) (shared : Shared) :
    Except Fault Unit × Shared :=
  let previous := shared.branches.get? branch.branchId
  let shared := { shared with branches := shared.branches.insert branch.branchId branch }
  match persist config failure shared with
  | (.ok (), shared) => (.ok (), shared)
  | (.error fault, shared) => (.error fault, { shared with
      branches := match previous with
        | none => shared.branches.erase branch.branchId
        | some old => shared.branches.insert branch.branchId old })

/-- `_forget`: a record that has to be put back goes to the end. -/
def forget (config : Config) (failure : Option Fault) (branchId : BranchId) (shared : Shared) :
    Except Fault Unit × Shared :=
  let previous := shared.branches.get? branchId
  let shared := { shared with branches := shared.branches.erase branchId }
  match persist config failure shared with
  | (.ok (), shared) => (.ok (), { shared with loaded := shared.loaded.erase branchId })
  | (.error fault, shared) => (.error fault, { shared with
      branches := match previous with
        | none => shared.branches
        | some old => shared.branches.insert branchId old })

/-- `_replace_branch` -/
def replaceBranch (config : Config) (failure : Option Fault) (branchId : BranchId)
    (change : Branch → Branch) (shared : Shared) : Except Fault Branch × Shared :=
  match shared.branches.get? branchId with
  | none => (.error (.keyError branchId), shared)
  | some previous =>
    let shared := { shared with branches := shared.branches.insert branchId (change previous) }
    match persist config failure shared with
    | (.ok (), shared) => (.ok (change previous), shared)
    | (.error fault, shared) => (.error fault, { shared with
        branches := shared.branches.insert branchId previous })

def setState (state : BranchState) (branch : Branch) : Branch := { branch with state := state }

/-- `_lease_expiry` -/
def leaseExpiry (config : Config) (now : Int) (lease : Option Int) : Except Fault (Option Int) :=
  match lease.or config.defaultLease with
  | none => .ok none
  | some lease =>
    if lease ≤ 0 then .error (.valueError "lease_s must be positive") else .ok (some (now + lease))

/-! ## Child ids -/

def childId (parentId : BranchId) (seq : Nat) : BranchId := s!"{parentId}/{seq}"

/-- The first counter value after `seq` whose id is not recorded. One of the
`fuel + 1` values tried is free when `fuel` is the number of records. -/
def nextSeq (branches : Dict BranchId Branch) (parentId : BranchId) : Nat → Nat → Nat
  | 0, seq => seq + 1
  | fuel + 1, seq =>
    if childId parentId (seq + 1) ∈ branches then nextSeq branches parentId fuel (seq + 1) else seq + 1

/-- `_next_child_id` -/
def nextChildId (parentId : BranchId) (shared : Shared) : BranchId × Shared :=
  let seq := nextSeq shared.branches parentId shared.branches.entries.length shared.seq
  (childId parentId seq, { shared with seq := seq })

/-! ## The first section of create_parent and of fork -/

/-- Journal a new root branch. -/
def admitParent (config : Config) (failure : Option Fault) (now : Int) (branchId : BranchId)
    (tokens : List Nat) (lease : Option Int) (shared : Shared) : Except Fault Branch × Shared :=
  match ensureOpen false shared with
  | .error fault => (.error fault, shared)
  | .ok () =>
    if tokens ≠ [] ∧ config.externalDataPath = true then
      (.error (.runtimeError ("this KV backend is populated by inference requests; " ++
        "create the branch without tokens and call generate()")), shared)
    else if branchId ∈ shared.branches then
      (.error (.valueError s!"branch exists: {branchId}"), shared)
    else match leaseExpiry config now lease with
      | .error fault => (.error fault, shared)
      | .ok expiry =>
        let branch : Branch := ⟨branchId, none, .forking, now, expiry⟩
        match record config failure branch shared with
        | (.error fault, shared) => (.error fault, shared)
        | (.ok (), shared) => (.ok branch, { shared with
            spawning := insert branchId shared.spawning
            started := shared.started ++ [branchId] })

/-- `child_ids[k]`, or a new id. -/
def chooseId (parentId : BranchId) (shared : Shared) : Option BranchId → BranchId × Shared
  | some childId => (childId, shared)
  | none => nextChildId parentId shared

/-- Choose the children of a fork. -/
def planChildren (config : Config) (now : Int) (parentId : BranchId) (lease : Option Int) :
    List (Option BranchId) → List Branch → Shared → Except Fault (List Branch) × Shared
  | [], children, shared => (.ok children, shared)
  | given :: rest, children, shared =>
    let (childId, shared) := chooseId parentId shared given
    if childId ∈ shared.branches ∨ childId ∈ children.map Branch.branchId then
      (.error (.valueError s!"branch exists: {childId}"), shared)
    else match leaseExpiry config now lease with
      | .error fault => (.error fault, shared)
      | .ok expiry => planChildren config now parentId lease rest
          (children ++ [⟨childId, some parentId, .forking, now, expiry⟩]) shared

/-- The ids asked for, `none` for one to be chosen. -/
def requested (n : Int) : Option (List BranchId) → List (Option BranchId)
  | some childIds => childIds.map some
  | none => List.replicate n.toNat none

def eraseAll (children : List Branch) (branches : Dict BranchId Branch) : Dict BranchId Branch :=
  children.foldl (fun branches branch => branches.erase branch.branchId) branches

/-- Journal all children of a fork in one write. -/
def admitFork (config : Config) (failure : Option Fault) (now : Int) (parentId : BranchId) (n : Int)
    (childIds : Option (List BranchId)) (lease : Option Int) (shared : Shared) :
    Except Fault (List Branch) × Shared :=
  match ensureOpen false shared with
  | .error fault => (.error fault, shared)
  | .ok () =>
    if shared.isLive parentId = false then
      (.error (.keyError s!"no live branch: {parentId}"), shared)
    else if childIds.any (fun ids => (ids.length : Int) ≠ n) = true then
      (.error (.valueError "child_ids length must equal n"), shared)
    else match planChildren config now parentId lease (requested n childIds) [] shared with
      | (.error fault, shared) => (.error fault, shared)
      | (.ok children, shared) =>
        match persist config failure { shared with branches := insertAll children shared.branches } with
        | (.error fault, shared) => (.error fault, { shared with
            branches := eraseAll children shared.branches })
        | (.ok (), shared) => (.ok children, { shared with
            spawning := shared.spawning ∪ (children.map Branch.branchId).toFinset
            started := shared.started ++ children.map Branch.branchId })

/-- `renew_lease` -/
def renewLease (config : Config) (failure : Option Fault) (now : Int) (branchId : BranchId) (lease : Int)
    (shared : Shared) : Except Fault Branch × Shared :=
  match ensureOpen false shared with
  | .error fault => (.error fault, shared)
  | .ok () =>
    if shared.isLive branchId = false then (.error (.keyError s!"no live branch: {branchId}"), shared)
    else if lease ≤ 0 then (.error (.valueError "lease_s must be positive"), shared)
    else replaceBranch config failure branchId
      (fun branch => { branch with leaseExpiresAt := some (now + lease) }) shared

end Shared

end Agentfork.Orchestrator

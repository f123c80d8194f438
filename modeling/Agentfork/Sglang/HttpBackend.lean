import Agentfork.Sglang.RequestPath

/-! # The HTTP backend and its server

`SGLangHTTPBackend` is called by any number of threads. A call advances by the
sections that it runs under the backend's condition; between them its request is
on its way. The server answers a request by the lifecycle of the tree cache, and
does the rest of its work (the requests of others, generation, eviction) in steps
of its own.

A wait that wakes up looks at its reason to wait again and, if that still holds,
at its deadline, so a section of `kill` may run any number of times. -/

namespace Agentfork.Sglang

namespace HttpBackend

abbrev BranchId := String

/-- What a call raises. -/
inductive HttpError where
  | valueError (message : String)
  | keyError (message : String)
  | runtimeError (message : String)
  | timeoutError (message : String)
  /-- `SGLangTreeCacheError`: the server has rejected the operation -/
  | treeCacheError (operation : String) (raised : TreeError)
  /-- no answer that could be used -/
  | transport
  deriving DecidableEq, Repr

inductive HttpOp where
  | createTree (treeId : BranchId)
  | forkBranch (parentId : BranchId) (childId : Option BranchId)
  | kill (treeId : BranchId)
  | generate (branchId : BranchId) (branchEnd : Bool) (reserveTokens : Option Int)
  deriving DecidableEq, Repr

/-- What a call returns: the server's payload, the child, or the tokens freed. -/
inductive Answer where
  | payload
  | branch (branchId : BranchId)
  | freed (tokens : Nat)
  deriving DecidableEq, Repr

structure Client where
  /-- `_active` -/
  active : Dict BranchId Int
  /-- `_closing_branches` -/
  closing : Finset BranchId
  /-- `_namespaces` -/
  namespaces : Dict BranchId String
  /-- `_parents` -/
  parents : Dict BranchId (Option BranchId)

inductive Phase where
  /-- before the first section -/
  | entered
  /-- `kill` waits for another kill of the branch -/
  | awaitTurn
  /-- `kill` has set its mark and waits for the users of the branch -/
  | awaitIdle
  /-- the request is on its way to the server -/
  | requested
  /-- the server has handled it -/
  | answered (reply : Except HttpError Nat)
  /-- before the section that notes the end of the request -/
  | replied (reply : Except HttpError Nat)
  /-- `fork_branch` before the section that tracks the child -/
  | tracking
  /-- `kill` before the section that takes its mark back -/
  | releasing (outcome : Except HttpError Answer)
  | finished (outcome : Except HttpError Answer)

/-- A call with the namespace and the parent that its first section has read. -/
structure HttpCall where
  op : HttpOp
  phase : Phase
  ns : String
  parentId : Option BranchId

namespace Client

def start : Client := ⟨.empty, ∅, .empty, .empty⟩

def activeOn (client : Client) (branchId : BranchId) : Int := (client.active.get? branchId).getD 0

/-- `self._active[branch_id] = self._active.get(branch_id, 0) + 1` -/
def enter (branchId : BranchId) (client : Client) : Client :=
  { client with active := client.active.insert branchId (client.activeOn branchId + 1) }

/-- The `finally` of a request; `none` for the `KeyError` of an id that is not counted. -/
def leave (branchId : BranchId) (client : Client) : Option Client :=
  (client.active.get? branchId).map fun count =>
    let remaining := count - 1
    { client with active :=
      if remaining ≠ 0 then client.active.insert branchId remaining else client.active.erase branchId }

def close (branchId : BranchId) (client : Client) : Client :=
  { client with closing := insert branchId client.closing }

def reopen (branchId : BranchId) (client : Client) : Client :=
  { client with closing := client.closing.erase branchId }

def track (branchId : BranchId) (ns : String) (parentId : Option BranchId) (client : Client) : Client :=
  { client with
    namespaces := client.namespaces.insert branchId ns
    parents := client.parents.insert branchId parentId }

def untrack (branchId : BranchId) (client : Client) : Client :=
  { client with
    namespaces := client.namespaces.erase branchId
    parents := client.parents.erase branchId }

end Client

/-! ## Sections -/

namespace HttpCall

def goTo (phase : Phase) (call : HttpCall) : HttpCall := { call with phase := phase }

def raising (error : HttpError) (call : HttpCall) : HttpCall := call.goTo (.finished (.error error))

/-- `kill` under its mark, each time it looks at the users. -/
def killIdle (timedOut : Bool) (treeId : BranchId) (client : Client) (call : HttpCall) : Client × HttpCall :=
  if client.activeOn treeId ≠ 0 then
    if timedOut then
      (client.reopen treeId, call.raising (.timeoutError s!"timed out waiting for inference on {treeId}"))
    else (client, call.goTo .awaitIdle)
  else (client, call.goTo .requested)

/-- `kill` each time it looks for another kill. -/
def killTurn (timedOut : Bool) (treeId : BranchId) (client : Client) (call : HttpCall) : Client × HttpCall :=
  if treeId ∈ client.closing then
    if timedOut then
      (client, call.raising (.timeoutError s!"timed out waiting for concurrent kill of {treeId}"))
    else (client, call.goTo .awaitTurn)
  else call.killIdle timedOut treeId (client.close treeId)

def enterFork (parentId : BranchId) (client : Client) (call : HttpCall) : Client × HttpCall :=
  if parentId ∈ client.closing then
    (client, call.raising (.runtimeError s!"parent branch is being killed: {parentId}"))
  else
    match client.namespaces.get? parentId with
    | none => (client, call.raising (.keyError s!"untracked parent branch: {parentId}"))
    | some ns => (client.enter parentId, { call with phase := .requested, ns := ns, parentId := some parentId })

def enterGenerate (branchId : BranchId) (client : Client) (call : HttpCall) : Client × HttpCall :=
  if branchId ∈ client.closing then
    (client, call.raising (.runtimeError s!"branch is being killed: {branchId}"))
  else
    match client.namespaces.get? branchId, client.parents.get? branchId with
    | none, _ => (client, call.raising (.keyError s!"untracked branch: {branchId}"))
    | some _, none => (client, call.raising (.keyError branchId))
    | some ns, some parentId =>
      (client.enter branchId, { call with phase := .requested, ns := ns, parentId := parentId })

/-- The first section of a call. -/
def begin (timedOut : Bool) (client : Client) (call : HttpCall) : Client × HttpCall :=
  match call.op with
  | .createTree _ => (client, call.goTo .requested)
  | .forkBranch _ none =>
    (client, call.raising (.valueError "child_id is required for remote SGLang forks"))
  | .forkBranch parentId (some _) => call.enterFork parentId client
  | .kill treeId => call.killTurn timedOut treeId client
  | .generate branchId _ reserveTokens =>
    if reserveTokens.any (· < 0) then
      (client, call.raising (.valueError s!"reserve_tokens must be non-negative: {reserveTokens.getD 0}"))
    else call.enterGenerate branchId client

/-- The section that notes the end of the request. -/
def note (reply : Except HttpError Nat) (client : Client) (call : HttpCall) : Client × HttpCall :=
  match call.op, reply with
  | .createTree treeId, .ok _ => (client.track treeId treeId none, call.goTo (.finished (.ok .payload)))
  | .createTree _, .error error => (client, call.raising error)
  | .forkBranch parentId _, reply =>
    match client.leave parentId, reply with
    | none, _ => (client, call.raising (.keyError parentId))
    | some client, .ok _ => (client, call.goTo .tracking)
    | some client, .error error => (client, call.raising error)
  | .kill treeId, .ok freed => (client.untrack treeId, call.goTo (.releasing (.ok (.freed freed))))
  | .kill _, .error error => (client, call.goTo (.releasing (.error error)))
  | .generate branchId _ _, reply =>
    match client.leave branchId with
    | none => (client, call.raising (.keyError branchId))
    | some client => (client, call.goTo (.finished (reply.map fun _ => .payload)))

/-- The next section of a call; `none` while it has none to run. -/
def runSection (timedOut : Bool) (client : Client) (call : HttpCall) : Option (Client × HttpCall) :=
  match call.phase, call.op with
  | .entered, _ => some (call.begin timedOut client)
  | .awaitTurn, .kill treeId => some (call.killTurn timedOut treeId client)
  | .awaitIdle, .kill treeId => some (call.killIdle timedOut treeId client)
  | .replied reply, _ => some (call.note reply client)
  | .tracking, .forkBranch _ (some childId) =>
    some (client.track childId call.ns call.parentId, call.goTo (.finished (.ok (.branch childId))))
  | .releasing outcome, .kill treeId => some (client.reopen treeId, call.goTo (.finished outcome))
  | _, _ => none

end HttpCall

/-! ## The server -/

section Server

variable {τ : Type} [DecidableEq τ]

open TreeCacheLifecycle

/-- The request that `generate` sends, as the server reads it. -/
def HttpCall.request (call : HttpCall) (branchId : BranchId) (branchEnd : Bool) (reserveTokens : Option Int) : Req :=
  ⟨some call.ns, some branchId, call.parentId, branchEnd, reserveTokens, none, false⟩

/-- The server handles the request of a call. -/
def HttpCall.serve (radix : RadixCache τ) (cache : TreeRadixCache τ) (call : HttpCall) :
    Except HttpError Nat × TreeRadixCache τ :=
  match call.op with
  | .createTree treeId =>
    match handle radix cache (.create treeId (some treeId)) with
    | (.ok _, cache) => (.ok 0, cache)
    | (.error raised, cache) => (.error (.treeCacheError "create" raised), cache)
  | .forkBranch parentId childId =>
    match handle radix cache (.fork (childId.getD "") (some parentId)) with
    | (.ok _, cache) => (.ok 0, cache)
    | (.error raised, cache) => (.error (.treeCacheError "fork" raised), cache)
  | .kill treeId =>
    match handle radix cache (.kill treeId) with
    | (.ok (.tokens freed), cache) => (.ok freed, cache)
    | (.ok _, cache) => (.ok 0, cache)
    | (.error raised, cache) => (.error (.treeCacheError "kill" raised), cache)
  | .generate branchId branchEnd reserveTokens =>
    match prepareRequest radix cache (call.request branchId branchEnd reserveTokens) with
    | (none, _, cache) => (.ok 0, cache)
    | (some _, _, cache) => (.error .transport, cache)

end Server

/-! ## The system -/

structure System (τ : Type) where
  client : Client
  calls : List HttpCall
  cache : TreeRadixCache τ
  /-- the calls whose creation or kill the server has done and the client has not
  noted, in the order of the server; no function reads it -/
  unnoted : List Nat

inductive HttpAction (τ : Type) where
  | call (op : HttpOp)
  /-- a thread runs the next section of its call -/
  | run (call : Nat) (timedOut : Bool)
  | serve (call : Nat)
  | receive (call : Nat)
  /-- a request fails without an answer, or is sent again -/
  | lose (call : Nat) (again : Bool)
  /-- the server does something else -/
  | internal (call : Call τ)

/-- `_request_json` sends a kill again. -/
def HttpOp.retried : HttpOp → Bool
  | .kill _ => true
  | _ => false

/-- The branch that an operation creates or kills on the server. -/
def HttpOp.changes : HttpOp → Option BranchId
  | .createTree treeId => some treeId
  | .forkBranch _ childId => childId
  | .kill treeId => some treeId
  | .generate _ _ _ => none

/-- In this section the client notes what the call has done on the server. -/
def HttpCall.notes (call : HttpCall) : Bool :=
  match call.phase, call.op with
  | .replied (.ok _), .createTree _ => true
  | .replied (.ok _), .kill _ => true
  | .tracking, .forkBranch _ _ => true
  | _, _ => false

namespace System

variable {τ : Type} [DecidableEq τ]

def start (cache : TreeRadixCache τ) : System τ := ⟨.start, [], cache, []⟩

def setCall (c : Nat) (call : HttpCall) (system : System τ) : System τ :=
  { system with calls := system.calls.set c call }

def step (radix : RadixCache τ) (system : System τ) : HttpAction τ → Option (System τ)
  | .call op => some { system with calls := system.calls ++ [⟨op, .entered, "", none⟩] }
  | .run c timedOut => (system.calls[c]?).bind fun call =>
      (call.runSection timedOut system.client).map fun (client, next) => { system.setCall c next with
        client := client
        unnoted := if call.notes then system.unnoted.erase c else system.unnoted }
  | .serve c => (system.calls[c]?).bind fun call =>
      match call.phase with
      | .requested =>
        let (reply, cache) := call.serve radix system.cache
        some { system.setCall c (call.goTo (.answered reply)) with
          cache := cache
          unnoted := if reply.toBool && call.op.changes.isSome then system.unnoted ++ [c] else system.unnoted }
      | _ => none
  | .receive c => (system.calls[c]?).bind fun call =>
      match call.phase with
      | .answered reply => some (system.setCall c (call.goTo (.replied reply)))
      | _ => none
  | .lose c again => (system.calls[c]?).bind fun call =>
      match call.phase with
      | .requested | .answered _ =>
        if again && call.op.retried then some (system.setCall c (call.goTo .requested))
        else some (system.setCall c (call.goTo (.replied (.error .transport))))
      | _ => none
  | .internal call => some { system with cache := system.cache.serve radix call }

def Step (radix : RadixCache τ) (before : System τ) (action : HttpAction τ) (after : System τ) : Prop :=
  before.step radix action = some after

end System

end HttpBackend

end Agentfork.Sglang

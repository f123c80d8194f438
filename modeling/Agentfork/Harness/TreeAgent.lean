import Agentfork.Library.Program
import Agentfork.Orchestrator.LiveSequences

/-! # An agent loop over a fork tree

The methods of a `TreeAgent` make requests of the orchestrator and of the round's
`work`; the state of their own is the ledger of committed prefixes. A prefix is a
list of tokens, or over a text-native backend a text, given by its code points.

`work` and the evaluator are handed the very list that the ledger holds from
then on, so what they leave of it is part of their answer; a text cannot be edited.
They edit nothing else: not the list of another candidate, and not the other fields
of the result. `encode` returns a fresh list, and the lists of returned results are
not edited between calls. The sampling parameters of a generate are read by the
backend alone and left out. -/

namespace Agentfork.Harness

open Orchestrator

inductive AgentError where
  | prefixViolation (message : String)
  | noWinner (message : String)
  | typeError (message : String)
  | fault (fault : Fault)
  | cache (error : Kv.CacheError)
  deriving DecidableEq, Repr

inductive Continuation where
  | text (value : String)
  | tokens (value : List Nat)

/-- What a callable returns or raises, and the list it has been handed as it leaves
it: the one thing that it edits. -/
structure Answer (α : Type) where
  outcome : Except AgentError α
  prefixTokens : List Nat

structure BranchResult (ω φ : Type) where
  branchId : BranchId
  prefixTokens : List Nat
  output : Option ω
  score : φ
  error : Option AgentError

abbrev Work (ω : Type) : Type := BranchId → List Nat → Answer ω

/-- The score is a `float`, or what `float` raises. Of the result the evaluator edits
the list of its prefix only. -/
abbrev Evaluator (ω φ : Type) : Type := BranchResult ω φ → Answer φ

structure Round (ω φ : Type) where
  continuations : List Continuation
  work : Work ω
  evaluator : Evaluator ω φ
  childIds : Option (List BranchId)

/-- `list(text.encode("utf-8"))` -/
def utf8Tokens (text : String) : Except AgentError (List Nat) := .ok (text.toUTF8.toList.map UInt8.toNat)

/-- The agent's encoding, and of `float` its least value and its order. -/
structure TreeAgent (φ : Type) where
  encode : String → Except AgentError (List Nat)
  /-- `_string_path`: the backend's `external_data_path` -/
  stringPath : Bool
  negInf : φ
  exceeds : φ → φ → Bool

/-! ## Requests -/

inductive Request (ω : Type) where
  | createParent (branchId : BranchId) (lease : Option Int)
  | fork (parentId : BranchId) (n : Int) (childIds : Option (List BranchId))
  | extend (branchId : BranchId) (tokens : List Nat)
  | generate (branchId : BranchId) (text : List Nat)
  | killLosers (winnerId : BranchId)
  | work (work : Work ω) (branchId : BranchId) (prefixTokens : List Nat)

def Reply {ω : Type} : Request ω → Type
  | .createParent _ _ => Except Fault Branch
  | .fork _ _ _ => Except Fault (List Branch)
  | .extend _ _ => Except AgentError Nat
  | .generate _ _ => Except AgentError Unit
  | .killLosers _ => Except Fault (List KillReceipt)
  | .work _ _ _ => Answer ω

/-- `self._prefix` -/
abbrev Ledger : Type := Dict BranchId (List Nat)

abbrev AgentMethod (ω α : Type) : Type := Method (Request ω) Reply Ledger AgentError α

/-! ## Calls of the orchestrator -/

namespace Orch

variable {ω : Type}

def createParent (branchId : BranchId) (lease : Option Int) : AgentMethod ω Branch := do
  let created : Except Fault Branch ← Method.request (Request.createParent branchId lease)
  Method.ofExcept (created.mapError .fault)

def fork (parentId : BranchId) (n : Int) (childIds : Option (List BranchId)) : AgentMethod ω (List Branch) := do
  let forked : Except Fault (List Branch) ← Method.request (Request.fork parentId n childIds)
  Method.ofExcept (forked.mapError .fault)

def extend (branchId : BranchId) (tokens : List Nat) : AgentMethod ω Nat := do
  let charged : Except AgentError Nat ← Method.request (Request.extend branchId tokens)
  Method.ofExcept charged

def generate (branchId : BranchId) (text : List Nat) : AgentMethod ω Unit := do
  let generated : Except AgentError Unit ← Method.request (Request.generate branchId text)
  Method.ofExcept generated

def killLosers (winnerId : BranchId) : AgentMethod ω (List KillReceipt) := do
  let killed : Except Fault (List KillReceipt) ← Method.request (Request.killLosers winnerId)
  Method.ofExcept (killed.mapError .fault)

end Orch

/-! ## Lineage helpers -/

def strictlyExtends (base candidate : List Nat) : Bool :=
  if candidate.length ≤ base.length then false else candidate.take base.length = base

def requireExtension (branchId : BranchId) (base candidate : List Nat) : Except AgentError Unit :=
  if strictlyExtends base candidate then .ok ()
  else .error (.prefixViolation (s!"continuation for branch {branchId} does not strictly " ++
    "extend its committed prefix"))

/-- `self._prefix[branch_id]` -/
def Ledger.lookup (ledger : Ledger) (branchId : BranchId) : Except AgentError (List Nat) :=
  match ledger.get? branchId with
  | some value => .ok value
  | none => .error (.fault (.keyError branchId))

/-- The children begin with copies of their parent's prefix. -/
def Ledger.inherit (base : List Nat) (children : List Branch) (ledger : Ledger) : Ledger :=
  children.foldl (fun ledger child => ledger.insert child.branchId base) ledger

/-- `_forget` -/
def Ledger.forget (receipts : List KillReceipt) (ledger : Ledger) : Ledger :=
  receipts.foldl (fun ledger receipt => if receipt.reaped then ledger.erase receipt.branchId else ledger) ledger

section Methods

variable {ω φ : Type}

def committedPrefix (branchId : BranchId) : AgentMethod ω (List Nat) := do
  let ledger ← Method.get
  Method.ofExcept (ledger.lookup branchId)

namespace TreeAgent

/-- The suffix is charged in tokens, or the whole text given to the engine. -/
def charge (agent : TreeAgent φ) (branchId : BranchId) (base target : List Nat) : AgentMethod ω Unit :=
  if agent.stringPath then Orch.generate branchId target
  else do
    let _ ← Orch.extend branchId (target.drop base.length)

/-- `_commit` -/
def commit (agent : TreeAgent φ) (branchId : BranchId) (target : List Nat) : AgentMethod ω Unit := do
  let base ← committedPrefix branchId
  agent.charge branchId base target
  Method.modify fun ledger => ledger.insert branchId target

/-- `_unit` -/
def unit (agent : TreeAgent φ) : Continuation → Except AgentError (List Nat)
  | .text value => if agent.stringPath then .ok (value.toList.map Char.toNat) else agent.encode value
  | .tokens value =>
    if agent.stringPath then
      .error (.typeError "this KV backend is text-native (external_data_path); continuations must be str")
    else .ok value

/-- The prefix as a callable leaves it. -/
def keeps {α : Type} (agent : TreeAgent φ) (handed : List Nat) (answer : Answer α) : List Nat :=
  if agent.stringPath then handed else answer.prefixTokens

theorem keeps_same {α : Type} {agent : TreeAgent φ} {handed : List Nat} {answer : Answer α}
    (leaves : answer.prefixTokens = handed) : agent.keeps handed answer = handed := by
  rw [keeps, leaves, ite_self]

/-! ## The loop -/

def prepareRoot (agent : TreeAgent φ) (rootId : BranchId) (context : Continuation) (lease : Option Int) :
    AgentMethod ω BranchId := do
  let _ ← Orch.createParent rootId lease
  Method.modify fun ledger => ledger.insert rootId []
  let target ← Method.ofExcept (agent.unit context)
  agent.commit rootId target
  pure rootId

/-- One turn of the loop of `fan_out`: whatever is raised goes into the result. -/
def candidate (agent : TreeAgent φ) (work : Work ω) (evaluator : Evaluator ω φ) (branchId : BranchId) (target : List Nat) :
    AgentMethod ω (BranchResult ω φ) := do
  let result : BranchResult ω φ := ⟨branchId, target, none, agent.negInf, none⟩
  match ← Method.attempt (agent.commit branchId target) with
  | .error raised => pure { result with error := some raised }
  | .ok () =>
    let worked : Answer ω ← Method.request (Request.work work branchId target)
    let result := { result with prefixTokens := agent.keeps target worked }
    Method.modify fun ledger => ledger.insert branchId result.prefixTokens
    match worked.outcome with
    | .error raised => pure { result with error := some raised }
    | .ok output =>
      let result := { result with output := some output }
      let scored := evaluator result
      let result := { result with prefixTokens := agent.keeps result.prefixTokens scored }
      Method.modify fun ledger => ledger.insert branchId result.prefixTokens
      match scored.outcome with
      | .error raised => pure { result with error := some raised }
      | .ok score => pure { result with score := score }

def candidates (agent : TreeAgent φ) (work : Work ω) (evaluator : Evaluator ω φ) :
    List (Branch × List Nat) → AgentMethod ω (List (BranchResult ω φ))
  | [] => pure []
  | (child, target) :: rest => do
    let result ← agent.candidate work evaluator child.branchId target
    let results ← candidates agent work evaluator rest
    pure (result :: results)

def fanOut (agent : TreeAgent φ) (parentId : BranchId) (round : Round ω φ) : AgentMethod ω (List (BranchResult ω φ)) := do
  let base ← committedPrefix parentId
  let targets ← Method.ofExcept (round.continuations.mapM agent.unit)
  Method.ofExcept (targets.forM (requireExtension parentId base))
  let children ← Orch.fork parentId targets.length round.childIds
  Method.modify (Ledger.inherit base children)
  agent.candidates round.work round.evaluator (children.zip targets)

/-- `max` keeps the first of the greatest. -/
def selectWinner (agent : TreeAgent φ) (results : List (BranchResult ω φ)) : Except AgentError (BranchResult ω φ) :=
  match results.filter fun result => result.error.isNone with
  | [] => .error (.noWinner "every branch in the round failed")
  | first :: rest =>
    .ok (rest.foldl (fun best result => if agent.exceeds result.score best.score then result else best) first)

end TreeAgent

def killLosers (winnerId : BranchId) : AgentMethod ω (List KillReceipt) := do
  let receipts ← Orch.killLosers winnerId
  Method.modify (Ledger.forget receipts)
  pure receipts

def TreeAgent.runRound (agent : TreeAgent φ) (parentId : BranchId) (round : Round ω φ) :
    AgentMethod ω (BranchResult ω φ) := do
  let results ← agent.fanOut parentId round
  let winner ← Method.ofExcept (agent.selectWinner results)
  let _ ← killLosers winner.branchId
  pure winner

namespace TreeAgent

/-- The loop of `solve`, from the winner of the last round on. -/
def laterRounds (agent : TreeAgent φ) (winner : BranchResult ω φ) : List (Round ω φ) → AgentMethod ω (BranchResult ω φ)
  | [] => pure winner
  | round :: rounds => do
    let winner ← agent.runRound winner.branchId round
    laterRounds agent winner rounds

def solve (agent : TreeAgent φ) (rootId : BranchId) (context : Continuation) (rounds : List (Round ω φ))
    (lease : Option Int) : AgentMethod ω (BranchResult ω φ) :=
  match rounds with
  | [] => Method.ofExcept (.error (.fault (.valueError "solve requires at least one round")))
  | round :: rounds => do
    let parentId ← agent.prepareRoot rootId context lease
    let winner ← agent.runRound parentId round
    agent.laterRounds winner rounds

end TreeAgent

end Methods

/-! ## The surroundings -/

/-- `ForkOrchestrator.extend` -/
def extendLive (clock : Nat) (branchId : BranchId) (tokens : List Nat) (managed : Managed) : Except AgentError Nat × Managed :=
  match managed.state.shared.ensureOpen false with
  | .error fault => (.error (.fault fault), managed)
  | .ok () =>
    if managed.isLive branchId = false then (.error (.fault (.keyError s!"no live branch: {branchId}")), managed)
    else
      let (charged, cache) := managed.cache.extend clock branchId tokens
      (charged.mapError .cache, ⟨managed.state, cache⟩)

/-- `ForkOrchestrator.generate` over a cache that has no `generate` -/
def refuseGenerate (branchId : BranchId) (managed : Managed) : AgentError :=
  match managed.state.shared.ensureOpen false with
  | .error fault => .fault fault
  | .ok () =>
    if managed.isLive branchId = false then .fault (.keyError s!"no live branch: {branchId}")
    else .fault (.runtimeError "KV backend TreeKVCache does not support inference requests")

/-- The agent is the only one that calls the orchestrator, whose cache is a
`TreeKVCache`, and `work` does not. -/
def Serves {ω : Type} (config : Config) (before : Managed) : (request : Request ω) → Reply request → Managed → Prop
  | .createParent branchId lease, created, after =>
    before.Alone config (.createParent branchId [] lease) (Except.map Value.branch created) after
  | .fork parentId n childIds, forked, after =>
    before.Alone config (.fork parentId n childIds none) (Except.map Value.branches forked) after
  | .extend branchId tokens, charged, after => ∃ clock, extendLive clock branchId tokens before = (charged, after)
  | .generate branchId _, generated, after => generated = .error (refuseGenerate branchId before) ∧ after = before
  | .killLosers winnerId, killed, after =>
    before.Alone config (.killLosers winnerId) (Except.map Value.receipts killed) after
  | .work work branchId prefixTokens, worked, after => worked = work branchId prefixTokens ∧ after = before

/-! ## Runs -/

inductive AgentCall (ω φ : Type) where
  | prepareRoot (rootId : BranchId) (context : Continuation) (lease : Option Int)
  | fanOut (parentId : BranchId) (round : Round ω φ)
  | runRound (parentId : BranchId) (round : Round ω φ)
  | killLosers (winnerId : BranchId)

def AgentCall.body {ω φ : Type} (agent : TreeAgent φ) : AgentCall ω φ → AgentMethod ω Unit
  | .prepareRoot rootId context lease => do
    let _ ← agent.prepareRoot rootId context lease
  | .fanOut parentId round => do
    let _ ← agent.fanOut parentId round
  | .runRound parentId round => do
    let _ ← agent.runRound parentId round
  | .killLosers winnerId => do
    let _ ← Harness.killLosers winnerId

structure AgentState where
  managed : Managed
  ledger : Ledger

/-- One call, whether it returns or raises. -/
def AgentStep {ω φ : Type} (config : Config) (agent : TreeAgent φ) (before : AgentState) (call : AgentCall ω φ)
    (after : AgentState) : Prop :=
  ∃ result, (call.body agent).Ends (Serves config) before.managed before.ledger result after.managed after.ledger

end Agentfork.Harness

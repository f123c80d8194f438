import Agentfork.Harness.Turns
import Agentfork.Orchestrator.Strays

/-! # The winners' chain

`solve` prepares a root and runs its rounds, each on the winner of the round
before. While no child has the empty id, what is live and what the cache holds
once a round has returned is the chain of the winners so far, and the last of
them holds the root's context and what each winner has added to it. -/

namespace Agentfork.Harness

open Orchestrator Kv

section Rounds

variable {ω φ : Type} {config : Config} {agent : TreeAgent φ}

/-! ## Rounds that return -/

/-- A round with its winner, and the continuation that the winner has been given. -/
structure Win (ω φ : Type) where
  round : Round ω φ
  result : BranchResult ω φ
  target : List Nat

namespace Win

def branchId (win : Win ω φ) : BranchId := win.result.branchId

/-- What the winner's callables leave of its continuation. -/
def left (agent : TreeAgent φ) (win : Win ω φ) : List Nat := agent.left win.round win.branchId win.target

/-- The winner stands where its continuation does. -/
def IsAt (agent : TreeAgent φ) (win : Win ω φ) (results : List (BranchResult ω φ)) : Prop :=
  ∃ (i : Nat) (continuation : Continuation), results[i]? = some win.result ∧
    win.round.continuations[i]? = some continuation ∧ agent.unit continuation = .ok win.target

end Win

/-- The round fans out, selects its winner and kills the losers. -/
def WinsRound (config : Config) (agent : TreeAgent φ) (before : AgentState) (parentId : BranchId) (win : Win ω φ)
    (after : AgentState) : Prop :=
  ∃ results fanned receipts,
    (agent.fanOut parentId win.round).Ends (Serves config) before.managed before.ledger (.ok results)
      (AgentState.managed fanned) fanned.ledger ∧
    agent.selectWinner results = .ok win.result ∧ win.IsAt agent results ∧
    (killLosers win.branchId : AgentMethod ω (List KillReceipt)).Ends (Serves config) fanned.managed fanned.ledger
      (.ok receipts) after.managed after.ledger

/-- Each round is run on the winner of the round before. -/
inductive WinsRounds (config : Config) (agent : TreeAgent φ) : AgentState → BranchId → List (Win ω φ) → AgentState → Prop where
  | nil {state : AgentState} {parentId : BranchId} : WinsRounds config agent state parentId [] state
  | cons {before middle after : AgentState} {parentId : BranchId} {win : Win ω φ} {wins : List (Win ω φ)} :
    WinsRound config agent before parentId win middle → WinsRounds config agent middle win.branchId wins after →
      WinsRounds config agent before parentId (win :: wins) after

/-- A `solve` that returns `result`, with the winners of its rounds. -/
def Solves (config : Config) (agent : TreeAgent φ) (rootId : BranchId) (context : Continuation)
    (rounds : List (Round ω φ)) (lease : Option Int) (before : AgentState) (result : BranchResult ω φ)
    (wins : List (Win ω φ)) (after : AgentState) : Prop :=
  ∃ rooted, (agent.prepareRoot rootId context lease : AgentMethod ω BranchId).Ends (Serves config) before.managed
      before.ledger (.ok rootId) (AgentState.managed rooted) rooted.ledger ∧
    WinsRounds config agent rooted rootId wins after ∧ wins.map Win.round = rounds ∧
    wins.getLast?.map Win.result = some result

theorem selectWinner_mem {results : List (BranchResult ω φ)} {result : BranchResult ω φ}
    (selected : agent.selectWinner results = .ok result) : result ∈ results ∧ result.error = none := by
  unfold TreeAgent.selectWinner at selected
  have best : ∀ (rest : List (BranchResult ω φ)) (first : BranchResult ω φ),
      rest.foldl (fun best result => if agent.exceeds result.score best.score then result else best) first ∈ first :: rest := by
    intro rest
    induction rest with
    | nil => exact fun first => List.mem_cons_self
    | cons second rest inductionHypothesis =>
      intro first
      rw [List.foldl_cons]
      split
      · exact List.mem_cons_of_mem _ (inductionHypothesis second)
      · obtain here | later := List.mem_cons.1 (inductionHypothesis first)
        · exact List.mem_cons.2 (.inl here)
        · exact List.mem_cons_of_mem _ (List.mem_cons_of_mem _ later)
  split at selected
  · cases selected
  · next first rest filtered =>
    cases selected
    have member := best rest first
    rw [← filtered, List.mem_filter, Option.isNone_iff_eq_none] at member
    exact member

theorem runRound_wins {parentId : BranchId} {round : Round ω φ} {before after : AgentState} {result : BranchResult ω φ}
    (ends : (agent.runRound parentId round).Ends (Serves config) before.managed before.ledger (.ok result) after.managed
      after.ledger) :
    ∃ win : Win ω φ, win.round = round ∧ win.result = result ∧ WinsRound config agent before parentId win after := by
  unfold TreeAgent.runRound at ends
  obtain ⟨results, _, _, fanned, selecting⟩ := Method.returns_bind.1 ends
  obtain ⟨_, managed, ledger, selected, killing⟩ := Method.returns_bind.1 selecting
  obtain ⟨isWinner, rfl, rfl⟩ := Method.ends_ofExcept.1 selected
  obtain ⟨receipts, _, _, killed, returning⟩ := Method.returns_bind.1 killing
  obtain ⟨isResult, isAfter, isLeft⟩ := Method.ends_pure.1 returning
  cases isResult
  obtain ⟨base, targets, children, forked, fans⟩ := @fanOut_returns ω φ config agent parentId round before ⟨_, _⟩ _ fanned
  obtain ⟨i, atResult⟩ := List.mem_iff_getElem?.1 (selectWinner_mem isWinner.symm).1
  obtain ⟨child, target, atPair, _⟩ := fans.pair_of_result atResult
  obtain ⟨_, _, continuation, atContinuation, isUnit⟩ := fans.continuation_of_pair atPair
  refine ⟨⟨round, result, target⟩, rfl, rfl, results, ⟨managed, ledger⟩, receipts, fanned, isWinner.symm, ?_, ?_⟩
  · exact ⟨i, continuation, atResult, atContinuation, isUnit⟩
  · rw [isAfter, isLeft]
    exact killed

theorem laterRounds_wins {rounds : List (Round ω φ)} {before after : AgentState} {winner result : BranchResult ω φ}
    (ends : (agent.laterRounds winner rounds).Ends (Serves config) before.managed before.ledger (.ok result) after.managed
      after.ledger) :
    ∃ wins, WinsRounds config agent before winner.branchId wins after ∧ wins.map Win.round = rounds ∧
      (wins.map Win.result).getLast?.getD winner = result := by
  obtain ⟨after, left⟩ := after
  induction rounds generalizing before winner with
  | nil =>
    obtain ⟨isResult, rfl, rfl⟩ := Method.ends_pure.1 ends
    cases isResult
    exact ⟨[], .nil, rfl, rfl⟩
  | cons round rounds inductionHypothesis =>
    unfold TreeAgent.laterRounds at ends
    obtain ⟨first, managed, ledger, begun, later⟩ := Method.returns_bind.1 ends
    obtain ⟨win, rfl, rfl, wins⟩ := @runRound_wins ω φ config agent _ _ before ⟨managed, ledger⟩ _ begun
    obtain ⟨others, more, rfl, isLast⟩ := @inductionHypothesis ⟨managed, ledger⟩ win.result later
    refine ⟨win :: others, .cons wins more, rfl, ?_⟩
    rw [List.map_cons, List.getLast?_cons, Option.getD_some]
    exact isLast

/-- What a preparation of the root has done once it has returned. -/
theorem prepareRoot_returns {rootId parentId : BranchId} {context : Continuation} {lease : Option Int} {before after : AgentState}
    (ends : (agent.prepareRoot rootId context lease : AgentMethod ω BranchId).Ends (Serves config) before.managed before.ledger
      (.ok parentId) after.managed after.ledger) :
    parentId = rootId ∧ ∃ branch created target,
      before.managed.Alone config (.createParent rootId [] lease) (.ok (.branch branch)) created ∧
      agent.unit context = .ok target ∧
      (agent.commit rootId target : AgentMethod ω Unit).Ends (Serves config) created (before.ledger.insert rootId []) (.ok ())
        after.managed after.ledger := by
  obtain ⟨after, left⟩ := after
  unfold TreeAgent.prepareRoot at ends
  obtain ⟨branch, _, _, creating, writing⟩ := Method.returns_bind.1 ends
  obtain ⟨rfl, answer, alone, isAnswer⟩ := Method.ends_call.1 creating
  obtain ⟨_, created, _, written, encoding⟩ := Method.returns_bind.1 writing
  obtain ⟨_, rfl, rfl⟩ := Method.ends_modify.1 written
  obtain ⟨target, _, _, encoded, committing⟩ := Method.returns_bind.1 encoding
  obtain ⟨isTarget, rfl, rfl⟩ := Method.ends_ofExcept.1 encoded
  obtain ⟨_, _, _, committed, returning⟩ := Method.returns_bind.1 committing
  obtain ⟨isParent, rfl, rfl⟩ := Method.ends_pure.1 returning
  cases isParent
  refine ⟨rfl, branch, _, target, ?_, isTarget.symm, committed⟩
  cases answer with
  | error fault => cases isAnswer
  | ok branch =>
    cases isAnswer
    exact alone

theorem solve_wins {rootId : BranchId} {context : Continuation} {rounds : List (Round ω φ)} {lease : Option Int}
    {before after : AgentState} {result : BranchResult ω φ}
    (ends : (agent.solve rootId context rounds lease).Ends (Serves config) before.managed before.ledger (.ok result)
      after.managed after.ledger) :
    ∃ wins, Solves config agent rootId context rounds lease before result wins after := by
  unfold TreeAgent.solve at ends
  cases rounds with
  | nil =>
    obtain ⟨impossible, _⟩ := Method.ends_ofExcept.1 ends
    cases impossible
  | cons round rounds =>
    simp only at ends
    obtain ⟨parentId, managed, ledger, prepared, running⟩ := Method.returns_bind.1 ends
    obtain ⟨first, managed', ledger', begun, later⟩ := Method.returns_bind.1 running
    obtain ⟨rfl, _⟩ := @prepareRoot_returns ω φ config agent _ _ _ _ before ⟨managed, ledger⟩ prepared
    obtain ⟨win, rfl, rfl, wins⟩ := @runRound_wins ω φ config agent _ _ ⟨managed, ledger⟩ ⟨managed', ledger'⟩ _ begun
    obtain ⟨others, more, rfl, isLast⟩ := @laterRounds_wins ω φ config agent _ ⟨managed', ledger'⟩ after win.result _ later
    refine ⟨win :: others, ⟨managed, ledger⟩, prepared, .cons wins more, rfl, ?_⟩
    rw [List.getLast?_cons, Option.map_some, Option.some_inj, ← isLast, List.getLast?_map]
    cases others.getLast? <;> rfl

theorem killLosers_returns {winnerId : BranchId} {receipts : List KillReceipt} {before after : AgentState}
    (ends : (killLosers winnerId : AgentMethod ω (List KillReceipt)).Ends (Serves config) before.managed before.ledger
      (.ok receipts) after.managed after.ledger) :
    before.managed.Alone config (.killLosers winnerId) (.ok (.receipts receipts)) after.managed ∧
      after.ledger = before.ledger.forget receipts := by
  obtain ⟨after, left⟩ := after
  unfold killLosers at ends
  obtain ⟨killed, _, _, killing, writing⟩ := Method.returns_bind.1 ends
  obtain ⟨rfl, answer, alone, isAnswer⟩ := Method.ends_call.1 killing
  obtain ⟨_, _, _, written, returning⟩ := Method.returns_bind.1 writing
  obtain ⟨_, rfl, rfl⟩ := Method.ends_modify.1 written
  obtain ⟨isReceipts, rfl, rfl⟩ := Method.ends_pure.1 returning
  cases isReceipts
  refine ⟨?_, rfl⟩
  cases answer with
  | error fault => cases isAnswer
  | ok receipts =>
    cases isAnswer
    exact alone

theorem Ledger.get?_forget {receipts : List KillReceipt} {branchId : BranchId}
    (others : ∀ receipt ∈ receipts, receipt.branchId ≠ branchId) (ledger : Ledger) :
    (ledger.forget receipts).get? branchId = ledger.get? branchId := by
  induction receipts generalizing ledger with
  | nil => rfl
  | cons receipt receipts inductionHypothesis =>
    rw [List.forall_mem_cons] at others
    refine (inductionHypothesis others.2 _).trans ?_
    simp only
    split
    · rw [Dict.get?_erase, if_neg others.1.symm]
    · rfl

theorem lineal_congr {before after : Dict BranchId Branch} {chain : List BranchId} (lineal : Shared.Lineal before chain)
    (same : ∀ branchId ∈ chain, after.get? branchId = before.get? branchId) : Shared.Lineal after chain := by
  induction chain with
  | nil => exact trivial
  | cons first rest inductionHypothesis =>
    rw [List.forall_mem_cons] at same
    obtain ⟨⟨branch, found, isParent⟩, lineal⟩ := lineal
    exact ⟨⟨branch, same.1.trans found, isParent⟩, inductionHypothesis lineal same.2⟩

end Rounds

/-! ## The chain so far -/

/-- Some live branches are a chain, the newest first. The newest one holds `sequence`,
and the ledger says `base` of it. -/
structure Chained (config : Config) (state : AgentState) (parentId : BranchId) (chain : List BranchId)
    (base sequence : List Nat) : Prop where
  rests : ∃ origin, Resting config origin state.managed
  lineal : Shared.Lineal state.managed.state.shared.branches chain
  distinct : chain.Nodup
  isHead : chain.head? = some parentId
  live : ∀ branchId ∈ chain, state.managed.isLive branchId = true
  holds : state.managed.cached parentId = some sequence
  within : ∀ branchId ∈ chain, ∃ tokens, state.managed.cached branchId = some tokens ∧ tokens <+: sequence
  oneNamespace : ∃ ns, ∀ branchId ∈ chain, (state.managed.cache.trees.get? branchId).map TreeId.ns = some ns
  committed : state.ledger.get? parentId = some base

/-- There is nothing beside the chain. -/
structure OnChain (config : Config) (state : AgentState) (parentId : BranchId) (chain : List BranchId)
    (base sequence : List Nat) : Prop extends Chained config state parentId chain base sequence where
  recorded : ∀ branchId, state.managed.record branchId ≠ none → branchId ∈ chain

section Chain

variable {ω φ : Type} {config : Config} {agent : TreeAgent φ} {before after : AgentState} {parentId : BranchId}
  {chain : List BranchId} {base sequence : List Nat} {win : Win ω φ}

/-- No child of the round is given the empty id. -/
def Round.Named (round : Round ω φ) : Prop := ∀ ids, round.childIds = some ids → "" ∉ ids

theorem Chained.head_mem (chained : Chained config before parentId chain base sequence) : parentId ∈ chain :=
  List.mem_of_mem_head? chained.isHead

/-- Killing the losers leaves the chain. -/
theorem Chained.killLosers {receipts : List KillReceipt} (chained : Chained config before parentId chain base sequence)
    (killed : (killLosers parentId : AgentMethod ω (List KillReceipt)).Ends (Serves config) before.managed before.ledger
      (.ok receipts) after.managed after.ledger) : OnChain config after parentId chain base sequence := by
  obtain ⟨alone, ledger⟩ := killLosers_returns killed
  obtain ⟨pruned, rests⟩ := alone.killLosers_returns
  have isLoser : ∀ branchId, branchId ∈ before.managed.state.shared.losers parentId ↔
      branchId ∈ before.managed.state.shared.branches ∧ branchId ∉ chain :=
    fun branchId => Shared.mem_losers chained.distinct chained.lineal chained.isHead
  have spares : ∀ branchId ∈ chain, after.managed.record branchId = before.managed.record branchId ∧
      before.managed.cache.Keeps after.managed.cache branchId :=
    fun branchId member => pruned.spares branchId fun loser => ((isLoser branchId).1 loser).2 member
  obtain ⟨origin, resting⟩ := chained.rests
  obtain ⟨ns, inNamespace⟩ := chained.oneNamespace
  refine ⟨⟨⟨origin, rests origin resting⟩, lineal_congr chained.lineal fun branchId member => (spares branchId member).1,
    chained.distinct, chained.isHead, fun branchId member => ?_, (spares parentId chained.head_mem).2.2.trans chained.holds,
    fun branchId member => ?_, ⟨ns, fun branchId member => ?_⟩, ?_⟩, fun branchId recorded => ?_⟩
  · exact (Managed.isLive_congr (spares branchId member).1).trans (chained.live branchId member)
  · obtain ⟨tokens, held, isPrefix⟩ := chained.within branchId member
    exact ⟨tokens, (spares branchId member).2.2.trans held, isPrefix⟩
  · rw [(spares branchId member).2.1]
    exact inNamespace branchId member
  · obtain ⟨_, same, amongLosers⟩ := pruned.receipts
    cases same
    rw [ledger, Ledger.get?_forget fun receipt member same => ?_]
    · exact chained.committed
    · exact ((isLoser parentId).1 (same ▸ amongLosers receipt member)).2 chained.head_mem
  · by_contra outside
    by_cases wasRecorded : before.managed.record branchId = none
    · have notLoser : branchId ∉ before.managed.state.shared.losers parentId := fun loser =>
        Dict.get?_eq_none.1 wasRecorded ((isLoser branchId).1 loser).1
      exact recorded ((pruned.spares branchId notLoser).1.trans wasRecorded)
    · have held : branchId ∈ before.managed.state.shared.branches := by
        by_contra absent
        exact wasRecorded (Dict.get?_eq_none.2 absent)
      exact recorded (pruned.gone branchId ((isLoser branchId).2 ⟨held, outside⟩))

/-- A candidate that has not failed may head the chain. -/
theorem Chained.candidate {round : Round ω φ} {found target : List Nat} {targets : List (List Nat)} {children : List Branch}
    {forked : Managed} {results : List (BranchResult ω φ)} {i : Nat} {child : Branch} {result : BranchResult ω φ}
    (chained : Chained config before parentId chain base sequence) (named : round.Named)
    (fans : FansOut config agent parentId round before found targets children forked results after)
    (atPair : (children.zip targets)[i]? = some (child, target)) (atResult : results[i]? = some result)
    (noError : result.error = none) :
    Chained config after child.branchId (child.branchId :: chain) (agent.left round child.branchId target)
      (sequence ++ target.drop base.length) := by
  obtain ⟨origin, resting⟩ := chained.rests
  obtain ⟨rests, _, same, copied⟩ := resting.fork_copies named fans.forks
  cases same
  obtain rfl : found = base := Option.some.inj (fans.committed.symm.trans chained.committed)
  have isChild : child ∈ children := (List.of_mem_zip (List.mem_of_getElem? atPair)).1
  have isNew : child.branchId ∈ children.map Branch.branchId := List.mem_map.2 ⟨child, isChild, rfl⟩
  -- what is on the chain is none of the children
  have old : ∀ branchId ∈ chain, branchId ∉ children.map Branch.branchId := by
    intro branchId member isNew
    exact Dict.get?_eq_none.1 (copied.absent branchId isNew) (chained.lineal.recorded branchId member)
  have record : ∀ branchId, after.managed.record branchId = forked.record branchId := by
    intro branchId
    unfold Managed.record
    rw [fans.turn.state]
  have oldRecord : ∀ branchId ∈ chain, after.managed.record branchId = before.managed.record branchId :=
    fun branchId member => (record branchId).trans (copied.elsewhere branchId (old branchId member))
  have oldCached : ∀ branchId ∈ chain, after.managed.cached branchId = before.managed.cached branchId := by
    intro branchId member
    have cached := copied.cached branchId
    rw [if_neg (old branchId member)] at cached
    exact (fans.turn.others branchId (old branchId member)).1.trans cached
  obtain ⟨childRecord, childLive, childParent⟩ := copied.recorded child isChild
  have recorded := (record child.branchId).trans childRecord
  obtain ⟨⟨base', held, isBase, hasHeld, holds⟩, isLeft⟩ := fans.succeeds copied.distinct i child target result atPair atResult noError
  -- the child has begun with what its parent holds and what the ledger says of it
  obtain rfl : base' = found := by
    have inherited := Ledger.get?_inherit found children before.ledger child.branchId
    rw [if_pos isNew] at inherited
    exact Option.some.inj (isBase.symm.trans inherited)
  obtain rfl : held = sequence := by
    have cached := copied.cached child.branchId
    rw [if_pos isNew, chained.holds] at cached
    exact Option.some.inj (hasHeld.symm.trans cached)
  obtain ⟨ns, inNamespace⟩ := chained.oneNamespace
  refine ⟨⟨origin, fans.turn.rests origin rests⟩, ⟨⟨child, recorded, childParent.trans chained.isHead.symm⟩, ?_⟩,
    List.nodup_cons.2 ⟨fun member => old child.branchId member isNew, chained.distinct⟩, rfl, ?_, holds, ?_, ⟨ns, ?_⟩, isLeft⟩
  · exact lineal_congr chained.lineal oldRecord
  · refine List.forall_mem_cons.2 ⟨Managed.isLive_iff.2 ⟨child, recorded, childLive⟩, fun branchId member => ?_⟩
    exact (Managed.isLive_congr (oldRecord branchId member)).trans (chained.live branchId member)
  · refine List.forall_mem_cons.2 ⟨⟨_, holds, List.prefix_rfl⟩, fun branchId member => ?_⟩
    obtain ⟨tokens, held, isPrefix⟩ := chained.within branchId member
    exact ⟨tokens, (oldCached branchId member).trans held, isPrefix.trans (List.prefix_append _ _)⟩
  · rw [fans.turn.trees]
    refine List.forall_mem_cons.2 ⟨?_, fun branchId member => ?_⟩
    · have namespaces := copied.namespaces child.branchId
      rw [if_pos isNew] at namespaces
      exact namespaces.trans (inNamespace parentId chained.head_mem)
    · have namespaces := copied.namespaces branchId
      rw [if_neg (old branchId member)] at namespaces
      exact namespaces.trans (inNamespace branchId member)

/-- A round whose children have ids puts its winner at the head of the chain. -/
theorem OnChain.round (onChain : OnChain config before parentId chain base sequence) (named : win.round.Named)
    (wins : WinsRound config agent before parentId win after) :
    ∃ longer, OnChain config after win.branchId (win.branchId :: chain) (win.left agent) longer ∧
      longer.length + base.length = sequence.length + win.target.length := by
  obtain ⟨results, fanned, receipts, fanning, selected, ⟨i, continuation, atResult, atContinuation, isUnit⟩, killing⟩ := wins
  obtain ⟨found, targets, children, forked, fans⟩ := fanOut_returns fanning
  obtain ⟨child, target, atPair, sameId⟩ := fans.pair_of_result atResult
  obtain ⟨_, atTarget, other, atOther, isOther⟩ := fans.continuation_of_pair atPair
  obtain rfl : target = win.target := by
    rw [atContinuation] at atOther
    cases atOther
    exact Except.ok.inj (isOther.symm.trans isUnit)
  have chained := onChain.candidate named fans atPair atResult (selectWinner_mem selected).2
  rw [← sameId] at chained
  refine ⟨_, chained.killLosers killing, ?_⟩
  have sameBase : found = base := Option.some.inj (fans.committed.symm.trans onChain.committed)
  have longer := (fans.longer win.target (List.mem_of_getElem? atTarget)).2
  rw [sameBase] at longer
  rw [List.length_append, List.length_drop]
  omega

/-! ## A round with a child without a name -/

theorem chosenIds_given (ids : List BranchId) (shared : Shared) : Shared.chosenIds parentId (ids.map some) shared = ids := by
  induction ids with
  | nil => rfl
  | cons given ids inductionHypothesis =>
    rw [List.map_cons, Shared.chosenIds]
    exact congrArg (given :: ·) inductionHypothesis

theorem OnChain.tree (onChain : OnChain config before parentId chain base sequence) {branchId : BranchId} (member : branchId ∈ chain) :
    branchId ∈ before.managed.cache.trees := by
  obtain ⟨ns, inNamespace⟩ := onChain.oneNamespace
  obtain ⟨tid, found, _⟩ := Option.map_eq_some_iff.1 (inNamespace branchId member)
  exact Dict.mem_of_get? found

/-- What a round that has returned has made of the trees. -/
theorem WinsRound.forked (wins : WinsRound config agent before parentId win after) :
    ∃ n forked, before.managed.Forked
      (Shared.chosenIds parentId (Shared.requested n win.round.childIds) before.managed.state.shared) forked ∧
      (forked.Strayed → after.managed.Strayed) := by
  obtain ⟨results, fanned, receipts, fanning, _, _, killing⟩ := wins
  obtain ⟨base, targets, children, forked, fans⟩ := fanOut_returns fanning
  refine ⟨_, forked, fans.forks.fork_returns, fun strayed => ?_⟩
  -- no turn touches the registry or the trees
  have stillStrayed : fanned.managed.Strayed := by
    unfold Managed.Strayed Managed.record
    rw [fans.turn.state, fans.turn.trees]
    exact strayed
  exact (killLosers_returns killing).1.killLosers_returns.1.strayed stillStrayed

theorem WinsRound.strayed (wins : WinsRound config agent before parentId win after) (strayed : before.managed.Strayed) :
    after.managed.Strayed := by
  obtain ⟨n, forked, forks, later⟩ := wins.forked
  exact later (forks.strayed strayed)

theorem OnChain.strays (onChain : OnChain config before parentId chain base sequence)
    (wins : WinsRound config agent before parentId win after) (unnamed : ¬ win.round.Named) : after.managed.Strayed := by
  obtain ⟨n, forked, forks, later⟩ := wins.forked
  obtain ⟨ids, given, empty⟩ : ∃ ids, win.round.childIds = some ids ∧ "" ∈ ids := by
    simpa only [Round.Named, not_forall, not_not, exists_prop] using unnamed
  rw [given] at forks
  refine later (forks.strays ?_ fun branchId _ recorded => onChain.tree (onChain.recorded branchId recorded))
  exact (chosenIds_given ids before.managed.state.shared).symm ▸ empty

/-! ## All rounds -/

theorem WinsRounds.strayed {wins : List (Win ω φ)} (run : WinsRounds config agent before parentId wins after)
    (strayed : before.managed.Strayed) : after.managed.Strayed := by
  induction run with
  | nil => exact strayed
  | cons wins _ inductionHypothesis => exact inductionHypothesis (wins.strayed strayed)

/-- The rounds put their winners on the chain, or one of them has made a stray tree. -/
theorem WinsRounds.advances {wins : List (Win ω φ)} (run : WinsRounds config agent before parentId wins after)
    (onChain : OnChain config before parentId chain base sequence) :
    ((∀ win ∈ wins, win.round.Named) ∧ ∃ longer,
      OnChain config after (wins.foldl (fun _ win => win.branchId) parentId) ((wins.map Win.branchId).reverse ++ chain)
        (wins.foldl (fun _ win => win.left agent) base) longer ∧
      longer.length + base.length + (wins.map fun win => (win.left agent).length).sum =
        sequence.length + (wins.map fun win => win.target.length).sum +
          (wins.foldl (fun _ win => win.left agent) base).length) ∨
    (¬ ∀ win ∈ wins, win.round.Named) ∧ after.managed.Strayed := by
  induction run generalizing chain base sequence with
  | nil => exact .inl ⟨fun _ member => absurd member List.not_mem_nil, sequence, onChain, rfl⟩
  | @cons before middle after parentId win wins wonRound later inductionHypothesis =>
    by_cases named : win.round.Named
    · obtain ⟨longer, onLonger, lengths⟩ := onChain.round named wonRound
      obtain ⟨allNamed, longest, onLongest, sums⟩ | ⟨unnamed, strayed⟩ := inductionHypothesis onLonger
      · refine .inl ⟨List.forall_mem_cons.2 ⟨named, allNamed⟩, longest, ?_, ?_⟩
        · rw [List.map_cons, List.reverse_cons, List.append_assoc]
          exact onLongest
        · rw [List.map_cons, List.map_cons, List.sum_cons, List.sum_cons, List.foldl_cons]
          omega
      · exact .inr ⟨fun allNamed => unnamed (List.forall_mem_cons.1 allNamed).2, strayed⟩
    · refine .inr ⟨fun allNamed => named (allNamed win List.mem_cons_self), later.strayed ?_⟩
      exact onChain.strays wonRound named

/-! ## What the chain says of the cache -/

namespace OnChain

variable {state : AgentState}

/-- The cache has the trees of the chain, and no others. -/
theorem tree_iff (onChain : OnChain config state parentId chain base sequence) {treeId : String} :
    treeId ∈ state.managed.cache.trees ↔ treeId ∈ chain := by
  refine ⟨fun held => ?_, onChain.tree⟩
  obtain ⟨origin, resting⟩ := onChain.rests
  obtain ⟨model, holds⟩ := resting.sound.holds
  obtain ⟨tid, found⟩ := Dict.mem_iff_get?.1 held
  have tree := holds.agrees.trees treeId
  rw [found] at tree
  obtain ⟨branch, isLive, _⟩ := Option.map_eq_some_iff.1 tree.symm
  have recorded := resting.sound.recorded (.inl ((holds.held treeId).1 (Dict.mem_of_get? isLive)))
  exact onChain.recorded treeId fun absent => Dict.get?_eq_none.1 absent recorded

/-- The sequence of the newest branch is all that the cache holds. -/
theorem resident (onChain : OnChain config state parentId chain base sequence) :
    state.managed.cache.residentTokens = sequence.length := by
  obtain ⟨origin, resting⟩ := onChain.rests
  obtain ⟨model, holds⟩ := resting.sound.holds
  obtain ⟨ns, inNamespace⟩ := onChain.oneNamespace
  have held : ∀ branchId branch, model.live.get? branchId = some branch →
      state.managed.cached branchId = some branch.tokens ∧ (branchId ∈ chain → branch.ns = ns) := by
    intro branchId branch found
    have tokens := holds.agrees.tokens branchId
    have tree := holds.agrees.trees branchId
    rw [found] at tokens tree
    exact ⟨tokens, fun member => Option.some.inj (tree.symm.trans (inNamespace branchId member))⟩
  obtain ⟨tid, found⟩ := Dict.mem_iff_get?.1 (onChain.tree onChain.head_mem)
  have tree := holds.agrees.trees parentId
  rw [found] at tree
  obtain ⟨⟨ns', tokens⟩, isLive, _⟩ := Option.map_eq_some_iff.1 tree.symm
  obtain ⟨isHeld, inChain⟩ := held parentId _ isLive
  obtain rfl : tokens = sequence := Option.some.inj (isHeld.symm.trans onChain.holds)
  obtain rfl : ns' = ns := inChain onChain.head_mem
  have total : model.totalCached = tokens.length := by
    refine PrefixModel.totalCached_of_longest isLive fun other branch found => ?_
    obtain ⟨isHeld, inChain⟩ := held other branch found
    have recorded := resting.sound.recorded (.inl ((holds.held other).1 (Dict.mem_of_get? found)))
    have member := onChain.recorded other fun absent => Dict.get?_eq_none.1 absent recorded
    obtain ⟨shorter, isShorter, isPrefix⟩ := onChain.within other member
    exact ⟨inChain member, Option.some.inj (isHeld.symm.trans isShorter) ▸ isPrefix⟩
  refine holds.agrees.resident.trans (congrArg Int.ofNat ?_)
  exact holds.agrees.reachableTokens_eq.trans total

end OnChain

/-! ## The root -/

theorem boot_blank_world {shared : Shared} (booted : Shared.boot config ⟨[], ∅, ∅⟩ = .ok shared) :
    shared.kv = ∅ ∧ ∀ branchId, shared.branches.get? branchId = none := by
  unfold Shared.boot at booted
  simp only at booted
  split at booted <;> cases booted
  exact ⟨rfl, fun _ => rfl⟩

/-- Over a new orchestrator the prepared root is all that there is, and it holds the context. -/
theorem onChain_root {shared : Shared} {capacity : Int} {budget : Option Int} {cache : TreeKVCache Nat} {rootId : BranchId}
    {context : Continuation} {lease : Option Int} (booted : Shared.boot config ⟨[], ∅, ∅⟩ = .ok shared)
    (created : TreeKVCache.new capacity budget = .ok cache) (direct : config.waitReady = false)
    (prepared : (agent.prepareRoot rootId context lease : AgentMethod ω BranchId).Ends (Serves config)
      ⟨State.fresh shared, cache⟩ .empty (.ok rootId) after.managed after.ledger) :
    ∃ target, OnChain config after rootId [rootId] target target := by
  obtain ⟨noTrees, noBranch⟩ := boot_blank_world booted
  have resting : Resting config shared.loaded ⟨State.fresh shared, cache⟩ :=
    Resting.boot booted rfl (fun _ member => absurd member (Finset.notMem_empty _)) created
  have holds : CacheHolds cache shared.kv PrefixModel.init := by
    refine ⟨Agrees.of_new created, fun branchId => ?_⟩
    simp [noTrees, PrefixModel.init]
  obtain ⟨_, branch, managed, target, alone, _, committing⟩ := @prepareRoot_returns ω φ config agent _ _ _ _ ⟨_, _⟩ after prepared
  obtain ⟨rests, ⟨root, isRoot, noParent, isLive, recorded⟩, elsewhere, grown, grownHolds, onlyRoot⟩ :=
    resting.createParent_returns holds (fun _ => rfl) direct alone
  obtain ⟨turn, returned⟩ := @commit_turn ω φ config agent ⟨managed, (Dict.empty : Ledger).insert rootId []⟩ after _ _ _
    committing
  obtain ⟨⟨base, held, isBase, hasHeld, appended⟩, committed⟩ := returned rfl
  -- the root begins with nothing
  obtain rfl : base = [] := by
    rw [Dict.get?_insert, if_pos rfl] at isBase
    exact (Option.some.inj isBase).symm
  obtain rfl : held = [] := by
    have tokens := grownHolds.agrees.tokens rootId
    rw [onlyRoot, if_pos rfl] at tokens
    exact Option.some.inj (hasHeld.symm.trans tokens)
  have record : ∀ branchId, after.managed.record branchId = managed.record branchId := by
    intro branchId
    unfold Managed.record
    rw [turn.state]
  have rootRecord := (record rootId).trans recorded
  refine ⟨target, ⟨⟨⟨_, turn.rests _ rests⟩, ⟨⟨root, rootRecord, noParent⟩, trivial⟩, List.nodup_singleton _, rfl, ?_, appended,
    ?_, ⟨rootId, ?_⟩, committed⟩, fun branchId isRecorded => ?_⟩⟩
  · exact List.forall_mem_singleton.2 (Managed.isLive_iff.2 ⟨root, rootRecord, isLive⟩)
  · exact List.forall_mem_singleton.2 ⟨_, appended, List.prefix_rfl⟩
  · refine List.forall_mem_singleton.2 ?_
    have tree := grownHolds.agrees.trees rootId
    rw [onlyRoot, if_pos rfl] at tree
    rw [turn.trees]
    exact tree
  · by_contra outside
    have differs : branchId ≠ rootId := fun same => outside (List.mem_singleton.2 same)
    have unrecorded : managed.record branchId = shared.branches.get? branchId := congrArg Holding.record (elsewhere branchId differs)
    rw [record, unrecorded] at isRecorded
    exact isRecorded (noBranch branchId)

/-! ## What `solve` leaves -/

/-- The chain, the oldest branch first. -/
def winnersChain (rootId : BranchId) (wins : List (Win ω φ)) : List BranchId := rootId :: wins.map Win.branchId

/-- Root and winners are all that is left, and the last winner holds its continuation. -/
structure LeavesWinners (state : AgentState) (rootId : BranchId) (wins : List (Win ω φ)) : Prop where
  live : ∀ branchId, state.managed.isLive branchId = true ↔ branchId ∈ winnersChain rootId wins
  parents : (winnersChain rootId wins).IsChain fun parentId childId =>
    (state.managed.record childId).bind Branch.parentId = some parentId
  trees : ∀ treeId, treeId ∈ state.managed.cache.trees ↔ treeId ∈ winnersChain rootId wins
  committed : ∀ win, wins.getLast? = some win → state.ledger.lookup win.branchId = .ok win.target
  resident : ∀ win, wins.getLast? = some win → state.managed.cache.residentTokens = win.target.length

/-- No child is given the empty id, the last winner's callables leave its continuation
as it was, and those of all winners leave as many tokens as they are handed. -/
structure Harmless (agent : TreeAgent φ) (wins : List (Win ω φ)) : Prop where
  named : ∀ win ∈ wins, win.round.Named
  kept : ∀ win, wins.getLast? = some win → win.left agent = win.target
  lengths : (wins.map fun win => (win.left agent).length).sum = (wins.map fun win => win.target.length).sum

theorem left_of_leaves {round : Round ω φ} (leaves : round.LeavesPrefixes) (branchId : BranchId) (target : List Nat) :
    agent.left round branchId target = target := by
  have workKeeps : agent.keeps target (round.work branchId target) = target := TreeAgent.keeps_same (leaves.work ..)
  unfold TreeAgent.left
  simp only [workKeeps]
  split
  · rfl
  · exact TreeAgent.keeps_same (leaves.evaluator _)

/-- Rounds that name their children, if they do, and whose callables leave the lists alone. -/
theorem harmless_of_leaves {wins : List (Win ω φ)} (careful : ∀ win ∈ wins, win.round.Named ∧ win.round.LeavesPrefixes) :
    Harmless agent wins where
  named win member := (careful win member).1
  kept win isLast := left_of_leaves (careful win (List.mem_of_getLast? isLast)).2 _ _
  lengths := congrArg List.sum (List.map_congr_left fun win member =>
    congrArg List.length (left_of_leaves (careful win member).2 win.branchId win.target))

theorem foldl_last {α β : Type} {f : α → β} {values : List α} {value : α} (isLast : values.getLast? = some value) (first : β) :
    values.foldl (fun _ value => f value) first = f value := by
  obtain ⟨before, rfl⟩ := List.getLast?_eq_some_iff.1 isLast
  rw [List.foldl_append]
  rfl

theorem isChain_of_lineal {managed : Managed} {chain : List BranchId}
    (lineal : Shared.Lineal managed.state.shared.branches chain) :
    chain.IsChain fun childId parentId => (managed.record childId).bind Branch.parentId = some parentId := by
  induction chain with
  | nil => exact .nil
  | cons first rest inductionHypothesis =>
    obtain ⟨⟨branch, found, isParent⟩, lineal⟩ := lineal
    cases rest with
    | nil => exact .singleton first
    | cons second rest =>
      refine List.isChain_cons_cons.2 ⟨?_, inductionHypothesis lineal⟩
      unfold Managed.record
      rw [found]
      exact isParent

/-- A stray tree is on no chain of live branches. -/
theorem LeavesWinners.not_strayed {state : AgentState} {rootId : BranchId} {wins : List (Win ω φ)}
    (leaves : LeavesWinners state rootId wins) : ¬ state.managed.Strayed := by
  rintro ⟨treeId, _, held, unrecorded⟩
  obtain ⟨branch, recorded, _⟩ := Managed.isLive_iff.1 ((leaves.live treeId).2 ((leaves.trees treeId).1 held))
  rw [unrecorded] at recorded
  cases recorded

/-- On the chain only the callables can break what is claimed of the last winner. -/
theorem OnChain.leavesWinners_iff {state : AgentState} {rootId : BranchId} {wins : List (Win ω φ)} {last : Win ω φ}
    (onChain : OnChain config state last.branchId ((wins.map Win.branchId).reverse ++ [rootId]) (last.left agent) sequence)
    (isLast : wins.getLast? = some last) :
    LeavesWinners state rootId wins ↔ last.left agent = last.target ∧ sequence.length = last.target.length := by
  have order : (winnersChain rootId wins).reverse = (wins.map Win.branchId).reverse ++ [rootId] := by
    rw [winnersChain, List.reverse_cons]
  rw [← order] at onChain
  have member : ∀ branchId, branchId ∈ (winnersChain rootId wins).reverse ↔ branchId ∈ winnersChain rootId wins :=
    fun branchId => List.mem_reverse
  have looked : state.ledger.lookup last.branchId = .ok (last.left agent) := lookup_of_get? onChain.committed
  constructor
  · intro leaves
    have committed := leaves.committed last isLast
    have resident := leaves.resident last isLast
    rw [looked] at committed
    rw [onChain.resident] at resident
    exact ⟨Except.ok.inj committed, Int.ofNat.inj resident⟩
  · rintro ⟨kept, lengths⟩
    refine ⟨fun branchId => ⟨fun isLive => ?_, fun onIt => onChain.live branchId ((member branchId).2 onIt)⟩, ?_,
      fun treeId => onChain.tree_iff.trans (member treeId), fun win isWin => ?_, fun win isWin => ?_⟩
    · obtain ⟨branch, recorded, _⟩ := Managed.isLive_iff.1 isLive
      exact (member branchId).1 (onChain.recorded branchId (recorded ▸ Option.some_ne_none branch))
    · exact List.isChain_reverse.1 (isChain_of_lineal onChain.lineal)
    · cases isLast.symm.trans isWin
      rw [looked, kept]
    · cases isLast.symm.trans isWin
      rw [onChain.resident, lengths]

/-- A `solve` over a new orchestrator that returns leaves the winners' chain if and
only if its rounds are harmless. -/
theorem solve_leaves_winners {shared : Shared} {capacity : Int} {budget : Option Int} {cache : TreeKVCache Nat}
    {rootId : BranchId} {context : Continuation} {rounds : List (Round ω φ)} {lease : Option Int} {result : BranchResult ω φ}
    (booted : Shared.boot config ⟨[], ∅, ∅⟩ = .ok shared) (created : TreeKVCache.new capacity budget = .ok cache)
    (direct : config.waitReady = false)
    (returned : (agent.solve rootId context rounds lease).Ends (Serves config) ⟨State.fresh shared, cache⟩ .empty
      (.ok result) after.managed after.ledger) :
    (∃ wins, Solves config agent rootId context rounds lease ⟨⟨State.fresh shared, cache⟩, .empty⟩ result wins after) ∧
    ∀ wins, Solves config agent rootId context rounds lease ⟨⟨State.fresh shared, cache⟩, .empty⟩ result wins after →
      (LeavesWinners after rootId wins ↔ Harmless agent wins) := by
  refine ⟨@solve_wins ω φ config agent _ _ _ _ ⟨⟨State.fresh shared, cache⟩, .empty⟩ after _ returned, fun wins solves => ?_⟩
  obtain ⟨rooted, prepared, run, _, isResult⟩ := solves
  obtain ⟨target, onRoot⟩ := onChain_root booted created direct prepared
  obtain ⟨last, isLast, _⟩ := Option.map_eq_some_iff.1 isResult
  obtain ⟨named, longer, onChain, lengths⟩ | ⟨unnamed, strayed⟩ := run.advances onRoot
  · rw [foldl_last isLast, foldl_last isLast] at onChain
    rw [foldl_last isLast] at lengths
    rw [onChain.leavesWinners_iff isLast]
    constructor
    · rintro ⟨kept, same⟩
      refine ⟨named, fun win isWin => ?_, ?_⟩
      · cases isLast.symm.trans isWin
        exact kept
      · rw [kept] at lengths
        omega
    · intro harmless
      have kept := harmless.kept last isLast
      have sums := harmless.lengths
      rw [kept] at lengths
      exact ⟨kept, by omega⟩
  · exact iff_of_false (fun leaves => leaves.not_strayed strayed) fun harmless => unnamed harmless.named

end Chain

/-! ## A round of two candidates -/

theorem root_created : Serves serialConfig managedStart (Request.createParent "r" none : Request Nat)
    (.ok ⟨"r", none, .live, 0, none⟩) rootManaged :=
  alone_of_run (by decide) (by decide) rfl

/-- `d` has the greater token, and `c` is killed. -/
def wonManaged : Managed := afterCall fannedManaged (.killLosers "d")
  [.item 2 0 returns, .item 2 0 returns, .item 2 0 ⟨.returned, none, 0, 1, []⟩, .item 2 0 returns,
    .advance 2, .advance 2, .advance 2]

def won : AgentState := ⟨wonManaged, (Dict.empty.insert "r" []).insert "d" [2]⟩

theorem won_ends : (scorer.solve "r" (.tokens []) [firstToken] none).Ends (Serves serialConfig) managedStart .empty
    (.ok ⟨"d", [2], some 2, some 2, none⟩) won.managed won.ledger := by
  have killed : Serves serialConfig fannedManaged (Request.killLosers "d" : Request Nat) (.ok [⟨"c", 1, true⟩]) wonManaged :=
    alone_of_run (by decide) (by decide) rfl
  exact .call root_created (.call ⟨0, rfl⟩ (.call forked_alone (.call ⟨0, rfl⟩ (.call ⟨rfl, rfl⟩
    (.call ⟨0, rfl⟩ (.call ⟨rfl, rfl⟩ (.call killed .done)))))))

theorem won_leavesWinners : ∃ wins, wins.map Win.round = [firstToken] ∧ LeavesWinners won "r" wins := by
  obtain ⟨⟨wins, solves⟩, leaves⟩ := solve_leaves_winners boot_blank (show TreeKVCache.new 100 none = .ok _ from rfl) rfl won_ends
  have rounds : wins.map Win.round = [firstToken] := by
    obtain ⟨_, _, _, rounds, _⟩ := solves
    exact rounds
  refine ⟨wins, rounds, (leaves wins solves).2 (harmless_of_leaves fun win member => ?_)⟩
  have isRound : win.round = firstToken := List.mem_singleton.1 (rounds ▸ List.mem_map.2 ⟨win, member, rfl⟩)
  rw [isRound]
  exact ⟨fun ids given => Option.some.inj given ▸ by decide, ⟨fun _ _ => rfl, fun _ => rfl⟩⟩

/-! ## A child without a name -/

def unnamedRound : Round Nat (Option Int) := { firstToken with childIds := some ["", "d"] }

def unnamedFork : Managed := afterCall rooted.managed (.fork "r" 2 (some ["", "d"]) none)
  (started 0 ++ started 1 ++ [.advance 1])

/-- The commit of the child without a name raises, and nothing is freed for it. -/
def unnamedWon : Managed := afterCall (extendLive 0 "d" [2] (extendLive 0 "" [1] unnamedFork).2).2 (.killLosers "d")
  [.item 2 0 returns, .item 2 0 returns, .item 2 0 ⟨.returned, none, 0, 0, []⟩, .item 2 0 returns,
    .advance 2, .advance 2, .advance 2]

def unnamed : AgentState := ⟨unnamedWon, (Dict.empty.insert "r" []).insert "d" [2]⟩

theorem unnamed_ends : (scorer.solve "r" (.tokens []) [unnamedRound] none).Ends (Serves serialConfig) managedStart .empty
    (.ok ⟨"d", [2], some 2, some 2, none⟩) unnamed.managed unnamed.ledger := by
  have forked : Serves serialConfig rooted.managed (Request.fork "r" 2 (some ["", "d"]) : Request Nat)
      (.ok [⟨"", some "r", .live, 0, none⟩, ⟨"d", some "r", .live, 0, none⟩]) unnamedFork :=
    alone_of_run (by decide) (by decide) rfl
  have killed : Serves serialConfig (extendLive 0 "d" [2] (extendLive 0 "" [1] unnamedFork).2).2
      (Request.killLosers "d" : Request Nat) (.ok [⟨"", 0, true⟩]) unnamedWon :=
    alone_of_run (by decide) (by decide) rfl
  exact .call root_created (.call ⟨0, rfl⟩ (.call forked (.call ⟨0, rfl⟩ (.call ⟨0, rfl⟩ (.call ⟨rfl, rfl⟩ (.call killed .done))))))

theorem unnamed_tree_survives : ¬ ∀ (config : Config) (agent : TreeAgent (Option Int)) (shared : Shared) (capacity : Int)
    (budget : Option Int) (cache : TreeKVCache Nat) (rootId : BranchId) (context : Continuation)
    (rounds : List (Round Nat (Option Int))) (lease : Option Int) (result : BranchResult Nat (Option Int)) (after : AgentState),
    Shared.boot config ⟨[], ∅, ∅⟩ = .ok shared → TreeKVCache.new capacity budget = .ok cache → config.waitReady = false →
    (agent.solve rootId context rounds lease).Ends (Serves config) ⟨State.fresh shared, cache⟩ .empty (.ok result)
      after.managed after.ledger →
    ∃ wins, Solves config agent rootId context rounds lease ⟨⟨State.fresh shared, cache⟩, .empty⟩ result wins after ∧
      LeavesWinners after rootId wins := by
  intro claimed
  obtain ⟨wins, _, leaves⟩ := claimed serialConfig scorer blank 100 none (.fresh 100 none) "r" (.tokens []) [unnamedRound] none _
    unnamed boot_blank rfl rfl unnamed_ends
  -- the cache has named the tree of the child by itself
  have isTree : "r/1" ∈ unnamed.managed.cache.trees := by decide
  have isLive := (leaves.live "r/1").2 ((leaves.trees "r/1").1 isTree)
  revert isLive
  decide

end Agentfork.Harness

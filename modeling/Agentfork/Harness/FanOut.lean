import Agentfork.Harness.Turns
import Agentfork.Orchestrator.ForkRecords

/-! # What a fan-out leaves

A fan-out that raises has raised before its candidates: whatever a commit, a work
or an evaluator raises goes into a result. So the ledger is as it was, and the
branches that are new are those children of the fork whose own start has
succeeded, which the orchestrator keeps when a sibling fails.

This holds over any backends, text-native or not: only the registry is looked at. -/

namespace Agentfork.Harness

open Orchestrator

/-! ## Any backends -/

/-- What the orchestrator raises for a branch before it asks its cache. -/
def refusal? (branchId : BranchId) (state : State) : Option AgentError :=
  match state.shared.ensureOpen false with
  | .error fault => some (.fault fault)
  | .ok () =>
    if state.shared.isLive branchId = false then some (.fault (.keyError s!"no live branch: {branchId}"))
    else none

/-- The agent is the only one that calls the orchestrator, whose backends return or
raise as they like. The callables of a candidate start no branch and kill none; what
else they do to the orchestrator is done in the request of the work. -/
def Hosts {ω : Type} (config : Config) (before : State) : (request : Request ω) → Reply request → State → Prop
  | .createParent branchId lease, created, after =>
    before.Alone config (.createParent branchId [] lease) (Except.map Value.branch created) after
  | .fork parentId n childIds, forked, after =>
    before.Alone config (.fork parentId n childIds none) (Except.map Value.branches forked) after
  | .extend branchId _, charged, after =>
    (∀ refusal ∈ refusal? branchId before, charged = .error refusal) ∧ after = before
  | .generate branchId _, generated, after =>
    (∀ refusal ∈ refusal? branchId before, generated = .error refusal) ∧ after = before
  | .killLosers winnerId, killed, after =>
    before.Alone config (.killLosers winnerId) (Except.map Value.receipts killed) after
  | .work work branchId prefixTokens, worked, after => worked = work branchId prefixTokens ∧ before.Untouched after

structure Session where
  orchestrator : State
  ledger : Ledger

section FanOut

variable {ω φ : Type} {config : Config} {agent : TreeAgent φ}

theorem refusal_cases {branchId : BranchId} {state : State} {refusal : AgentError} (refused : refusal ∈ refusal? branchId state) :
    (∃ fault, state.shared.ensureOpen false = .error fault ∧ refusal = .fault fault) ∨
      state.shared.ensureOpen false = .ok () ∧ state.shared.isLive branchId = false ∧
        refusal = .fault (.keyError s!"no live branch: {branchId}") := by
  cases isOpen : state.shared.ensureOpen false with
  | error fault =>
    simp only [refusal?, isOpen] at refused
    cases refused
    exact .inl ⟨fault, rfl, rfl⟩
  | ok =>
    simp only [refusal?, isOpen] at refused
    by_cases notLive : state.shared.isLive branchId = false
    · rw [if_pos notLive] at refused
      cases refused
      exact .inr ⟨rfl, notLive, rfl⟩
    · rw [if_neg notLive] at refused
      cases refused

/-- An orchestrator over a `TreeKVCache` is one of them. -/
theorem Serves.hosts {before after : Managed} {request : Request ω} {reply : Reply request}
    (served : Serves config before request reply after) : Hosts config before.state request reply after.state := by
  cases request with
  | createParent | fork | killLosers => exact Managed.Alone.state served
  | extend branchId tokens =>
    obtain ⟨clock, extended⟩ := served
    refine ⟨fun refusal refused => ?_, (extendLive_spec extended).1⟩
    rcases refusal_cases refused with ⟨fault, isClosed, rfl⟩ | ⟨isOpen, notLive, rfl⟩
    · simp only [extendLive, isClosed] at extended
      cases extended
      rfl
    · have notLive : before.isLive branchId = false := notLive
      simp only [extendLive, isOpen, notLive, if_true] at extended
      cases extended
      rfl
  | generate branchId text =>
    obtain ⟨isReply, rfl⟩ := served
    refine ⟨fun refusal refused => isReply.trans (congrArg Except.error ?_), rfl⟩
    rcases refusal_cases refused with ⟨fault, isClosed, rfl⟩ | ⟨isOpen, notLive, rfl⟩
    · simp only [refuseGenerate, isClosed]
    · have notLive : after.isLive branchId = false := notLive
      simp only [refuseGenerate, isOpen, notLive, if_true]
  | work work branchId prefixTokens =>
    obtain ⟨isReply, rfl⟩ := served
    exact ⟨isReply, .refl _⟩

/-- What the turns of candidates leave: the branches of the orchestrator, and every
entry of the ledger. -/
structure Leaves (before after : Session) : Prop where
  untouched : before.orchestrator.Untouched after.orchestrator
  tracked : ∀ branchId, branchId ∈ before.ledger → branchId ∈ after.ledger

namespace Leaves

variable {before middle after : Session}

theorem refl (before : Session) : Leaves before before := ⟨.refl _, fun _ tracked => tracked⟩

theorem trans (first : Leaves before middle) (rest : Leaves middle after) : Leaves before after :=
  ⟨first.untouched.trans rest.untouched, fun branchId tracked => rest.tracked branchId (first.tracked branchId tracked)⟩

theorem insert (leaves : Leaves before after) (branchId : BranchId) (tokens : List Nat) :
    Leaves before ⟨after.orchestrator, after.ledger.insert branchId tokens⟩ :=
  ⟨leaves.untouched, fun other tracked => Dict.mem_insert.2 (.inr (leaves.tracked other tracked))⟩

end Leaves

/-- A charge is the cache's affair alone. -/
theorem charge_leaves (state : State) (ledger : Ledger) (branchId : BranchId) (base target : List Nat) :
    (agent.charge branchId base target : AgentMethod ω Unit).Obeys (Hosts config) (fun _ _ => True) ledger state
      fun _ left after => left = ledger ∧ after = state := by
  unfold TreeAgent.charge
  split
  · exact Method.obeys_bind.2 ⟨trivial, fun generated after served => ⟨rfl, served.2⟩⟩
  · refine Method.obeys_bind.2 (Method.obeys_bind.2 ⟨trivial, fun charged after served => ?_⟩)
    cases charged with
    | error raised => exact ⟨rfl, served.2⟩
    | ok count => exact ⟨rfl, served.2⟩

theorem commit_leaves (state : State) (ledger : Ledger) (branchId : BranchId) (target : List Nat) :
    (agent.commit branchId target : AgentMethod ω Unit).Obeys (Hosts config) (fun _ _ => True) ledger state
      fun _ left after => Leaves ⟨state, ledger⟩ ⟨after, left⟩ := by
  unfold TreeAgent.commit
  rw [Method.obeys_bind, committedPrefix_obeys]
  cases ledger.lookup branchId with
  | error raised => exact .refl _
  | ok base =>
    refine Method.obeys_bind.2 ?_
    refine (charge_leaves state ledger branchId base target).mono fun result left after same => ?_
    obtain ⟨rfl, rfl⟩ := same
    cases result with
    | error raised => exact .refl _
    | ok => exact (Leaves.refl ⟨after, left⟩).insert branchId target

/-- The result of a candidate is its own, and carries what its work returns unless an error is recorded. -/
structure Reports (round : Round ω φ) (branchId : BranchId) (target : List Nat) (result : BranchResult ω φ) : Prop where
  sameId : result.branchId = branchId
  worked : result.error ≠ none ∨
    ∃ output, (round.work branchId target).outcome = .ok output ∧ result.output = some output

theorem candidate_leaves (round : Round ω φ) (state : State) (ledger : Ledger) (branchId : BranchId) (target : List Nat) :
    (agent.candidate round.work round.evaluator branchId target).Obeys (Hosts config) (fun _ _ => True) ledger state
      fun result left after => Leaves ⟨state, ledger⟩ ⟨after, left⟩ ∧
        ∃ value, result = .ok value ∧ Reports round branchId target value := by
  unfold TreeAgent.candidate
  rw [Method.obeys_bind, Method.obeys_attempt]
  refine (commit_leaves state ledger branchId target).mono fun result left after leaves => ?_
  cases result with
  | error raised => exact ⟨leaves, _, rfl, rfl, .inl nofun⟩
  | ok =>
    refine Method.obeys_bind.2 (Method.obeys_request.2 ⟨trivial, fun worked later served => ?_⟩)
    obtain ⟨rfl, untouched⟩ := served
    simp only [Method.obeys_bind, Method.obeys_modify]
    have worked : Leaves ⟨after, left⟩ ⟨later, left⟩ := ⟨untouched, fun _ tracked => tracked⟩
    have afterWork := (leaves.trans worked).insert branchId (agent.keeps target (round.work branchId target))
    cases outcome : (round.work branchId target).outcome with
    | error raised => exact ⟨afterWork, _, rfl, rfl, .inl nofun⟩
    | ok output =>
      simp only [Method.obeys_bind, Method.obeys_modify]
      have afterScore := afterWork.insert branchId (agent.keeps (agent.keeps target (round.work branchId target))
        (round.evaluator ⟨branchId, agent.keeps target (round.work branchId target), some output, agent.negInf, none⟩))
      split
      · exact ⟨afterScore, _, rfl, rfl, .inl nofun⟩
      · exact ⟨afterScore, _, rfl, rfl, .inr ⟨output, outcome, rfl⟩⟩

theorem candidates_leave (round : Round ω φ) (pairs : List (Branch × List Nat)) (state : State) (ledger : Ledger) :
    (agent.candidates round.work round.evaluator pairs).Obeys (Hosts config) (fun _ _ => True) ledger state
      fun result left after => Leaves ⟨state, ledger⟩ ⟨after, left⟩ ∧ ∃ values, result = .ok values ∧
        List.Forall₂ (fun pair value => Reports round pair.1.branchId pair.2 value) pairs values := by
  induction pairs generalizing state ledger with
  | nil => exact ⟨.refl _, [], rfl, .nil⟩
  | cons pair pairs inductionHypothesis =>
    obtain ⟨child, target⟩ := pair
    unfold TreeAgent.candidates
    refine Method.obeys_bind.2 ?_
    refine (candidate_leaves round state ledger child.branchId target).mono fun result left after ended => ?_
    obtain ⟨leaves, value, rfl, reports⟩ := ended
    refine Method.obeys_bind.2 ?_
    refine (inductionHypothesis after left).mono fun result last later ended => ?_
    obtain ⟨rest, values, rfl, all⟩ := ended
    exact ⟨leaves.trans rest, value :: values, rfl, .cons reports all⟩

/-- The result of a continuation: that of a child of this fork, live and in the ledger. -/
structure Answers (agent : TreeAgent φ) (round : Round ω φ) (after : Session) (continuation : Continuation)
    (result : BranchResult ω φ) : Prop where
  live : after.orchestrator.shared.isLive result.branchId = true
  tracked : result.branchId ∈ after.ledger
  worked : result.error ≠ none ∨ ∃ target output, agent.unit continuation = .ok target ∧
    (round.work result.branchId target).outcome = .ok output ∧ result.output = some output

/-- What a fan-out leaves: the live branches are those before and the children whose start has
returned, and the ledger is as it was if it raises. -/
structure FanOutLeaves (agent : TreeAgent φ) (parentId : BranchId) (round : Round ω φ) (before : Session)
    (result : Except AgentError (List (BranchResult ω φ))) (after : Session) : Prop where
  forks : before.orchestrator.Forks parentId after.orchestrator
  raised : ∀ error, result = .error error → after.ledger = before.ledger
  returned : ∀ results, result = .ok results → List.Forall₂ (Answers agent round after) round.continuations results ∧
    results.map BranchResult.branchId = (before.orchestrator.startedSince after.orchestrator).map Branch.branchId

theorem forall₂_through {α β γ δ : Type} {R : α → β → Prop} {S : γ × β → δ → Prop} {as : List α} {bs : List β} {cs : List γ}
    {ds : List δ} (paired : List.Forall₂ R as bs) (sameLength : cs.length = bs.length) (zipped : List.Forall₂ S (cs.zip bs) ds) :
    List.Forall₂ (fun a d => ∃ b, ∃ c ∈ cs, R a b ∧ S (c, b) d) as ds := by
  induction paired generalizing cs ds with
  | nil =>
    rw [List.zip_nil_right] at zipped
    cases zipped
    exact .nil
  | @cons a b as bs first _ inductionHypothesis =>
    cases cs with
    | nil => cases sameLength
    | cons c cs =>
      cases zipped with
      | cons begun rest =>
        refine .cons ⟨b, c, List.mem_cons_self, first, begun⟩ ?_
        refine (inductionHypothesis (Nat.succ.inj sameLength) rest).imp fun a d found => ?_
        obtain ⟨b, c, member, both⟩ := found
        exact ⟨b, c, List.mem_cons_of_mem _ member, both⟩

/-- A fan-out that raises before its fork leaves everything. -/
theorem FanOutLeaves.early {parentId : BranchId} {round : Round ω φ} (before : Session) (error : AgentError) :
    FanOutLeaves agent parentId round before (.error error) before :=
  ⟨.refl _ _, fun _ _ => rfl, nofun⟩

theorem fanOut_leaves {parentId : BranchId} {round : Round ω φ} {before after : Session}
    {result : Except AgentError (List (BranchResult ω φ))}
    (ends : (agent.fanOut parentId round).Ends (Hosts config) before.orchestrator before.ledger result
      after.orchestrator after.ledger) :
    FanOutLeaves agent parentId round before result after := by
  obtain ⟨after, left⟩ := after
  unfold TreeAgent.fanOut at ends
  obtain ⟨base, _, _, looked, ends⟩ | ⟨raised, rfl, looked⟩ := Method.ends_bind.1 ends
  case inr =>
    -- the parent is not in the ledger
    obtain ⟨_, rfl, rfl⟩ := committedPrefix_ends.1 looked
    exact .early before raised
  obtain ⟨_, rfl, rfl⟩ := committedPrefix_ends.1 looked
  obtain ⟨targets, _, _, mapped, ends⟩ | ⟨raised, rfl, mapped⟩ := Method.ends_bind.1 ends
  case inr =>
    -- a continuation is of the wrong kind or cannot be encoded
    obtain ⟨_, rfl, rfl⟩ := Method.ends_ofExcept.1 mapped
    exact .early before raised
  obtain ⟨units, rfl, rfl⟩ := Method.ends_ofExcept.1 mapped
  obtain ⟨_, _, _, required, ends⟩ | ⟨raised, rfl, required⟩ := Method.ends_bind.1 ends
  case inr =>
    -- one does not extend the parent's prefix
    obtain ⟨_, rfl, rfl⟩ := Method.ends_ofExcept.1 required
    exact .early before raised
  obtain ⟨_, rfl, rfl⟩ := Method.ends_ofExcept.1 required
  obtain ⟨children, _, _, forks, ends⟩ | ⟨raised, rfl, forks⟩ := Method.ends_bind.1 ends
  case inr =>
    -- the fork keeps the children that it has started
    obtain ⟨rfl, answer, alone, _⟩ := Method.ends_call.1 forks
    exact ⟨(State.Alone.forks alone).1, fun _ _ => rfl, nofun⟩
  obtain ⟨rfl, answer, alone, isAnswer⟩ := Method.ends_call.1 forks
  obtain ⟨_, forked, _, inherited, ends⟩ | ⟨raised, rfl, inherited⟩ := Method.ends_bind.1 ends
  case inr =>
    obtain ⟨impossible, _⟩ := Method.ends_modify.1 inherited
    cases impossible
  obtain ⟨_, rfl, rfl⟩ := Method.ends_modify.1 inherited
  cases answer with
  | error fault => cases isAnswer
  | ok branches =>
    cases isAnswer
    obtain ⟨isForked, started⟩ := State.Alone.forks alone
    obtain ⟨rfl, length⟩ := started children rfl
    -- no candidate raises
    obtain ⟨leaves, results, rfl, reports⟩ := (candidates_leave round _ forked _).ends ends
    have sameStarts := isForked.started leaves.untouched
    have later := isForked.later leaves.untouched
    refine ⟨later, nofun, fun others returned => ?_⟩
    cases returned
    constructor
    · refine (forall₂_through (mapM_forall₂ units.symm) length reports).imp fun continuation value found => ?_
      obtain ⟨target, child, isChild, isTarget, sameId, worked⟩ := found
      have named : value.branchId ∈ (before.orchestrator.startedSince forked).map Branch.branchId :=
        List.mem_map.2 ⟨child, isChild, sameId.symm⟩
      refine ⟨(later.live _).2 (.inr (sameStarts ▸ named)), leaves.tracked _ ?_, worked.imp_right fun worked => ?_⟩
      · refine Dict.mem_iff_get?.2 ⟨base, ?_⟩
        rw [Ledger.get?_inherit, if_pos named]
      · obtain ⟨output, returned, same⟩ := worked
        exact ⟨target, output, isTarget, sameId ▸ returned, same⟩
    · have sameIds : List.Forall₂ (fun id other => id = other)
          (((before.orchestrator.startedSince forked).zip targets).map fun pair => pair.1.branchId)
          (results.map BranchResult.branchId) :=
        List.forall₂_map_left_iff.2 (List.forall₂_map_right_iff.2 (reports.imp fun _ _ report => report.sameId.symm))
      rw [List.forall₂_eq_eq_eq] at sameIds
      rw [← sameIds, sameStarts]
      exact (List.map_map ..).symm.trans (congrArg _ (List.map_fst_zip length.le))

end FanOut

/-! ## A child that fails beside one that does not -/

/-- The sandbox of `d` does not spawn. -/
def partlyForked : Managed := afterCall rooted.managed (.fork "r" 2 (some ["c", "d"]) none)
  (started 0 ++ [.item 1 1 returns, .item 1 1 returns, .item 1 1 (raises .exception), .item 1 1 returns, .item 1 1 returns,
    .item 1 1 returns, .item 1 1 returns, .advance 1])

theorem partlyForked_ends : (scorer.fanOut "r" firstToken).Ends (Hosts serialConfig) rooted.managed.state rooted.ledger
    (.error (.fault .exception)) partlyForked.state rooted.ledger := by
  have forked : Serves serialConfig rooted.managed (Request.fork "r" 2 (some ["c", "d"]) : Request Nat) (.error .exception)
      partlyForked := alone_of_run (by decide) (by decide) rfl
  exact .call forked.hosts .done

theorem partlyForked_leaves : (∀ branchId, partlyForked.state.shared.isLive branchId = true ↔
    rooted.managed.state.shared.isLive branchId = true ∨
      branchId ∈ (rooted.managed.state.startedSince partlyForked.state).map Branch.branchId) ∧
    (rooted.managed.state.startedSince partlyForked.state).map Branch.branchId = ["c"] := by
  have leaves : FanOutLeaves scorer "r" firstToken ⟨rooted.managed.state, rooted.ledger⟩ _
      ⟨partlyForked.state, rooted.ledger⟩ := fanOut_leaves partlyForked_ends
  exact ⟨leaves.forks.live, by decide⟩

/-- The children of a fan-out that raises are not always gone. -/
theorem child_survives_fanOut : ¬ ∀ (config : Config) (agent : TreeAgent (Option Int)) (parentId : BranchId)
    (round : Round Nat (Option Int)) (before after : Session) (error : AgentError),
    (agent.fanOut parentId round).Ends (Hosts config) before.orchestrator before.ledger (.error error) after.orchestrator
      after.ledger →
    ∀ branchId, (after.orchestrator.shared.isLive branchId = true ↔ before.orchestrator.shared.isLive branchId = true) ∧
      (branchId ∈ after.ledger ↔ branchId ∈ before.ledger) := by
  intro claimed
  have same := (claimed serialConfig scorer "r" firstToken ⟨rooted.managed.state, rooted.ledger⟩
    ⟨partlyForked.state, rooted.ledger⟩ _ partlyForked_ends "c").1
  revert same
  decide

end Agentfork.Harness

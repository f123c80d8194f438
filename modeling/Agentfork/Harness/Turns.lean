import Agentfork.Harness.LedgerMirror

/-! # The turns of a round

What the methods of a round have done once they have returned, whatever its
callables return, raise or make of the lists that they are handed. In its turn a
candidate changes its own sequence and its own entry of the ledger, and one that
does not fail holds the rest of its target on top of what it has held. -/

namespace Agentfork.Harness

open Orchestrator

section Turns

variable {ω φ : Type} {config : Config} {agent : TreeAgent φ}

/-! ## A commit -/

theorem extendLive_cache {clock : Nat} {branchId : BranchId} {tokens : List Nat} {managed after : Managed}
    {charged : Except AgentError Nat} (extended : extendLive clock branchId tokens managed = (charged, after)) :
    after = managed ∨ after = ⟨managed.state, managed.cache.perform (.extend clock branchId tokens)⟩ := by
  unfold extendLive at extended
  split at extended
  · cases extended
    exact .inl rfl
  · split at extended
    · cases extended
      exact .inl rfl
    · cases extended
      exact .inr rfl

/-- The turns of these branches leave the registry, the trees and the other branches. -/
structure Turn (config : Config) (ids : List BranchId) (before after : AgentState) : Prop where
  state : after.managed.state = before.managed.state
  trees : after.managed.cache.trees = before.managed.cache.trees
  rests : ∀ origin, Resting config origin before.managed → Resting config origin after.managed
  others : ∀ branchId, branchId ∉ ids → after.managed.cached branchId = before.managed.cached branchId ∧
    after.ledger.get? branchId = before.ledger.get? branchId

namespace Turn

variable {before middle after : AgentState} {branchId : BranchId} {ids : List BranchId}

theorem refl (before : AgentState) : Turn config [] before before :=
  ⟨rfl, rfl, fun _ resting => resting, fun _ _ => ⟨rfl, rfl⟩⟩

theorem cons (first : Turn config [branchId] before middle) (rest : Turn config ids middle after) :
    Turn config (branchId :: ids) before after where
  state := rest.state.trans first.state
  trees := rest.trees.trans first.trees
  rests origin resting := rest.rests origin (first.rests origin resting)
  others other notMember := by
    have begun := first.others other fun same => notMember (List.mem_cons.2 (.inl (List.mem_singleton.1 same)))
    have ended := rest.others other fun later => notMember (List.mem_cons_of_mem _ later)
    exact ⟨ended.1.trans begun.1, ended.2.trans begun.2⟩

theorem mono {more : List BranchId} (turn : Turn config ids before after) (among : ids ⊆ more) :
    Turn config more before after :=
  ⟨turn.state, turn.trees, turn.rests, fun branchId notMember => turn.others branchId fun member => notMember (among member)⟩

/-- The branch whose turn it is may write its entry again. -/
theorem insert (turn : Turn config [branchId] before after) (tokens : List Nat) :
    Turn config [branchId] before ⟨after.managed, after.ledger.insert branchId tokens⟩ where
  state := turn.state
  trees := turn.trees
  rests := turn.rests
  others other notMember := by
    refine ⟨(turn.others other notMember).1, ?_⟩
    rw [Dict.get?_insert, if_neg fun same => notMember (List.mem_singleton.2 same)]
    exact (turn.others other notMember).2

end Turn

theorem committedPrefix_ends {σ : Type} {service : σ → (request : Request ω) → Reply request → σ → Prop}
    {branchId : BranchId} {state after : σ} {ledger left : Ledger} {result : Except AgentError (List Nat)} :
    (committedPrefix branchId : AgentMethod ω (List Nat)).Ends service state ledger result after left ↔
      result = ledger.lookup branchId ∧ after = state ∧ left = ledger :=
  Method.ends_ofExcept

theorem get?_of_lookup {branchId : BranchId} {ledger : Ledger} {tokens : List Nat}
    (looked : ledger.lookup branchId = .ok tokens) : ledger.get? branchId = some tokens := by
  unfold Ledger.lookup at looked
  cases found : ledger.get? branchId with
  | none =>
    rw [found] at looked
    cases looked
  | some value =>
    rw [found] at looked
    cases looked
    rfl

/-- The orchestrator's `extend`, whether it returns or raises. -/
theorem extend_turn {before after : AgentState} {branchId : BranchId} {tokens : List Nat} {charged : Except AgentError Nat}
    (ends : (Orch.extend branchId tokens : AgentMethod ω Nat).Ends (Serves config) before.managed before.ledger charged
      after.managed after.ledger) :
    Turn config [branchId] before after ∧ after.ledger = before.ledger ∧ ∀ count, charged = .ok count →
      ∃ held, before.managed.cached branchId = some held ∧ after.managed.cached branchId = some (held ++ tokens) := by
  obtain ⟨isLeft, answer, ⟨clock, extended⟩, rfl⟩ := Method.ends_call.1 ends
  obtain ⟨state, others, outcome⟩ := extendLive_spec extended
  refine ⟨⟨state, ?_, fun origin resting => ?_, fun other notMember => ⟨others other ?_, by rw [isLeft]⟩⟩, isLeft, fun count returned => ?_⟩
  · obtain same | extends_ := extendLive_cache extended
    · rw [same]
    · rw [extends_]
      exact (before.managed.cache.extend_sequence clock branchId tokens).1
  · obtain same | extends_ := extendLive_cache extended
    · rw [same]
      exact resting
    · rw [extends_]
      exact resting.extend clock branchId tokens
  · exact fun same => notMember (List.mem_singleton.2 same)
  · obtain ⟨⟨raised, rfl⟩, _⟩ | ⟨_, held, _, _, holds, appended⟩ := outcome
    · cases returned
    · exact ⟨held, holds, appended⟩

/-- The branch holds what it has held and what `target` has beyond its entry in the ledger. -/
def Extended (before : AgentState) (branchId : BranchId) (target : List Nat) (managed : Managed) : Prop :=
  ∃ base held, before.ledger.get? branchId = some base ∧ before.managed.cached branchId = some held ∧
    managed.cached branchId = some (held ++ target.drop base.length)

/-- What is charged for a commit, whether it returns or raises; a text is refused. -/
theorem charge_turn {before after : AgentState} {branchId : BranchId} {base target : List Nat} {result : Except AgentError Unit}
    (ends : (agent.charge branchId base target : AgentMethod ω Unit).Ends (Serves config) before.managed before.ledger result
      after.managed after.ledger) :
    Turn config [branchId] before after ∧ after.ledger = before.ledger ∧ (result = .ok () → ∃ held,
      before.managed.cached branchId = some held ∧
        after.managed.cached branchId = some (held ++ target.drop base.length)) := by
  obtain ⟨after, left⟩ := after
  unfold TreeAgent.charge at ends
  split at ends
  · obtain ⟨rfl, generated, ⟨refused, rfl⟩, rfl⟩ := Method.ends_call.1 ends
    refine ⟨(Turn.refl _).mono (List.nil_subset _), rfl, fun returned => ?_⟩
    rw [refused] at returned
    cases returned
  · obtain ⟨count, managed, ledger, extended, ends⟩ | ⟨raised, rfl, extended⟩ := Method.ends_bind.1 ends
    · obtain ⟨turn, same, holds⟩ := @extend_turn ω config before ⟨managed, ledger⟩ _ _ _ extended
      obtain ⟨_, rfl, rfl⟩ := Method.ends_pure.1 ends
      exact ⟨turn, same, fun _ => holds count rfl⟩
    · obtain ⟨turn, same, _⟩ := extend_turn extended
      exact ⟨turn, same, nofun⟩

/-- A commit, whether it returns or raises. -/
theorem commit_turn {before after : AgentState} {branchId : BranchId} {target : List Nat} {result : Except AgentError Unit}
    (ends : (agent.commit branchId target : AgentMethod ω Unit).Ends (Serves config) before.managed before.ledger result
      after.managed after.ledger) :
    Turn config [branchId] before after ∧
      (result = .ok () → Extended before branchId target after.managed ∧ after.ledger.get? branchId = some target) := by
  obtain ⟨after, left⟩ := after
  unfold TreeAgent.commit at ends
  obtain ⟨base, managed, ledger, looked, ends⟩ | ⟨raised, rfl, looked⟩ := Method.ends_bind.1 ends
  · obtain ⟨isBase, rfl, rfl⟩ := committedPrefix_ends.1 looked
    obtain ⟨_, managed, ledger, charged, ends⟩ | ⟨raised, rfl, charged⟩ := Method.ends_bind.1 ends
    · obtain ⟨turn, _, holds⟩ := @charge_turn ω φ config agent before ⟨managed, ledger⟩ _ _ _ _ charged
      obtain ⟨held, hasHeld, appended⟩ := holds rfl
      -- the ledger is written once the cache has been
      obtain ⟨_, rfl, rfl⟩ := Method.ends_modify.1 ends
      refine ⟨turn.insert target, fun _ => ⟨⟨base, held, get?_of_lookup isBase.symm, hasHeld, appended⟩, ?_⟩⟩
      rw [Dict.get?_insert, if_pos rfl]
    · exact ⟨(charge_turn charged).1, nofun⟩
  · obtain ⟨_, rfl, rfl⟩ := committedPrefix_ends.1 looked
    exact ⟨(Turn.refl _).mono (List.nil_subset _), nofun⟩

/-! ## The candidates -/

/-- What the work and the evaluator leave of the list that they are handed. -/
def TreeAgent.left (agent : TreeAgent φ) (round : Round ω φ) (branchId : BranchId) (target : List Nat) : List Nat :=
  let worked := round.work branchId target
  let handed := agent.keeps target worked
  match worked.outcome with
  | .error _ => handed
  | .ok output => agent.keeps handed (round.evaluator ⟨branchId, handed, some output, agent.negInf, none⟩)

/-- The candidate has committed its target, and the ledger holds what its callables have left of it. -/
def Succeeds (agent : TreeAgent φ) (round : Round ω φ) (before : AgentState) (branchId : BranchId) (target : List Nat)
    (after : AgentState) : Prop :=
  Extended before branchId target after.managed ∧ after.ledger.get? branchId = some (agent.left round branchId target)

theorem candidate_turn {round : Round ω φ} {before after : AgentState} {branchId : BranchId} {target : List Nat}
    {result : BranchResult ω φ}
    (ends : (agent.candidate round.work round.evaluator branchId target).Ends (Serves config) before.managed before.ledger
      (.ok result) after.managed after.ledger) :
    Turn config [branchId] before after ∧ result.branchId = branchId ∧
      (result.error = none → Succeeds agent round before branchId target after) := by
  obtain ⟨after, left⟩ := after
  unfold TreeAgent.candidate at ends
  obtain ⟨tried, managed, ledger, attempted, ends⟩ := Method.returns_bind.1 ends
  obtain ⟨_, isTried, committed⟩ := Method.ends_attempt.1 attempted
  cases isTried
  obtain ⟨turn, returned⟩ := @commit_turn ω φ config agent before ⟨managed, ledger⟩ _ _ _ committed
  cases tried with
  | error raised =>
    obtain ⟨isResult, rfl, rfl⟩ := Method.ends_pure.1 ends
    cases isResult
    exact ⟨turn, rfl, nofun⟩
  | ok =>
    obtain ⟨extended, _⟩ := returned rfl
    obtain ⟨_, _, _, asked, ends⟩ := Method.returns_bind.1 ends
    obtain ⟨worked, isWorked, rfl, rfl, rfl⟩ := Method.ends_request.1 asked
    cases isWorked
    obtain ⟨_, _, _, written, ends⟩ := Method.returns_bind.1 ends
    obtain ⟨_, rfl, rfl⟩ := Method.ends_modify.1 written
    cases outcome : (round.work branchId target).outcome with
    | error raised =>
      simp only [outcome] at ends
      obtain ⟨isResult, rfl, rfl⟩ := Method.ends_pure.1 ends
      cases isResult
      exact ⟨turn.insert _, rfl, nofun⟩
    | ok output =>
      simp only [outcome] at ends
      obtain ⟨_, _, _, written, ends⟩ := Method.returns_bind.1 ends
      obtain ⟨_, rfl, rfl⟩ := Method.ends_modify.1 written
      have turn := (turn.insert (agent.keeps target (round.work branchId target))).insert
        (agent.keeps (agent.keeps target (round.work branchId target))
          (round.evaluator ⟨branchId, agent.keeps target (round.work branchId target), some output, agent.negInf, none⟩))
      split at ends
      · obtain ⟨isResult, rfl, rfl⟩ := Method.ends_pure.1 ends
        cases isResult
        exact ⟨turn, rfl, nofun⟩
      · obtain ⟨isResult, rfl, rfl⟩ := Method.ends_pure.1 ends
        cases isResult
        refine ⟨turn, rfl, fun _ => ⟨extended, ?_⟩⟩
        rw [Dict.get?_insert, if_pos rfl]
        unfold TreeAgent.left
        simp only [outcome]

namespace Succeeds

variable {round : Round ω φ} {before middle after : AgentState} {branchId : BranchId} {target : List Nat} {ids : List BranchId}

/-- The turns of other candidates come after it. -/
theorem later (succeeds : Succeeds agent round before branchId target middle) (turn : Turn config ids middle after)
    (notMember : branchId ∉ ids) : Succeeds agent round before branchId target after := by
  obtain ⟨⟨base, held, found, hasHeld, holds⟩, isLeft⟩ := succeeds
  obtain ⟨cached, entry⟩ := turn.others branchId notMember
  exact ⟨⟨base, held, found, hasHeld, cached.trans holds⟩, entry.trans isLeft⟩

/-- The turns of other candidates have come before it. -/
theorem earlier (succeeds : Succeeds agent round middle branchId target after) (turn : Turn config ids before middle)
    (notMember : branchId ∉ ids) : Succeeds agent round before branchId target after := by
  obtain ⟨⟨base, held, found, hasHeld, holds⟩, isLeft⟩ := succeeds
  obtain ⟨cached, entry⟩ := turn.others branchId notMember
  exact ⟨⟨base, held, entry.symm.trans found, cached.symm.trans hasHeld, holds⟩, isLeft⟩

end Succeeds

theorem candidates_turn {round : Round ω φ} {pairs : List (Branch × List Nat)} {before after : AgentState}
    {results : List (BranchResult ω φ)}
    (ends : (agent.candidates round.work round.evaluator pairs).Ends (Serves config) before.managed before.ledger
      (.ok results) after.managed after.ledger) :
    Turn config (pairs.map fun pair => pair.1.branchId) before after ∧
      results.map BranchResult.branchId = pairs.map (fun pair => pair.1.branchId) ∧
      ((pairs.map fun pair => pair.1.branchId).Nodup → ∀ (i : Nat) child target result, pairs[i]? = some (child, target) →
        results[i]? = some result → result.error = none → Succeeds agent round before child.branchId target after) := by
  obtain ⟨after, left⟩ := after
  induction pairs generalizing before results with
  | nil =>
    obtain ⟨isResults, rfl, rfl⟩ := Method.ends_pure.1 ends
    cases isResults
    exact ⟨.refl _, rfl, fun _ i child target result atPair => by cases atPair⟩
  | cons pair pairs inductionHypothesis =>
    obtain ⟨child, target⟩ := pair
    unfold TreeAgent.candidates at ends
    obtain ⟨result, managed, ledger, first, ends⟩ := Method.returns_bind.1 ends
    obtain ⟨others, middle, kept, rest, ends⟩ := Method.returns_bind.1 ends
    obtain ⟨isResults, rfl, rfl⟩ := Method.ends_pure.1 ends
    cases isResults
    obtain ⟨turn, sameId, succeeds⟩ := @candidate_turn ω φ config agent round before ⟨managed, ledger⟩ _ _ _ first
    obtain ⟨turns, sameIds, succeed⟩ := @inductionHypothesis ⟨managed, ledger⟩ others rest
    refine ⟨turn.cons turns, ?_, fun distinct i other goal found atPair atResult noError => ?_⟩
    · rw [List.map_cons, List.map_cons, sameId, sameIds]
    · obtain ⟨notLater, distinct⟩ := List.nodup_cons.1 distinct
      cases i with
      | zero =>
        cases atPair
        cases atResult
        exact (succeeds noError).later turns notLater
      | succ i =>
        refine (succeed distinct i other goal found atPair atResult noError).earlier turn fun member => notLater ?_
        obtain same := List.mem_singleton.1 member
        exact List.mem_map.2 ⟨(other, goal), List.mem_of_getElem? atPair, same⟩

/-! ## A fan-out -/

/-- The fork of a fan-out, and the turns of its candidates. -/
structure FansOut (config : Config) (agent : TreeAgent φ) (parentId : BranchId) (round : Round ω φ) (before : AgentState)
    (base : List Nat) (targets : List (List Nat)) (children : List Branch) (forked : Managed)
    (results : List (BranchResult ω φ)) (after : AgentState) : Prop where
  committed : before.ledger.get? parentId = some base
  units : round.continuations.mapM agent.unit = .ok targets
  longer : ∀ target ∈ targets, StrictlyExtends base target
  forks : before.managed.Alone config (.fork parentId targets.length round.childIds none) (.ok (.branches children)) forked
  turn : Turn config (children.map Branch.branchId) ⟨forked, before.ledger.inherit base children⟩ after
  sameIds : results.map BranchResult.branchId = (children.zip targets).map fun pair => pair.1.branchId
  succeeds : (children.map Branch.branchId).Nodup → ∀ (i : Nat) child target result,
    (children.zip targets)[i]? = some (child, target) → results[i]? = some result → result.error = none →
      Succeeds agent round ⟨forked, before.ledger.inherit base children⟩ child.branchId target after

namespace FansOut

variable {parentId : BranchId} {round : Round ω φ} {before after : AgentState} {base : List Nat} {targets : List (List Nat)}
  {children : List Branch} {forked : Managed} {results : List (BranchResult ω φ)} {i : Nat}

/-- Each result is that of a child. -/
theorem pair_of_result (fans : FansOut config agent parentId round before base targets children forked results after)
    {result : BranchResult ω φ} (atResult : results[i]? = some result) :
    ∃ child target, (children.zip targets)[i]? = some (child, target) ∧ result.branchId = child.branchId := by
  have sameId := congrArg (fun ids : List BranchId => ids[i]?) fans.sameIds
  simp only [List.getElem?_map, atResult, Option.map_some] at sameId
  obtain ⟨⟨child, target⟩, atPair, equal⟩ := Option.map_eq_some_iff.1 sameId.symm
  exact ⟨child, target, atPair, equal.symm⟩

/-- The target of a child is the continuation in its place. -/
theorem continuation_of_pair (fans : FansOut config agent parentId round before base targets children forked results after)
    {child : Branch} {target : List Nat} (atPair : (children.zip targets)[i]? = some (child, target)) :
    children[i]? = some child ∧ targets[i]? = some target ∧
      ∃ continuation, round.continuations[i]? = some continuation ∧ agent.unit continuation = .ok target := by
  obtain ⟨atChild, atTarget⟩ := List.getElem?_zip_eq_some.1 atPair
  refine ⟨atChild, atTarget, ?_⟩
  have paired := mapM_forall₂ fans.units
  obtain ⟨inTargets, isTarget⟩ := List.getElem?_eq_some_iff.1 atTarget
  have inside : i < round.continuations.length := paired.length_eq ▸ inTargets
  refine ⟨round.continuations[i], List.getElem?_eq_getElem inside, ?_⟩
  exact (paired.get inside inTargets).trans (congrArg Except.ok isTarget)

end FansOut

theorem fanOut_returns {parentId : BranchId} {round : Round ω φ} {before after : AgentState}
    {results : List (BranchResult ω φ)}
    (ends : (agent.fanOut parentId round).Ends (Serves config) before.managed before.ledger (.ok results) after.managed
      after.ledger) :
    ∃ base targets children forked, FansOut config agent parentId round before base targets children forked results after := by
  unfold TreeAgent.fanOut at ends
  obtain ⟨base, _, _, looked, ends⟩ := Method.returns_bind.1 ends
  obtain ⟨isBase, rfl, rfl⟩ := committedPrefix_ends.1 looked
  obtain ⟨targets, _, _, mapped, ends⟩ := Method.returns_bind.1 ends
  obtain ⟨units, rfl, rfl⟩ := Method.ends_ofExcept.1 mapped
  obtain ⟨_, _, _, required, ends⟩ := Method.returns_bind.1 ends
  obtain ⟨longer, rfl, rfl⟩ := Method.ends_ofExcept.1 required
  obtain ⟨children, _, _, forks, ends⟩ := Method.returns_bind.1 ends
  obtain ⟨rfl, answer, alone, isAnswer⟩ := Method.ends_call.1 forks
  obtain ⟨_, forked, _, inherited, ends⟩ := Method.returns_bind.1 ends
  obtain ⟨_, rfl, rfl⟩ := Method.ends_modify.1 inherited
  obtain ⟨turn, sameIds, succeeds⟩ :=
    @candidates_turn ω φ config agent round _ ⟨forked, before.ledger.inherit base children⟩ after _ ends
  have among := zip_ids_sublist children targets
  refine ⟨base, targets, children, forked, get?_of_lookup isBase.symm, units.symm, extends_of_required longer.symm, ?_,
    turn.mono among.subset, sameIds, fun distinct => succeeds (distinct.sublist among)⟩
  cases answer with
  | error fault => cases isAnswer
  | ok forked =>
    cases isAnswer
    exact alone

end Turns

end Agentfork.Harness

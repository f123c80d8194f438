import Agentfork.Harness.TreeAgent

/-! # The ledger and the cache

The ledger is written after the cache, in steps of its own, and a call can fail
between any two of them. What keeps the two together is that a branch comes to
life with what its parent holds, that an `extend` which raises leaves the
sequences alone, and that a killed branch is not live. -/

namespace Agentfork.Harness

open Orchestrator Transition

/-- Every live branch of the ledger holds its committed prefix. -/
def Mirrors (managed : Managed) (ledger : Ledger) : Prop :=
  ∀ branchId tokens, ledger.get? branchId = some tokens → managed.isLive branchId = true →
    managed.cached branchId = some tokens

/-- `candidate` is `base` and more. -/
def StrictlyExtends (base candidate : List Nat) : Prop := base <+: candidate ∧ base.length < candidate.length

/-- The branch holds `target`, and its recorded parent holds less. -/
def Committed (managed : Managed) (branchId : BranchId) (target : List Nat) : Prop :=
  managed.cached branchId = some target ∧ ∃ branch parentId base, managed.record branchId = some branch ∧
    branch.parentId = some parentId ∧ managed.cached parentId = some base ∧ StrictlyExtends base target

/-- `work` runs on committed branches. -/
def WorksCommitted {ω : Type} (managed : Managed) : Request ω → Prop
  | .work _ branchId target => Committed managed branchId target
  | _ => True

theorem strictlyExtends_iff {base candidate : List Nat} :
    strictlyExtends base candidate = true ↔ StrictlyExtends base candidate := by
  unfold strictlyExtends StrictlyExtends
  rw [List.prefix_iff_eq_take]
  split
  · next short => exact ⟨nofun, fun extends_ => absurd extends_.2 (Nat.not_lt.2 short)⟩
  · next longer =>
    rw [decide_eq_true_eq]
    exact ⟨fun same => ⟨same.symm, Nat.lt_of_not_le longer⟩, fun extends_ => extends_.1.symm⟩

namespace Mirrors

variable {managed after : Managed} {ledger : Ledger} {branchId : BranchId} {tokens : List Nat}

theorem retains (mirrors : Mirrors managed ledger) (retains : managed.Retains after) : Mirrors after ledger := by
  intro branchId tokens found isLive
  obtain ⟨wasLive, same⟩ := retains branchId isLive
  exact same.trans (mirrors branchId tokens found wasLive)

/-- What is put into the ledger is what the branch holds, if it is live. -/
theorem insert (mirrors : Mirrors managed ledger)
    (held : managed.isLive branchId = true → managed.cached branchId = some tokens) :
    Mirrors managed (ledger.insert branchId tokens) := by
  intro other others found isLive
  rw [Dict.get?_insert] at found
  split at found
  · next here =>
    subst here
    cases found
    exact held isLive
  · exact mirrors other others found isLive

theorem forget (mirrors : Mirrors managed ledger) (receipts : List KillReceipt) :
    Mirrors managed (ledger.forget receipts) := by
  induction receipts generalizing ledger with
  | nil => exact mirrors
  | cons receipt receipts inductionHypothesis =>
    refine inductionHypothesis ?_
    simp only
    split
    · intro other others found
      rw [Dict.get?_erase] at found
      split at found
      · cases found
      · exact mirrors other others found
    · exact mirrors

end Mirrors

theorem Ledger.get?_inherit (base : List Nat) (children : List Branch) (ledger : Ledger) (branchId : BranchId) :
    (ledger.inherit base children).get? branchId =
      if branchId ∈ children.map Branch.branchId then some base else ledger.get? branchId := by
  induction children generalizing ledger with
  | nil => rfl
  | cons child children inductionHypothesis =>
    change (Ledger.inherit base children (ledger.insert child.branchId base)).get? branchId = _
    simp only [inductionHypothesis, Dict.get?_insert, List.map_cons, List.mem_cons]
    by_cases later : branchId ∈ children.map Branch.branchId
    · rw [if_pos later, if_pos (Or.inr later)]
    · rw [if_neg later]
      by_cases here : branchId = child.branchId
      · rw [if_pos here, if_pos (Or.inl here)]
      · rw [if_neg here, if_neg (not_or.2 ⟨here, later⟩)]

/-! ## Extending a live branch -/

/-- What an `extend` leaves: the registry and the other branches as they were, and
the branch with its new tokens unless it has raised. -/
theorem extendLive_spec {clock : Nat} {branchId : BranchId} {tokens : List Nat} {managed after : Managed}
    {charged : Except AgentError Nat} (extended : extendLive clock branchId tokens managed = (charged, after)) :
    after.state = managed.state ∧ (∀ other, other ≠ branchId → after.cached other = managed.cached other) ∧
      ((∃ raised, charged = .error raised) ∧ after.cached branchId = managed.cached branchId ∨
        ∃ count held, charged = .ok count ∧ managed.isLive branchId = true ∧ managed.cached branchId = some held ∧
          after.cached branchId = some (held ++ tokens)) := by
  unfold extendLive at extended
  split at extended
  · cases extended
    exact ⟨rfl, fun _ _ => rfl, .inl ⟨⟨_, rfl⟩, rfl⟩⟩
  · split at extended
    · cases extended
      exact ⟨rfl, fun _ _ => rfl, .inl ⟨⟨_, rfl⟩, rfl⟩⟩
    · next isLive =>
      rw [Bool.not_eq_false] at isLive
      have sequences := (managed.cache.extend_sequence clock branchId tokens).2
      generalize managed.cache.extend clock branchId tokens = outcome at extended sequences
      obtain ⟨count, held, succeeded, found, inserted⟩ | ⟨⟨error, failed⟩, same⟩ := sequences
      · cases extended
        refine ⟨rfl, fun other differs => ?_, .inr ⟨count, held, by rw [succeeded]; rfl, isLive, found, ?_⟩⟩
        · refine (congrArg (Dict.get? · other) inserted).trans ?_
          rw [Dict.get?_insert, if_neg differs]
          rfl
        · refine (congrArg (Dict.get? · branchId) inserted).trans ?_
          rw [Dict.get?_insert, if_pos rfl]
      · cases extended
        exact ⟨rfl, fun other _ => congrArg (Dict.get? · other) same,
          .inl ⟨⟨.cache error, by rw [failed]; rfl⟩, congrArg (Dict.get? · branchId) same⟩⟩

section Methods

variable {ω φ : Type} {config : Config} {managed : Managed} {ledger : Ledger} {branchId : BranchId}

namespace Orch

theorem obeys_extend {tokens : List Nat} {post : Except AgentError Nat → Ledger → Managed → Prop}
    (each : ∀ clock charged after, extendLive clock branchId tokens managed = (charged, after) → post charged ledger after) :
    (extend branchId tokens : AgentMethod ω Nat).Obeys (Serves config) WorksCommitted ledger managed post :=
  ⟨trivial, fun charged after ⟨clock, extended⟩ => each clock charged after extended⟩

theorem obeys_createParent {lease : Option Int} {post : Except AgentError Branch → Ledger → Managed → Prop}
    (each : ∀ created after, managed.Alone config (.createParent branchId [] lease) (Except.map Value.branch created) after →
      post (created.mapError .fault) ledger after) :
    (createParent branchId lease : AgentMethod ω Branch).Obeys (Serves config) WorksCommitted ledger managed post :=
  ⟨trivial, fun created after alone => each created after alone⟩

theorem obeys_fork {n : Int} {childIds : Option (List BranchId)}
    {post : Except AgentError (List Branch) → Ledger → Managed → Prop}
    (each : ∀ forked after, managed.Alone config (.fork branchId n childIds none) (Except.map Value.branches forked) after →
      post (forked.mapError .fault) ledger after) :
    (fork branchId n childIds : AgentMethod ω (List Branch)).Obeys (Serves config) WorksCommitted ledger managed post :=
  ⟨trivial, fun forked after alone => each forked after alone⟩

theorem obeys_killLosers {post : Except AgentError (List KillReceipt) → Ledger → Managed → Prop}
    (each : ∀ killed after, managed.Alone config (.killLosers branchId) (Except.map Value.receipts killed) after →
      post (killed.mapError .fault) ledger after) :
    (killLosers branchId : AgentMethod ω (List KillReceipt)).Obeys (Serves config) WorksCommitted ledger managed post :=
  ⟨trivial, fun killed after alone => each killed after alone⟩

end Orch

theorem committedPrefix_obeys {σ : Type} {service : σ → (request : Request ω) → Reply request → σ → Prop}
    {allows : σ → Request ω → Prop} {state : σ} {post : Except AgentError (List Nat) → Ledger → σ → Prop} :
    (committedPrefix branchId : AgentMethod ω (List Nat)).Obeys service allows ledger state post ↔
      post (ledger.lookup branchId) ledger state := Iff.rfl

theorem lookup_of_get? {tokens : List Nat} (found : ledger.get? branchId = some tokens) :
    ledger.lookup branchId = .ok tokens := by
  unfold Ledger.lookup
  rw [found]

/-- What a commit leaves, whether it returns or raises. -/
structure Commits (managed : Managed) (ledger : Ledger) (branchId : BranchId) (after : Managed) (left : Ledger) : Prop where
  state : after.state = managed.state
  mirrors : Mirrors after left
  others : ∀ other, other ≠ branchId →
    after.cached other = managed.cached other ∧ left.get? other = ledger.get? other

/-- A `TreeKVCache` refuses a text. -/
theorem charge_obeys {agent : TreeAgent φ} {base target : List Nat} {post : Except AgentError Unit → Ledger → Managed → Prop}
    (raised : ∀ error, post (.error error) ledger managed)
    (each : ∀ clock charged after, extendLive clock branchId (target.drop base.length) managed = (charged, after) →
      post (charged.map fun _ => ()) ledger after) :
    (agent.charge branchId base target : AgentMethod ω Unit).Obeys (Serves config) WorksCommitted ledger managed post := by
  unfold TreeAgent.charge
  split
  · refine ⟨trivial, fun generated after served => ?_⟩
    obtain ⟨rfl, rfl⟩ := served
    exact raised _
  · refine Method.obeys_bind.2 (Orch.obeys_extend fun clock charged after extended => ?_)
    cases charged with
    | error error => exact each clock _ after extended
    | ok count => exact each clock _ after extended

theorem commit_obeys {agent : TreeAgent φ} (mirrors : Mirrors managed ledger) {base target : List Nat}
    (found : ledger.get? branchId = some base) (isPrefix : base <+: target) :
    (agent.commit branchId target : AgentMethod ω Unit).Obeys (Serves config) WorksCommitted ledger managed
      fun result left after => Commits managed ledger branchId after left ∧
        (result = .ok () → after.isLive branchId = true ∧ after.cached branchId = some target) := by
  unfold TreeAgent.commit
  rw [Method.obeys_bind, committedPrefix_obeys, lookup_of_get? found]
  refine Method.obeys_bind.2 (charge_obeys (fun _ => ?_) fun clock charged after extended => ?_)
  · exact ⟨⟨rfl, mirrors, fun _ _ => ⟨rfl, rfl⟩⟩, nofun⟩
  obtain ⟨state, others, ⟨⟨raised, rfl⟩, same⟩ | ⟨count, held, rfl, isLive, holds, appended⟩⟩ := extendLive_spec extended
  · refine ⟨⟨state, fun other tokens isFound isLive => ?_, fun other differs => ⟨others other differs, rfl⟩⟩, nofun⟩
    have wasLive : managed.isLive other = true := by
      rw [Managed.isLive, ← state]
      exact isLive
    have sameSequence : after.cached other = managed.cached other := by
      by_cases here : other = branchId
      · exact here ▸ same
      · exact others other here
    exact sameSequence.trans (mirrors other tokens isFound wasLive)
  · simp only [Method.obeys_modify]
    -- the branch has held the base, so it holds the target now
    have isHeld : held = base := Option.some.inj (holds.symm.trans (mirrors branchId base found isLive))
    have holdsTarget : after.cached branchId = some target := by
      rw [appended, isHeld, List.prefix_iff_eq_append.1 isPrefix]
    have liveAfter : after.isLive branchId = true := by
      rw [Managed.isLive, state]
      exact isLive
    refine ⟨⟨state, fun other tokens isFound isLive => ?_, fun other differs => ⟨others other differs, ?_⟩⟩, fun _ => ⟨liveAfter, holdsTarget⟩⟩
    · rw [Dict.get?_insert] at isFound
      split at isFound
      · next here =>
        cases isFound
        exact here ▸ holdsTarget
      · next differs =>
        have wasLive : managed.isLive other = true := by
          rw [Managed.isLive, ← state]
          exact isLive
        exact (others other differs).trans (mirrors other tokens isFound wasLive)
    · rw [Dict.get?_insert, if_neg differs]

/-! ## One candidate -/

/-- What a child relies on before its turn. -/
structure Ready (managed : Managed) (ledger : Ledger) (parentId : BranchId) (base : List Nat) (branchId : BranchId)
    (target : List Nat) : Prop where
  found : ledger.get? branchId = some base
  longer : StrictlyExtends base target
  child : managed.isLive branchId = true → ∃ branch, managed.record branchId = some branch ∧ branch.parentId = some parentId
  notParent : branchId ≠ parentId

variable {after : Managed} {left : Ledger} {parentId : BranchId} {base target : List Nat}

/-- The turn of one child is not seen by another one. -/
theorem Ready.kept {other : BranchId} (ready : Ready managed ledger parentId base branchId target)
    (commits : Commits managed ledger other after left) (differs : branchId ≠ other) :
    Ready after left parentId base branchId target where
  found := (commits.others branchId differs).2.trans ready.found
  longer := ready.longer
  child isLive := by
    rw [Managed.isLive, commits.state] at isLive
    rw [Managed.record, commits.state]
    exact ready.child isLive
  notParent := ready.notParent

/-- The ledger may name the committed prefix again. -/
theorem Commits.again (commits : Commits managed ledger branchId after left) (holds : after.cached branchId = some target) :
    Commits managed ledger branchId after (left.insert branchId target) where
  state := commits.state
  mirrors := commits.mirrors.insert fun _ => holds
  others other differs := by
    refine ⟨(commits.others other differs).1, ?_⟩
    rw [Dict.get?_insert, if_neg differs]
    exact (commits.others other differs).2

theorem candidate_obeys (agent : TreeAgent φ) {work : Work ω} {evaluator : Evaluator ω φ}
    (workLeaves : ∀ branchId tokens, (work branchId tokens).prefixTokens = tokens)
    (evaluatorLeaves : ∀ result, (evaluator result).prefixTokens = result.prefixTokens) (mirrors : Mirrors managed ledger)
    (ready : Ready managed ledger parentId base branchId target) (parentHolds : managed.cached parentId = some base) :
    (agent.candidate work evaluator branchId target).Obeys (Serves config) WorksCommitted ledger managed
      fun result left after => Commits managed ledger branchId after left ∧ ∃ value, result = .ok value := by
  unfold TreeAgent.candidate
  rw [Method.obeys_bind, Method.obeys_attempt]
  refine (commit_obeys mirrors ready.found ready.longer.1).mono fun result left after ended => ?_
  obtain ⟨commits, returned⟩ := ended
  cases result with
  | error raised => exact ⟨commits, _, rfl⟩
  | ok =>
    obtain ⟨isLive, holds⟩ := returned rfl
    have committed : Committed after branchId target := by
      rw [Managed.isLive, commits.state] at isLive
      obtain ⟨branch, recorded, isParent⟩ := ready.child isLive
      refine ⟨holds, branch, parentId, base, ?_, isParent, ?_, ready.longer⟩
      · rw [Managed.record, commits.state]
        exact recorded
      · exact (commits.others parentId ready.notParent.symm).1.trans parentHolds
    refine Method.obeys_bind.2 (Method.obeys_request.2 ⟨committed, fun worked later served => ?_⟩)
    obtain ⟨rfl, rfl⟩ := served
    have afterWork := commits.again holds
    have workKeeps : agent.keeps target (work branchId target) = target := TreeAgent.keeps_same (workLeaves ..)
    simp only [Method.obeys_bind, Method.obeys_modify, workKeeps]
    cases (work branchId target).outcome with
    | error raised => exact ⟨afterWork, _, rfl⟩
    | ok output =>
      have evaluatorKeeps : agent.keeps target (evaluator ⟨branchId, target, some output, agent.negInf, none⟩) = target :=
        TreeAgent.keeps_same (evaluatorLeaves _)
      simp only [Method.obeys_bind, Method.obeys_modify, evaluatorKeeps]
      cases (evaluator ⟨branchId, target, some output, agent.negInf, none⟩).outcome with
      | error raised => exact ⟨afterWork.again holds, _, rfl⟩
      | ok score => exact ⟨afterWork.again holds, _, rfl⟩

/-! ## A round -/

theorem candidates_obey (agent : TreeAgent φ) {work : Work ω} {evaluator : Evaluator ω φ}
    (workLeaves : ∀ branchId tokens, (work branchId tokens).prefixTokens = tokens)
    (evaluatorLeaves : ∀ result, (evaluator result).prefixTokens = result.prefixTokens) (pairs : List (Branch × List Nat))
    (mirrors : Mirrors managed ledger) (distinct : (pairs.map fun pair => pair.1.branchId).Nodup)
    (ready : ∀ pair ∈ pairs, Ready managed ledger parentId base pair.1.branchId pair.2)
    (parentHolds : managed.cached parentId = some base) :
    (agent.candidates work evaluator pairs).Obeys (Serves config) WorksCommitted ledger managed
      fun _ left after => Mirrors after left := by
  induction pairs generalizing managed ledger with
  | nil => exact mirrors
  | cons pair pairs inductionHypothesis =>
    obtain ⟨child, target⟩ := pair
    obtain ⟨notLater, distinct⟩ := List.nodup_cons.1 distinct
    have first := ready (child, target) List.mem_cons_self
    unfold TreeAgent.candidates
    refine Method.obeys_bind.2 ?_
    refine (candidate_obeys agent workLeaves evaluatorLeaves mirrors first parentHolds).mono fun result left after ended => ?_
    obtain ⟨commits, value, rfl⟩ := ended
    refine Method.obeys_bind.2 ?_
    -- the later children are as ready as before
    have later : ∀ pair ∈ pairs, Ready after left parentId base pair.1.branchId pair.2 := by
      intro pair member
      refine (ready pair (List.mem_cons_of_mem _ member)).kept commits fun same => notLater ?_
      exact List.mem_map.2 ⟨pair, member, same⟩
    have stillHolds := (commits.others parentId first.notParent.symm).1.trans parentHolds
    refine (inductionHypothesis commits.mirrors distinct later stillHolds).mono fun result left after mirrors => ?_
    cases result with
    | ok results => exact mirrors
    | error raised => exact mirrors

/-- The callables leave the lists that they are handed. -/
structure Round.LeavesPrefixes (round : Round ω φ) : Prop where
  work : ∀ branchId tokens, (round.work branchId tokens).prefixTokens = tokens
  evaluator : ∀ result, (round.evaluator result).prefixTokens = result.prefixTokens

/-- The round brings no child that is new to the registry and still in the
ledger, and none with the empty id. -/
def Unclaimed (managed : Managed) (ledger : Ledger) (parentId : BranchId) (round : Round ω φ) : Prop :=
  ∀ branchId ∈ Shared.chosenIds parentId (Shared.requested round.continuations.length round.childIds) managed.state.shared,
    managed.record branchId = none → branchId ≠ "" ∧ ledger.get? branchId = none

instance (managed : Managed) (ledger : Ledger) (parentId : BranchId) (round : Round ω φ) :
    Decidable (Unclaimed managed ledger parentId round) :=
  inferInstanceAs (Decidable (∀ branchId ∈ Shared.chosenIds parentId
      (Shared.requested round.continuations.length round.childIds) managed.state.shared,
    managed.record branchId = none → branchId ≠ "" ∧ ledger.get? branchId = none))

theorem mapM_forall₂ {α β ε : Type} {f : α → Except ε β} {values : List α} {results : List β}
    (mapped : values.mapM f = .ok results) : List.Forall₂ (fun value result => f value = .ok result) values results := by
  induction values generalizing results with
  | nil =>
    cases mapped
    exact .nil
  | cons value values inductionHypothesis =>
    rw [List.mapM_cons] at mapped
    cases first : f value with
    | error raised =>
      rw [first] at mapped
      cases mapped
    | ok result =>
      rw [first] at mapped
      cases rest : values.mapM f with
      | error raised =>
        rw [rest] at mapped
        cases mapped
      | ok others =>
        rw [rest] at mapped
        cases mapped
        exact .cons first (inductionHypothesis rest)

theorem extends_of_required {targets : List (List Nat)} (required : targets.forM (requireExtension parentId base) = .ok ()) :
    ∀ target ∈ targets, StrictlyExtends base target := by
  induction targets with
  | nil => exact nofun
  | cons first targets inductionHypothesis =>
    change (requireExtension parentId base first >>= fun _ => targets.forM (requireExtension parentId base)) = _ at required
    unfold requireExtension at required
    split at required
    · next longer =>
      intro target member
      obtain rfl | later := List.mem_cons.1 member
      · exact strictlyExtends_iff.1 longer
      · exact inductionHypothesis required target later
    · cases required

theorem zip_ids_sublist (children : List Branch) (targets : List (List Nat)) :
    ((children.zip targets).map fun pair => pair.1.branchId).Sublist (children.map Branch.branchId) := by
  have names : (children.zip targets).map (fun pair => pair.1.branchId) =
      ((children.zip targets).map Prod.fst).map Branch.branchId := by
    rw [List.map_map]
    rfl
  rw [names, List.zip_eq_zip_take_min, List.map_fst_zip (by simp)]
  exact (List.take_sublist _ _).map Branch.branchId

/-- The children that a fork has returned are ready for their turns. -/
theorem ready_of_forked {ids : List BranchId} {children : List Branch} {targets : List (List Nat)}
    (grafts : managed.Grafts (some parentId) ids after) (among : (children.map Branch.branchId).Sublist ids)
    (longer : ∀ target ∈ targets, StrictlyExtends base target) :
    ((children.zip targets).map fun pair => pair.1.branchId).Nodup ∧
      ∀ pair ∈ children.zip targets, Ready after (ledger.inherit base children) parentId base pair.1.branchId pair.2 := by
  constructor
  · exact grafts.distinct.sublist ((zip_ids_sublist children targets).trans among)
  · intro pair member
    obtain ⟨isChild, isTarget⟩ := List.of_mem_zip member
    have named : pair.1.branchId ∈ children.map Branch.branchId := List.mem_map.2 ⟨pair.1, isChild, rfl⟩
    have isNew := among.subset named
    refine ⟨?_, longer pair.2 isTarget, fun isLive => (grafts.new _ isNew isLive).2, ?_⟩
    · rw [Ledger.get?_inherit, if_pos named]
    · exact fun same => grafts.notParent parentId rfl (same ▸ isNew)

/-- A fork that meets the condition leaves no live branch of the ledger with another prefix. -/
theorem Mirrors.fork {ids : List BranchId} (mirrors : Mirrors managed ledger)
    (grafts : managed.Grafts (some parentId) ids after) (unclaimed : ∀ branchId ∈ ids, ledger.get? branchId = none) :
    Mirrors after ledger := by
  intro branchId tokens found isLive
  by_cases isNew : branchId ∈ ids
  · rw [unclaimed branchId isNew] at found
    cases found
  · obtain ⟨wasLive, same⟩ := grafts.retains isNew isLive
    exact same.trans (mirrors branchId tokens found wasLive)

theorem fanOut_obeys (agent : TreeAgent φ) {round : Round ω φ} (mirrors : Mirrors managed ledger)
    (leaves : round.LeavesPrefixes) (unclaimed : Unclaimed managed ledger parentId round) :
    (agent.fanOut parentId round).Obeys (Serves config) WorksCommitted ledger managed fun _ left after => Mirrors after left := by
  unfold TreeAgent.fanOut
  rw [Method.obeys_bind, committedPrefix_obeys]
  cases isBase : ledger.get? parentId with
  | none =>
    unfold Ledger.lookup
    rw [isBase]
    exact mirrors
  | some base =>
    rw [lookup_of_get? isBase]
    refine Method.obeys_bind.2 ?_
    rw [Method.obeys_ofExcept]
    cases mapped : round.continuations.mapM agent.unit with
    | error raised => exact mirrors
    | ok targets =>
      have sameLength := (mapM_forall₂ mapped).length_eq.symm
      refine Method.obeys_bind.2 ?_
      rw [Method.obeys_ofExcept]
      cases required : targets.forM (requireExtension parentId base) with
      | error raised => exact mirrors
      | ok =>
        have longer := extends_of_required required
        refine Method.obeys_bind.2 (Orch.obeys_fork fun forked after alone => ?_)
        rw [sameLength] at alone
        obtain ⟨ids, chosen, grafts, returned⟩ := alone.fork_grafts fun branchId isChosen absent =>
          (unclaimed branchId isChosen absent).1
        have stillMirrors := mirrors.fork grafts fun branchId isNew =>
          (unclaimed branchId (chosen branchId isNew) (grafts.absent branchId isNew)).2
        cases forked with
        | error fault => exact stillMirrors
        | ok children =>
          obtain ⟨parentLive, among⟩ := returned children rfl
          have parentHolds := mirrors parentId base isBase parentLive
          refine Method.obeys_bind.2 ?_
          rw [Method.obeys_modify]
          -- the children hold what their parent holds
          have inherited : Mirrors after (ledger.inherit base children) := by
            intro branchId tokens found isLive
            rw [Ledger.get?_inherit] at found
            split at found
            · next isChild =>
              cases found
              exact (grafts.new branchId (among.subset isChild) isLive).1.trans parentHolds
            · exact stillMirrors branchId tokens found isLive
          obtain ⟨distinct, ready⟩ := ready_of_forked grafts among longer
          exact candidates_obey agent leaves.work leaves.evaluator _ inherited distinct ready
            ((grafts.elsewhere parentId (grafts.notParent parentId rfl)).2.trans parentHolds)

theorem killLosers_obeys (winnerId : BranchId) (mirrors : Mirrors managed ledger) :
    (killLosers winnerId : AgentMethod ω (List KillReceipt)).Obeys (Serves config) WorksCommitted ledger managed
      fun _ left after => Mirrors after left := by
  unfold killLosers
  refine Method.obeys_bind.2 (Orch.obeys_killLosers fun killed after alone => ?_)
  have stillMirrors := mirrors.retains alone.killLosers_retains
  cases killed with
  | error fault => exact stillMirrors
  | ok receipts => exact stillMirrors.forget receipts

theorem runRound_obeys (agent : TreeAgent φ) {round : Round ω φ} (mirrors : Mirrors managed ledger)
    (leaves : round.LeavesPrefixes) (unclaimed : Unclaimed managed ledger parentId round) :
    (agent.runRound parentId round).Obeys (Serves config) WorksCommitted ledger managed fun _ left after => Mirrors after left := by
  unfold TreeAgent.runRound
  refine Method.obeys_bind.2 ((fanOut_obeys agent mirrors leaves unclaimed).mono fun result left after mirrors => ?_)
  cases result with
  | error raised => exact mirrors
  | ok results =>
    refine Method.obeys_bind.2 ?_
    rw [Method.obeys_ofExcept]
    cases agent.selectWinner results with
    | error raised => exact mirrors
    | ok winner =>
      refine Method.obeys_bind.2 ((killLosers_obeys winner.branchId mirrors).mono fun result left after mirrors => ?_)
      cases result with
      | error raised => exact mirrors
      | ok receipts => exact mirrors

theorem prepareRoot_obeys (agent : TreeAgent φ) (rootId : BranchId) (context : Continuation) (lease : Option Int)
    (mirrors : Mirrors managed ledger) :
    (agent.prepareRoot rootId context lease : AgentMethod ω BranchId).Obeys (Serves config) WorksCommitted ledger managed
      fun _ left after => Mirrors after left := by
  unfold TreeAgent.prepareRoot
  refine Method.obeys_bind.2 (Orch.obeys_createParent fun created after alone => ?_)
  obtain ⟨value, returned, grafts⟩ | ⟨⟨fault, raised⟩, retains⟩ := alone.createParent_grafts
  · cases created with
    | error fault => cases returned
    | ok branch =>
      refine Method.obeys_bind.2 ?_
      rw [Method.obeys_modify]
      have planted : Mirrors after (ledger.insert rootId []) := by
        intro branchId tokens found isLive
        rw [Dict.get?_insert] at found
        split at found
        · next here =>
          cases found
          exact (grafts.new branchId (List.mem_singleton.2 here) isLive).1
        · next differs =>
          obtain ⟨wasLive, same⟩ := grafts.retains (by simpa using differs) isLive
          exact same.trans (mirrors branchId tokens found wasLive)
      refine Method.obeys_bind.2 ?_
      rw [Method.obeys_ofExcept]
      cases agent.unit context with
      | error raised => exact planted
      | ok target =>
        have isRoot : (ledger.insert rootId []).get? rootId = some [] := by rw [Dict.get?_insert, if_pos rfl]
        refine Method.obeys_bind.2 ((commit_obeys planted isRoot (List.nil_prefix)).mono fun result left after ended => ?_)
        cases result with
        | error raised => exact ended.1.mirrors
        | ok => exact ended.1.mirrors
  · cases created with
    | error fault => exact mirrors.retains retains
    | ok branch => cases raised

end Methods

/-! ## Runs -/

section Runs

variable {ω φ : Type} {config : Config} {agent : TreeAgent φ}

/-- The call's round leaves the lists it is handed, and claims no id of the ledger. -/
def Careful (before : AgentState) : AgentCall ω φ → Prop
  | .fanOut parentId round | .runRound parentId round =>
    round.LeavesPrefixes ∧ Unclaimed before.managed before.ledger parentId round
  | .prepareRoot _ _ _ | .killLosers _ => True

theorem body_obeys {before : AgentState} {call : AgentCall ω φ} (mirrors : Mirrors before.managed before.ledger)
    (careful : Careful before call) :
    (call.body agent).Obeys (Serves config) WorksCommitted before.ledger before.managed fun _ left after => Mirrors after left := by
  cases call with
  | prepareRoot rootId context lease =>
    refine Method.obeys_bind.2 ((prepareRoot_obeys agent rootId context lease mirrors).mono fun result left after mirrors => ?_)
    cases result with
    | ok rootId => exact mirrors
    | error raised => exact mirrors
  | fanOut parentId round =>
    refine Method.obeys_bind.2 ((fanOut_obeys agent mirrors careful.1 careful.2).mono fun result left after mirrors => ?_)
    cases result with
    | ok results => exact mirrors
    | error raised => exact mirrors
  | runRound parentId round =>
    refine Method.obeys_bind.2 ((runRound_obeys agent mirrors careful.1 careful.2).mono fun result left after mirrors => ?_)
    cases result with
    | ok winner => exact mirrors
    | error raised => exact mirrors
  | killLosers winnerId =>
    refine Method.obeys_bind.2 ((killLosers_obeys winnerId mirrors).mono fun result left after mirrors => ?_)
    cases result with
    | ok receipts => exact mirrors
    | error raised => exact mirrors

/-- One careful call keeps the two together. -/
theorem AgentStep.mirrors {before after : AgentState} {call : AgentCall ω φ} (taken : AgentStep config agent before call after)
    (mirrors : Mirrors before.managed before.ledger) (careful : Careful before call) :
    Mirrors after.managed after.ledger := by
  obtain ⟨result, ends⟩ := taken
  exact (body_obeys mirrors careful).ends ends

/-- An agent that begins with an empty ledger, over any orchestrator: as long as its
calls are careful, its ledger mirrors the cache, and work runs on committed branches. -/
theorem ledger_mirrors_cache {start : Managed} {state : AgentState}
    (reached : Reachable (AgentStep (ω := ω) config agent) Careful ⟨start, .empty⟩ state) :
    Mirrors state.managed state.ledger ∧
      ∀ call : AgentCall ω φ, Careful state call → ∀ managed work branchId target,
        (call.body agent).Asks (Serves config) state.managed state.ledger managed (.work work branchId target) →
          Committed managed branchId target := by
  have mirrors : Mirrors state.managed state.ledger :=
    reached.invariant (motive := fun state => Mirrors state.managed state.ledger) nofun
      fun before call after mirrors careful taken => taken.mirrors mirrors careful
  exact ⟨mirrors, fun call careful managed work branchId target comes => (body_obeys mirrors careful).asks comes⟩

end Runs

/-! ## A root and two candidates -/

theorem meets_of_forall {σ α : Type} {step : σ → α → Option σ} {guard : α → Prop} {actions : List α}
    (all : ∀ action ∈ actions, guard action) {start : σ} : Meets step (fun _ action => guard action) start actions := by
  induction actions generalizing start with
  | nil => exact trivial
  | cons action actions inductionHypothesis =>
    refine ⟨all action List.mem_cons_self, ?_⟩
    cases step start action with
    | none => exact trivial
    | some next => exact inductionHypothesis fun other member => all other (List.mem_cons_of_mem action member)

/-- The serial orchestrator after a call that runs alone. -/
def afterCall (before : Managed) (op : Op) (actions : List Action) : Managed :=
  managedRun before (.invoke op returns :: actions)

theorem alone_of_run {before : Managed} {op : Op} {actions : List Action} {outcome : Except Fault Value}
    (enabled : (run (Managed.step serialConfig) before (taken (.invoke op returns :: actions))).isSome = true)
    (own : ∀ action ∈ taken actions, action.isOf before.state.calls.length = true)
    (ended : ((afterCall before op actions).state.calls[before.state.calls.length]?).map Call.stage =
      some (.finished outcome)) :
    before.Alone serialConfig op outcome (afterCall before op actions) := by
  obtain ⟨final, executed⟩ := Option.isSome_iff_exists.1 enabled
  have isFinal : afterCall before op actions = final := by
    unfold afterCall managedRun runFrom
    rw [executed, Option.getD_some]
  rw [isFinal] at ended ⊢
  obtain ⟨first, begun, rest⟩ := Option.bind_eq_some_iff.1 executed
  exact ⟨returns, first, begun, reachable_of_run rest (meets_of_forall own), ended⟩

/-- A score of `none` is the least one. -/
def scorer : TreeAgent (Option Int) := ⟨utf8Tokens, false, none, fun first second =>
  match first, second with
  | some first, some second => decide (second < first)
  | some _, none => true
  | none, _ => false⟩

/-- The output of a candidate is its first token after the empty context. -/
def firstToken : Round Nat (Option Int) where
  continuations := [.tokens [1], .tokens [2]]
  work _ tokens := ⟨.ok (tokens.headD 0), tokens⟩
  evaluator result := ⟨.ok (result.output.map Int.ofNat), result.prefixTokens⟩
  childIds := some ["c", "d"]

def rootManaged : Managed := afterCall managedStart (.createParent "r" [] none)
  [.item 0 0 returns, .item 0 0 returns, .item 0 0 returns, .item 0 0 returns, .advance 0]

def rooted : AgentState := ⟨(extendLive 0 "r" [] rootManaged).2, Dict.empty.insert "r" []⟩

theorem rooted_step : AgentStep serialConfig scorer ⟨managedStart, .empty⟩
    (.prepareRoot "r" (.tokens []) none : AgentCall Nat (Option Int)) rooted := by
  have alone : managedStart.Alone serialConfig (.createParent "r" [] none)
      (Except.map Value.branch (.ok ⟨"r", none, .live, 0, none⟩)) rootManaged :=
    alone_of_run (by decide) (by decide) rfl
  exact ⟨.ok (), .call alone (.call ⟨0, rfl⟩ .done)⟩

def started (i : Nat) : List Action := List.replicate 5 (.item 1 i returns)

def forkedManaged : Managed := afterCall rooted.managed (.fork "r" 2 (some ["c", "d"]) none)
  (started 0 ++ started 1 ++ [.advance 1])

def fannedManaged : Managed := (extendLive 0 "d" [2] (extendLive 0 "c" [1] forkedManaged).2).2

def fanned : AgentState := ⟨fannedManaged, ((Dict.empty.insert "r" []).insert "c" [1]).insert "d" [2]⟩

theorem forked_alone : Serves serialConfig rooted.managed (Request.fork "r" 2 (some ["c", "d"]) : Request Nat)
    (.ok [⟨"c", some "r", .live, 0, none⟩, ⟨"d", some "r", .live, 0, none⟩]) forkedManaged :=
  alone_of_run (by decide) (by decide) rfl

theorem fanned_step : AgentStep serialConfig scorer rooted (.fanOut "r" firstToken) fanned :=
  ⟨.ok (), .call forked_alone (.call ⟨0, rfl⟩ (.call ⟨rfl, rfl⟩ (.call ⟨0, rfl⟩ (.call ⟨rfl, rfl⟩ .done))))⟩

theorem fanned_mirrors : fanned.managed.cached "c" = some [1] ∧
    Committed (extendLive 0 "c" [1] forkedManaged).2 "c" [1] := by
  have start : Reachable (AgentStep serialConfig scorer) Careful ⟨managedStart, .empty⟩ rooted :=
    .tail .refl (show Careful _ (.prepareRoot "r" (.tokens []) none : AgentCall Nat (Option Int)) from trivial) rooted_step
  have careful : Careful rooted (.fanOut "r" firstToken) := ⟨⟨fun _ _ => rfl, fun _ => rfl⟩, by decide⟩
  have reached : Reachable (AgentStep serialConfig scorer) Careful ⟨managedStart, .empty⟩ fanned := .tail start careful fanned_step
  refine ⟨(ledger_mirrors_cache reached).1 "c" [1] rfl rfl, ?_⟩
  -- the work of the first candidate
  refine (ledger_mirrors_cache start).2 (.fanOut "r" firstToken) careful _ firstToken.work "c" [1] ?_
  exact .later forked_alone (.later ⟨0, rfl⟩ .here)

/-! ## A prefix that outlives its branch -/

/-- `c` is reaped, and the sandbox of `d` does not die. -/
def halfKilled : Managed := afterCall fanned.managed (.killLosers "r")
  [.item 2 0 returns, .item 2 0 returns, .item 2 0 ⟨.returned, none, 0, 1, []⟩, .item 2 0 returns,
    .item 2 1 returns, .item 2 1 (raises .exception), .item 2 1 returns, .advance 2]

theorem halfKilled_step : AgentStep serialConfig scorer fanned (.killLosers "r" : AgentCall Nat (Option Int))
    ⟨halfKilled, fanned.ledger⟩ := by
  have killed : Serves serialConfig fanned.managed (Request.killLosers "r" : Request Nat) (.error .exception) halfKilled :=
    alone_of_run (by decide) (by decide) rfl
  exact ⟨.error (.fault .exception), .call killed .done⟩

/-- The id of `c` again, beside a child that does not spawn. -/
def secondRound : Round Nat (Option Int) := { firstToken with childIds := some ["c", "e"] }

def halfForked : Managed := afterCall halfKilled (.fork "r" 2 (some ["c", "e"]) none)
  (List.replicate 5 (.item 3 0 returns) ++ [.item 3 1 returns, .item 3 1 returns, .item 3 1 (raises .exception),
    .item 3 1 returns, .item 3 1 returns, .item 3 1 returns, .item 3 1 returns, .advance 3])

theorem halfForked_step : AgentStep serialConfig scorer ⟨halfKilled, fanned.ledger⟩ (.fanOut "r" secondRound)
    ⟨halfForked, fanned.ledger⟩ := by
  have forked : Serves serialConfig halfKilled (Request.fork "r" 2 (some ["c", "e"]) : Request Nat) (.error .exception)
      halfForked := alone_of_run (by decide) (by decide) rfl
  exact ⟨.error (.fault .exception), .call forked .done⟩

theorem reaped_prefix_survives : ¬ ∀ (config : Config) (agent : TreeAgent (Option Int)) (world : World) (shared : Shared)
    (capacity : Int) (budget : Option Int) (cache : Kv.TreeKVCache Nat) (state : AgentState),
    Shared.boot config world = .ok shared → Kv.TreeKVCache.new capacity budget = .ok cache →
    Reachable (AgentStep config agent) (fun _ (_ : AgentCall Nat (Option Int)) => True)
      ⟨⟨State.fresh shared, cache⟩, .empty⟩ state →
    ∀ branchId tokens, state.ledger.get? branchId = some tokens → state.managed.isLive branchId = true →
      state.managed.cached branchId = some tokens := by
  intro claimed
  have reached : Reachable (AgentStep serialConfig scorer) (fun _ (_ : AgentCall Nat (Option Int)) => True)
      ⟨managedStart, .empty⟩ ⟨halfForked, fanned.ledger⟩ :=
    .tail (.tail (.tail (.tail .refl trivial rooted_step) trivial fanned_step) trivial halfKilled_step) trivial halfForked_step
  -- the ledger says [1] for `c`, and the new `c` holds nothing
  have stale := claimed serialConfig scorer ⟨[], ∅, ∅⟩ blank 100 none (.fresh 100 none) _ boot_blank rfl reached "c" [1] rfl
    (by decide)
  revert stale
  decide

/-! The other two conditions: work that edits its list edits the ledger, and the
cache makes up an id of its own for a child with the empty id. -/

def oneChild (branchId : BranchId) : Managed := afterCall rooted.managed (.fork "r" 1 (some [branchId]) none)
  (started 0 ++ [.advance 1])

example : ∃ after, AgentStep serialConfig scorer rooted (.fanOut "r" { firstToken with
      continuations := [.tokens [1]], childIds := some ["c"], work := fun _ tokens => ⟨.ok 0, tokens ++ [9]⟩ }) after ∧
    after.managed.isLive "c" = true ∧ after.ledger.get? "c" = some [1, 9] ∧ after.managed.cached "c" = some [1] := by
  have forked : Serves serialConfig rooted.managed (Request.fork "r" 1 (some ["c"]) : Request Nat)
    (.ok [⟨"c", some "r", .live, 0, none⟩]) (oneChild "c") := alone_of_run (by decide) (by decide) rfl
  exact ⟨⟨(extendLive 0 "c" [1] (oneChild "c")).2, (Dict.empty.insert "r" []).insert "c" [1, 9]⟩,
    ⟨.ok (), .call forked (.call ⟨0, rfl⟩ (.call ⟨rfl, rfl⟩ .done))⟩, by decide, rfl, rfl⟩

example : ∃ after, AgentStep serialConfig scorer rooted (.fanOut "r" { firstToken with
      continuations := [.tokens [1]], childIds := some [""] }) after ∧
    after.managed.isLive "" = true ∧ after.ledger.get? "" = some [] ∧ after.managed.cached "" = none := by
  have forked : Serves serialConfig rooted.managed (Request.fork "r" 1 (some [""]) : Request Nat)
    (.ok [⟨"", some "r", .live, 0, none⟩]) (oneChild "") := alone_of_run (by decide) (by decide) rfl
  exact ⟨⟨(extendLive 0 "" [1] (oneChild "")).2, (Dict.empty.insert "r" []).insert "" []⟩,
    ⟨.ok (), .call forked (.call ⟨0, rfl⟩ .done)⟩, by decide, rfl, rfl⟩

end Agentfork.Harness

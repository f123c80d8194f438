import Agentfork.Library.SharedMarks
import Agentfork.Library.Transition
import Agentfork.Sglang.HttpBackend
import Agentfork.Sglang.ReferenceCache

/-! # A kill of a branch excludes its users

`generate` and `fork_branch` use a branch while their request is outstanding,
`kill` marks it and works alone on it while its own request is. The condition of
the backend keeps counter and marks in balance with the calls in progress,
whatever the server answers and whichever waits run into their deadline. -/

namespace Agentfork.Sglang.HttpBackend

open SharedMarks Transition

/-! ## Who uses, marks and kills a branch -/

/-- From the section that sends the request to the one that notes its end. -/
def Phase.outstanding : Phase → Bool
  | .requested | .answered _ | .replied _ => true
  | _ => false

/-- A `kill` in this phase has set its mark. -/
def Phase.marking : Phase → Bool
  | .awaitIdle | .requested | .answered _ | .replied _ | .releasing _ => true
  | _ => false

/-- A request for inference on the branch, or for a fork of it. -/
def HttpOp.onBranch (branchId : BranchId) : HttpOp → Bool
  | .forkBranch parentId _ => parentId = branchId
  | .generate id _ _ => id = branchId
  | _ => false

def HttpOp.kills (branchId : BranchId) : HttpOp → Bool
  | .kill treeId => treeId = branchId
  | _ => false

def HttpCall.uses (branchId : BranchId) (call : HttpCall) : Bool :=
  call.phase.outstanding && call.op.onBranch branchId

def HttpCall.marks (branchId : BranchId) (call : HttpCall) : Bool :=
  call.phase.marking && call.op.kills branchId

/-- The kill request for the branch is outstanding. -/
def HttpCall.killing (branchId : BranchId) (call : HttpCall) : Bool :=
  call.phase.outstanding && call.op.kills branchId

def roles : Roles BranchId HttpCall where
  uses := HttpCall.uses
  claims := HttpCall.marks
  excludes := HttpCall.killing
  marked_alone := by
    intro branchId call killing
    obtain ⟨outstanding, kills⟩ := (Bool.and_eq_true _ _).mp killing
    refine (Bool.and_eq_true _ _).mpr ⟨?_, kills⟩
    revert outstanding
    cases call.phase <;> intro outstanding <;> first | rfl | cases outstanding

def Client.isClosing (client : Client) (branchId : BranchId) : Bool := decide (branchId ∈ client.closing)

theorem activeOn_enter (client : Client) (branchId other : BranchId) :
    (client.enter branchId).activeOn other = client.activeOn other + indicator (decide (branchId = other)) := by
  unfold Client.activeOn Client.enter indicator
  rw [Dict.get?_insert]
  by_cases same : other = branchId
  · subst same; simp [Client.activeOn]
  · simp [same, Ne.symm same]

/-- Where the id is counted, `leave` takes one user off. -/
theorem leave_of_active {client : Client} {branchId : BranchId} (positive : 0 < client.activeOn branchId) :
    ∃ left, client.leave branchId = some left ∧ left.closing = client.closing ∧
      left.namespaces = client.namespaces ∧ left.parents = client.parents ∧
      ∀ other, left.activeOn other = client.activeOn other - indicator (decide (branchId = other)) := by
  unfold Client.activeOn at positive
  cases counted : client.active.get? branchId with
  | none => rw [counted] at positive; exact absurd positive (lt_irrefl _)
  | some count =>
    refine ⟨{ client with active :=
      if count - 1 ≠ 0 then client.active.insert branchId (count - 1) else client.active.erase branchId },
      by rw [Client.leave, counted]; rfl, rfl, rfl, rfl, fun other => ?_⟩
    unfold Client.activeOn indicator
    by_cases same : branchId = other
    · subst same
      by_cases last : count - 1 = 0
      · have one : count = 1 := by omega
        subst one
        simp [counted]
      · simp [last, counted]
    · by_cases last : count - 1 = 0
      · simp [last, same, Ne.symm same]
      · simp [last, same, Ne.symm same]

/-! ## What a section does to counter and marks -/

/-- Counter and marks follow the call. -/
structure Follows (client : Client) (call next : HttpCall) (after : Client) : Prop where
  active : ∀ branchId, after.activeOn branchId =
    client.activeOn branchId - indicator (call.uses branchId) + indicator (next.uses branchId)
  marks : ∀ branchId, indicator (after.isClosing branchId) =
    indicator (client.isClosing branchId) - indicator (call.marks branchId) + indicator (next.marks branchId)
  admitted : ∀ branchId, next.uses branchId = true →
    call.uses branchId = true ∨ client.isClosing branchId = false
  waited : ∀ branchId, next.killing branchId = true →
    call.killing branchId = true ∨ after.activeOn branchId = 0

variable {client after : Client} {call next : HttpCall} {branchId : BranchId}

/-- A section that only hands the call on. -/
theorem Follows.rest (sameActive : after.active = client.active) (sameClosing : after.closing = client.closing)
    (uses : ∀ branchId, next.uses branchId = call.uses branchId)
    (marks : ∀ branchId, next.marks branchId = call.marks branchId)
    (killing : ∀ branchId, next.killing branchId = true → call.killing branchId = true) :
    Follows client call next after where
  active := by
    intro branchId
    rw [uses, Client.activeOn, Client.activeOn, sameActive]
    omega
  marks := by
    intro branchId
    rw [marks, Client.isClosing, Client.isClosing, sameClosing]
    omega
  admitted := fun branchId used => Or.inl (uses branchId ▸ used)
  waited := fun branchId kills => Or.inl (killing branchId kills)

/-- A call that is neither on its way nor under a mark. -/
def Phase.idle (phase : Phase) : Prop := phase.outstanding = false ∧ phase.marking = false

theorem uses_of_idle (idle : call.phase.idle) : call.uses branchId = false := by
  rw [HttpCall.uses, idle.1, Bool.false_and]

theorem marks_of_idle (idle : call.phase.idle) : call.marks branchId = false := by
  rw [HttpCall.marks, idle.2, Bool.false_and]

theorem killing_of_idle (idle : call.phase.idle) : call.killing branchId = false := by
  rw [HttpCall.killing, idle.1, Bool.false_and]

theorem Follows.idle (before : call.phase.idle) (then' : next.phase.idle) :
    Follows client call next client :=
  .rest rfl rfl (fun _ => by rw [uses_of_idle before, uses_of_idle then'])
    (fun _ => by rw [marks_of_idle before, marks_of_idle then'])
    (fun _ kills => by rw [killing_of_idle then'] at kills; cases kills)

theorem follows_enter (idle : call.phase.idle) (requested : next.phase = .requested) (sameOp : next.op = call.op)
    (onBranch : ∀ other, call.op.onBranch other = decide (branchId = other))
    (kills : ∀ other, call.op.kills other = false) (unmarked : branchId ∉ client.closing) :
    Follows client call next (client.enter branchId) := by
  have usesNext : ∀ other, next.uses other = decide (branchId = other) := by
    intro other
    rw [HttpCall.uses, requested, sameOp, onBranch]
    rfl
  have notMarks : ∀ other, next.marks other = false := by
    intro other
    rw [HttpCall.marks, sameOp, kills, Bool.and_false]
  refine ⟨fun other => ?_, fun other => ?_, fun other used => Or.inr ?_, fun other killing => ?_⟩
  · rw [activeOn_enter, uses_of_idle idle, usesNext]
    change _ = client.activeOn other - 0 + _
    omega
  · rw [marks_of_idle idle, notMarks]
    change indicator (client.isClosing other) = _
    omega
  · rw [usesNext] at used
    rw [← of_decide_eq_true used]
    exact decide_eq_false unmarked
  · rw [HttpCall.killing, sameOp, kills, Bool.and_false] at killing
    cases killing

theorem follows_leave {left : Client} (outstanding : call.phase.outstanding = true) (idle : next.phase.idle)
    (onBranch : ∀ other, call.op.onBranch other = decide (branchId = other))
    (kills : ∀ other, call.op.kills other = false) (sameClosing : left.closing = client.closing)
    (activeOn : ∀ other, left.activeOn other = client.activeOn other - indicator (decide (branchId = other))) :
    Follows client call next left := by
  refine ⟨fun other => ?_, fun other => ?_, fun other used => ?_, fun other killing => ?_⟩
  · rw [activeOn, uses_of_idle idle, HttpCall.uses, outstanding, onBranch, Bool.true_and]
    exact (Int.add_zero _).symm
  · rw [marks_of_idle idle, HttpCall.marks, kills, Bool.and_false, Client.isClosing, Client.isClosing,
      sameClosing]
    omega
  · rw [uses_of_idle idle] at used; cases used
  · rw [killing_of_idle idle] at killing; cases killing

/-! ### Sections of `kill` -/

variable {treeId : BranchId}

theorem isClosing_close (unmarked : treeId ∉ client.closing) (other : BranchId) :
    indicator ((client.close treeId).isClosing other) =
      indicator (client.isClosing other) + indicator (decide (treeId = other)) := by
  unfold Client.isClosing Client.close indicator
  by_cases same : other = treeId
  · subst same; simp [unmarked]
  · simp [same, Ne.symm same]

theorem isClosing_reopen (marked : treeId ∈ client.closing) (other : BranchId) :
    indicator ((client.reopen treeId).isClosing other) =
      indicator (client.isClosing other) - indicator (decide (treeId = other)) := by
  unfold Client.isClosing Client.reopen indicator
  by_cases same : other = treeId
  · subst same; simp [marked]
  · simp [same, Ne.symm same]

theorem uses_of_kill (kill : call.op = .kill treeId) : call.uses branchId = false := by
  rw [HttpCall.uses, kill]
  exact Bool.and_false _

theorem marks_of_kill (kill : call.op = .kill treeId) (marking : call.phase.marking = true) :
    call.marks branchId = decide (treeId = branchId) := by
  rw [HttpCall.marks, kill, marking, Bool.true_and]
  rfl

theorem marks_goTo {phase : Phase} (kill : call.op = .kill treeId) (marking : phase.marking = true) :
    (call.goTo phase).marks branchId = decide (treeId = branchId) :=
  marks_of_kill kill marking

theorem marks_finished (call : HttpCall) (outcome : Except HttpError Answer) :
    (call.goTo (.finished outcome)).marks branchId = false := rfl

theorem follows_kill (kill : call.op = .kill treeId) (sameOp : next.op = call.op)
    (sameActive : after.active = client.active)
    (marks : ∀ other, indicator (after.isClosing other) =
      indicator (client.isClosing other) - indicator (call.marks other) + indicator (next.marks other))
    (waited : next.phase.outstanding = true → call.phase.outstanding = true ∨ client.activeOn treeId = 0) :
    Follows client call next after where
  active := by
    intro other
    rw [uses_of_kill kill, uses_of_kill (sameOp.trans kill), Client.activeOn, Client.activeOn, sameActive]
    omega
  marks := marks
  admitted := by
    intro other used
    rw [uses_of_kill (sameOp.trans kill)] at used
    cases used
  waited := by
    intro other killing
    obtain ⟨outstanding, kills⟩ := (Bool.and_eq_true _ _).mp killing
    obtain before | noUser := waited outstanding
    · exact Or.inl ((Bool.and_eq_true _ _).mpr ⟨before, sameOp ▸ kills⟩)
    · rw [sameOp, kill] at kills
      rw [← of_decide_eq_true kills, Client.activeOn, sameActive]
      exact Or.inr noUser

/-- The wait for the users, entered with the mark set. -/
theorem follows_killIdle {marked : Client} (timedOut : Bool) (kill : call.op = .kill treeId)
    (sameActive : marked.active = client.active) (isMarked : treeId ∈ marked.closing)
    (marks : ∀ other, indicator (marked.isClosing other) =
      indicator (client.isClosing other) - indicator (call.marks other) + indicator (decide (treeId = other))) :
    Follows client call (call.killIdle timedOut treeId marked).2 (call.killIdle timedOut treeId marked).1 := by
  have same : marked.activeOn treeId = client.activeOn treeId := by
    rw [Client.activeOn, Client.activeOn, sameActive]
  unfold HttpCall.killIdle
  by_cases used : marked.activeOn treeId ≠ 0
  · rw [if_pos used]
    cases timedOut with
    | true =>
      refine follows_kill kill rfl sameActive (fun other => ?_) (fun outstanding => nomatch outstanding)
      rw [if_pos rfl, isClosing_reopen isMarked, marks, HttpCall.raising, marks_finished]
      change _ = _ + 0
      omega
    | false =>
      refine follows_kill kill rfl sameActive (fun other => ?_) (fun outstanding => nomatch outstanding)
      rw [if_neg Bool.false_ne_true, marks, marks_goTo kill rfl]
  · rw [if_neg used]
    refine follows_kill kill rfl sameActive (fun other => ?_) (fun _ => Or.inr ?_)
    · rw [marks, marks_goTo kill rfl]
    · rw [← same]; exact not_not.1 used

theorem follows_killTurn (timedOut : Bool) (kill : call.op = .kill treeId) (idle : call.phase.idle) :
    Follows client call (call.killTurn timedOut treeId client).2 (call.killTurn timedOut treeId client).1 := by
  unfold HttpCall.killTurn
  by_cases marked : treeId ∈ client.closing
  · rw [if_pos marked]
    cases timedOut with
    | true => exact .idle idle ⟨rfl, rfl⟩
    | false => exact .idle idle ⟨rfl, rfl⟩
  · rw [if_neg marked]
    refine follows_killIdle timedOut kill rfl (Finset.mem_insert_self _ _) fun other => ?_
    rw [isClosing_close marked, marks_of_idle idle]
    change _ = _ - 0 + _
    omega

/-! ### One lemma for each section -/

theorem follows_enterFork {parentId : BranchId} {childId : Option BranchId} (fork : call.op = .forkBranch parentId childId)
    (idle : call.phase.idle) :
    Follows client call (call.enterFork parentId client).2 (call.enterFork parentId client).1 := by
  unfold HttpCall.enterFork
  by_cases marked : parentId ∈ client.closing
  · rw [if_pos marked]; exact .idle idle ⟨rfl, rfl⟩
  · rw [if_neg marked]
    cases client.namespaces.get? parentId with
    | none => exact .idle idle ⟨rfl, rfl⟩
    | some ns =>
      exact follows_enter idle rfl rfl (fun _ => by rw [fork]; rfl) (fun _ => by rw [fork]; rfl) marked

theorem follows_enterGenerate {branchEnd : Bool} {reserveTokens : Option Int}
    (generate : call.op = .generate branchId branchEnd reserveTokens) (idle : call.phase.idle) :
    Follows client call (call.enterGenerate branchId client).2 (call.enterGenerate branchId client).1 := by
  unfold HttpCall.enterGenerate
  by_cases marked : branchId ∈ client.closing
  · rw [if_pos marked]; exact .idle idle ⟨rfl, rfl⟩
  · rw [if_neg marked]
    cases client.namespaces.get? branchId with
    | none => exact .idle idle ⟨rfl, rfl⟩
    | some ns =>
      cases client.parents.get? branchId with
      | none => exact .idle idle ⟨rfl, rfl⟩
      | some parentId =>
        exact follows_enter idle rfl rfl (fun _ => by rw [generate]; rfl) (fun _ => by rw [generate]; rfl) marked

theorem follows_begin (timedOut : Bool) (idle : call.phase.idle) :
    Follows client call (call.begin timedOut client).2 (call.begin timedOut client).1 := by
  unfold HttpCall.begin
  cases op : call.op with
  | createTree treeId =>
    refine .rest rfl rfl (fun other => ?_) (fun other => ?_) (fun other killing => ?_)
    · rw [uses_of_idle idle, HttpCall.uses, HttpCall.goTo, op]; rfl
    · rw [marks_of_idle idle, HttpCall.marks, HttpCall.goTo, op]; rfl
    · rw [HttpCall.killing, HttpCall.goTo, op] at killing; cases killing
  | forkBranch parentId childId =>
    cases childId with
    | none => exact .idle idle ⟨rfl, rfl⟩
    | some childId => exact follows_enterFork op idle
  | kill treeId => exact follows_killTurn timedOut op idle
  | generate branchId branchEnd reserveTokens =>
    change Follows client call (if _ then _ else _ : Client × HttpCall).2 (if _ then _ else _ : Client × HttpCall).1
    split
    · exact .idle idle ⟨rfl, rfl⟩
    · exact follows_enterGenerate op idle

theorem follows_note {reply : Except HttpError Nat} (replied : call.phase = .replied reply)
    (counted : ∀ branchId, call.uses branchId = true → 0 < client.activeOn branchId) :
    Follows client call (call.note reply client).2 (call.note reply client).1 := by
  have outstanding : call.phase.outstanding = true := by rw [replied]; rfl
  have marking : call.phase.marking = true := by rw [replied]; rfl
  unfold HttpCall.note
  cases op : call.op with
  | createTree treeId =>
    have unused : ∀ other, call.uses other = false := fun other => by
      rw [HttpCall.uses, op]; exact Bool.and_false _
    have unmarked : ∀ other, call.marks other = false := fun other => by
      rw [HttpCall.marks, op]; exact Bool.and_false _
    cases reply with
    | ok payload =>
      exact .rest rfl rfl (fun other => (unused other).symm) (fun other => (unmarked other).symm)
        fun other killing => nomatch killing
    | error raised =>
      exact .rest rfl rfl (fun other => (unused other).symm) (fun other => (unmarked other).symm)
        fun other killing => nomatch killing
  | forkBranch parentId childId =>
    have positive : 0 < client.activeOn parentId := counted parentId (by
      rw [HttpCall.uses, outstanding, op]; exact decide_eq_true rfl)
    obtain ⟨left, isLeft, sameClosing, _, _, activeOn⟩ := leave_of_active positive
    cases reply with
    | ok payload =>
      simp only [isLeft]
      exact follows_leave outstanding ⟨rfl, rfl⟩ (fun _ => by rw [op]; rfl) (fun _ => by rw [op]; rfl)
        sameClosing activeOn
    | error raised =>
      simp only [isLeft]
      exact follows_leave outstanding ⟨rfl, rfl⟩ (fun _ => by rw [op]; rfl) (fun _ => by rw [op]; rfl)
        sameClosing activeOn
  | kill treeId =>
    have same : ∀ outcome other, (call.goTo (.releasing outcome)).marks other = call.marks other := by
      intro outcome other
      rw [marks_goTo op rfl, marks_of_kill op marking]
    cases reply with
    | ok freed =>
      refine follows_kill op rfl rfl (fun other => ?_) fun later => nomatch later
      rw [same]
      change indicator (client.isClosing other) = _
      omega
    | error raised =>
      refine follows_kill op rfl rfl (fun other => ?_) fun later => nomatch later
      rw [same]
      change indicator (client.isClosing other) = _
      omega
  | generate branchId branchEnd reserveTokens =>
    have positive : 0 < client.activeOn branchId := counted branchId (by
      rw [HttpCall.uses, outstanding, op]; exact decide_eq_true rfl)
    obtain ⟨left, isLeft, sameClosing, _, _, activeOn⟩ := leave_of_active positive
    simp only [isLeft]
    exact follows_leave outstanding ⟨rfl, rfl⟩ (fun _ => by rw [op]; rfl) (fun _ => by rw [op]; rfl)
      sameClosing activeOn

theorem follows_release {outcome : Except HttpError Answer} (kill : call.op = .kill treeId)
    (releasing : call.phase = .releasing outcome) (marked : treeId ∈ client.closing) :
    Follows client call (call.goTo (.finished outcome)) (client.reopen treeId) := by
  refine follows_kill kill rfl rfl (fun other => ?_) fun later => nomatch later
  rw [isClosing_reopen marked, marks_of_kill kill (by rw [releasing]; rfl), marks_finished]
  change _ = _ + 0
  omega

theorem section_follows {timedOut : Bool} (taken : call.runSection timedOut client = some (after, next))
    (counted : ∀ branchId, call.uses branchId = true → 0 < client.activeOn branchId)
    (marked : ∀ branchId, call.marks branchId = true → client.isClosing branchId = true) :
    Follows client call next after := by
  have isMarked : ∀ {treeId}, call.op = .kill treeId → call.phase.marking = true → treeId ∈ client.closing :=
    fun kill marking => of_decide_eq_true (marked _ ((marks_of_kill kill marking).trans (decide_eq_true rfl)))
  unfold HttpCall.runSection at taken
  split at taken
  · next phase =>
    have begun : Follows client call (call.begin timedOut client).2 (call.begin timedOut client).1 :=
      follows_begin timedOut (by rw [phase]; exact ⟨rfl, rfl⟩)
    rwa [Option.some.inj taken] at begun
  · next treeId phase op =>
    have turned : Follows client call (call.killTurn timedOut treeId client).2
        (call.killTurn timedOut treeId client).1 :=
      follows_killTurn timedOut op (by rw [phase]; exact ⟨rfl, rfl⟩)
    rwa [Option.some.inj taken] at turned
  · next treeId phase op =>
    have waited : Follows client call (call.killIdle timedOut treeId client).2
        (call.killIdle timedOut treeId client).1 :=
      follows_killIdle timedOut op rfl (isMarked op (by rw [phase]; rfl)) fun other => by
        rw [marks_of_kill op (by rw [phase]; rfl)]; omega
    rwa [Option.some.inj taken] at waited
  · next phase =>
    have noted := follows_note phase counted
    rwa [Option.some.inj taken] at noted
  · next phase op =>
    obtain ⟨rfl, rfl⟩ := Prod.mk.inj (Option.some.inj taken)
    refine .rest rfl rfl (fun other => ?_) (fun other => ?_) fun other killing => nomatch killing
    · rw [HttpCall.uses, HttpCall.uses, phase]; rfl
    · rw [HttpCall.marks, HttpCall.marks, phase]; rfl
  · next phase op =>
    obtain ⟨rfl, rfl⟩ := Prod.mk.inj (Option.some.inj taken)
    exact follows_release op phase (isMarked op (by rw [phase]; rfl))
  · cases taken

/-! ## The balance of a backend -/

variable {τ : Type} [DecidableEq τ] {radix : RadixCache τ} {cache : TreeRadixCache τ}
  {before system later : System τ} {action : HttpAction τ}

def System.Balance (system : System τ) : Prop :=
  Balanced roles system.client.activeOn system.client.isClosing system.calls

omit [DecidableEq τ] in
/-- A call that goes on outside the condition, with its request still outstanding. -/
theorem System.Balance.pass {c : Nat} (balance : before.Balance) (found : before.calls[c]? = some call)
    (sameOp : next.op = call.op) (was : call.phase.outstanding = true) (isOut : next.phase.outstanding = true) :
    Balanced roles before.client.activeOn before.client.isClosing (before.calls.set c next) := by
  have marking : ∀ {phase : Phase}, phase.outstanding = true → phase.marking = true := by
    intro phase outstanding
    cases phase <;> first | rfl | cases outstanding
  have uses : ∀ other, next.uses other = call.uses other := fun other => by
    rw [HttpCall.uses, HttpCall.uses, was, isOut, sameOp]
  have marks : ∀ other, next.marks other = call.marks other := fun other => by
    rw [HttpCall.marks, HttpCall.marks, marking was, marking isOut, sameOp]
  have killing : ∀ other, next.killing other = call.killing other := fun other => by
    rw [HttpCall.killing, HttpCall.killing, was, isOut, sameOp]
  have follows : Follows before.client call next before.client :=
    .rest rfl rfl uses marks fun other kills => killing other ▸ kills
  exact Balanced.set balance found follows.active follows.marks follows.admitted follows.waited

theorem System.Balance.step (balance : before.Balance) (taken : System.Step radix before action system) :
    system.Balance := by
  unfold System.Step System.step at taken
  cases action with
  | call op =>
    cases taken
    exact Balanced.join balance (fun _ => rfl) (fun _ => rfl)
  | run c timedOut =>
    obtain ⟨call, found, taken⟩ := Option.bind_eq_some_iff.1 taken
    obtain ⟨⟨client, next⟩, executed, rfl⟩ := Option.map_eq_some_iff.1 taken
    have member : call ∈ before.calls := List.mem_of_getElem? found
    have follows := section_follows executed (fun _ uses => Balanced.active_pos balance member uses)
      (fun _ marks => Balanced.marked_of_claims balance member marks)
    exact Balanced.set balance found follows.active follows.marks follows.admitted follows.waited
  | serve c =>
    obtain ⟨call, found, taken⟩ := Option.bind_eq_some_iff.1 taken
    split at taken
    · next requested =>
      cases taken
      exact balance.pass found rfl (by rw [requested]; rfl) rfl
    · cases taken
  | receive c =>
    obtain ⟨call, found, taken⟩ := Option.bind_eq_some_iff.1 taken
    split at taken
    · next reply answered =>
      cases taken
      exact balance.pass found rfl (by rw [answered]; rfl) rfl
    · cases taken
  | lose c again =>
    obtain ⟨call, found, taken⟩ := Option.bind_eq_some_iff.1 taken
    split at taken
    · next requested =>
      split at taken <;> cases taken <;> exact balance.pass found rfl (by rw [requested]; rfl) rfl
    · next reply answered =>
      split at taken <;> cases taken <;> exact balance.pass found rfl (by rw [answered]; rfl) rfl
    · cases taken
  | internal call =>
    cases taken
    exact balance

theorem System.balance_of_reachable (reached : Reachable (System.Step radix) always (.start cache) system) :
    system.Balance :=
  reached.invariant (Balanced.empty roles) fun _ _ _ balance _ taken => balance.step taken

/-! ## What a section does to the tracked branches -/

/-- A section leaves the tracked branches alone or notes what its call has done. -/
inductive Tracks (client : Client) (call next : HttpCall) (after : Client) : Prop where
  | kept (quiet : call.notes = false) (sameNamespaces : after.namespaces = client.namespaces)
      (sameParents : after.parents = client.parents)
  | created (treeId : BranchId) (payload : Nat) (op : call.op = .createTree treeId)
      (phase : call.phase = .replied (.ok payload)) (done : next.phase = .finished (.ok .payload))
      (namespaces : after.namespaces = client.namespaces.insert treeId treeId)
      (parents : after.parents = client.parents.insert treeId none)
  | forked (parentId childId : BranchId) (op : call.op = .forkBranch parentId (some childId))
      (phase : call.phase = .tracking) (done : next.phase = .finished (.ok (.branch childId)))
      (namespaces : after.namespaces = client.namespaces.insert childId call.ns)
      (parents : after.parents = client.parents.insert childId call.parentId)
  | killed (treeId : BranchId) (freed : Nat) (op : call.op = .kill treeId)
      (phase : call.phase = .replied (.ok freed)) (done : next.phase = .releasing (.ok (.freed freed)))
      (namespaces : after.namespaces = client.namespaces.erase treeId)
      (parents : after.parents = client.parents.erase treeId)

theorem killIdle_keeps (timedOut : Bool) (treeId : BranchId) (client : Client) (call : HttpCall) :
    (call.killIdle timedOut treeId client).1.namespaces = client.namespaces ∧
      (call.killIdle timedOut treeId client).1.parents = client.parents := by
  unfold HttpCall.killIdle
  split
  · cases timedOut <;> exact ⟨rfl, rfl⟩
  · exact ⟨rfl, rfl⟩

theorem killTurn_keeps (timedOut : Bool) (treeId : BranchId) (client : Client) (call : HttpCall) :
    (call.killTurn timedOut treeId client).1.namespaces = client.namespaces ∧
      (call.killTurn timedOut treeId client).1.parents = client.parents := by
  unfold HttpCall.killTurn
  split
  · cases timedOut <;> exact ⟨rfl, rfl⟩
  · exact killIdle_keeps timedOut treeId (client.close treeId) call

theorem begin_keeps (timedOut : Bool) (client : Client) (call : HttpCall) :
    (call.begin timedOut client).1.namespaces = client.namespaces ∧
      (call.begin timedOut client).1.parents = client.parents := by
  unfold HttpCall.begin
  split
  · exact ⟨rfl, rfl⟩
  · exact ⟨rfl, rfl⟩
  · unfold HttpCall.enterFork
    split
    · exact ⟨rfl, rfl⟩
    · split <;> exact ⟨rfl, rfl⟩
  · exact killTurn_keeps timedOut _ client call
  · split
    · exact ⟨rfl, rfl⟩
    · unfold HttpCall.enterGenerate
      split
      · exact ⟨rfl, rfl⟩
      · split <;> exact ⟨rfl, rfl⟩

theorem leave_keeps {left : Client} (isLeft : client.leave branchId = some left) :
    left.namespaces = client.namespaces ∧ left.parents = client.parents := by
  obtain ⟨count, _, rfl⟩ := Option.map_eq_some_iff.1 isLeft
  exact ⟨rfl, rfl⟩

theorem note_tracks {reply : Except HttpError Nat} (replied : call.phase = .replied reply) :
    Tracks client call (call.note reply client).2 (call.note reply client).1 := by
  unfold HttpCall.note
  split
  · next treeId payload op => exact .created treeId payload op replied rfl rfl rfl
  · next treeId error op => exact .kept (by rw [HttpCall.notes, replied, op]) rfl rfl
  · next reply _ _ parentId childId op =>
    have quiet : call.notes = false := by
      rw [HttpCall.notes, replied, op]
      cases reply <;> rfl
    split
    · exact .kept quiet rfl rfl
    · next left isLeft => exact .kept quiet (leave_keeps isLeft).1 (leave_keeps isLeft).2
    · next left _ isLeft => exact .kept quiet (leave_keeps isLeft).1 (leave_keeps isLeft).2
  · next treeId freed op => exact .killed treeId freed op replied rfl rfl rfl
  · next treeId error op => exact .kept (by rw [HttpCall.notes, replied, op]) rfl rfl
  · next reply _ _ id branchEnd reserveTokens op =>
    have quiet : call.notes = false := by
      rw [HttpCall.notes, replied, op]
      cases reply <;> rfl
    split
    · exact .kept quiet rfl rfl
    · next left isLeft => exact .kept quiet (leave_keeps isLeft).1 (leave_keeps isLeft).2

theorem section_tracks {timedOut : Bool} (taken : call.runSection timedOut client = some (after, next)) :
    Tracks client call next after := by
  unfold HttpCall.runSection at taken
  split at taken
  · next phase =>
    have kept := begin_keeps timedOut client call
    rw [Option.some.inj taken] at kept
    exact .kept (by rw [HttpCall.notes, phase]) kept.1 kept.2
  · next treeId phase op =>
    have kept := killTurn_keeps timedOut treeId client call
    rw [Option.some.inj taken] at kept
    exact .kept (by rw [HttpCall.notes, phase]) kept.1 kept.2
  · next treeId phase op =>
    have kept := killIdle_keeps timedOut treeId client call
    rw [Option.some.inj taken] at kept
    exact .kept (by rw [HttpCall.notes, phase]) kept.1 kept.2
  · next reply phase =>
    have noted : Tracks client call (call.note reply client).2 (call.note reply client).1 := note_tracks phase
    rwa [Option.some.inj taken] at noted
  · next parentId childId phase op =>
    obtain ⟨rfl, rfl⟩ := Prod.mk.inj (Option.some.inj taken)
    exact .forked parentId childId op phase rfl rfl rfl
  · next phase op =>
    obtain ⟨rfl, rfl⟩ := Prod.mk.inj (Option.some.inj taken)
    exact .kept (by rw [HttpCall.notes, phase]) rfl rfl
  · cases taken

theorem killIdle_op (timedOut : Bool) (treeId : BranchId) (client : Client) (call : HttpCall) :
    (call.killIdle timedOut treeId client).2.op = call.op := by
  unfold HttpCall.killIdle
  split
  · cases timedOut <;> rfl
  · rfl

theorem killTurn_op (timedOut : Bool) (treeId : BranchId) (client : Client) (call : HttpCall) :
    (call.killTurn timedOut treeId client).2.op = call.op := by
  unfold HttpCall.killTurn
  split
  · cases timedOut <;> rfl
  · exact killIdle_op timedOut treeId _ call

theorem begin_op (timedOut : Bool) (client : Client) (call : HttpCall) :
    (call.begin timedOut client).2.op = call.op := by
  unfold HttpCall.begin
  split
  · rfl
  · rfl
  · unfold HttpCall.enterFork
    split
    · rfl
    · split <;> rfl
  · exact killTurn_op timedOut _ client call
  · split
    · rfl
    · unfold HttpCall.enterGenerate
      split
      · rfl
      · split <;> rfl

theorem note_op (reply : Except HttpError Nat) (client : Client) (call : HttpCall) :
    (call.note reply client).2.op = call.op := by
  unfold HttpCall.note
  split <;> first | rfl | (split <;> rfl)

theorem section_op {timedOut : Bool} (taken : call.runSection timedOut client = some (after, next)) :
    next.op = call.op := by
  unfold HttpCall.runSection at taken
  split at taken
  · rw [← begin_op timedOut client call, Option.some.inj taken]
  · rw [← killTurn_op timedOut _ client call, Option.some.inj taken]
  · rw [← killIdle_op timedOut _ client call, Option.some.inj taken]
  · rw [← note_op _ client call, Option.some.inj taken]
  · cases taken; rfl
  · cases taken; rfl
  · cases taken

/-! ## A kill that fails -/

/-- The kill has taken the branch off the tracked ones. -/
def HttpCall.HasKilled (branchId : BranchId) (call : HttpCall) : Prop :=
  call.op = .kill branchId ∧
    ∃ answer, call.phase = .releasing (.ok answer) ∨ call.phase = .finished (.ok answer)

theorem section_hasKilled {timedOut : Bool} (taken : call.runSection timedOut client = some (after, next))
    (killed : call.HasKilled branchId) : next.HasKilled branchId := by
  obtain ⟨op, answer, releasing | finished⟩ := killed
  · rw [HttpCall.runSection, releasing, op] at taken
    cases taken
    exact ⟨op, answer, Or.inr rfl⟩
  · rw [HttpCall.runSection, finished] at taken
    cases taken

/-- A finished call runs no section. -/
theorem section_of_finished {timedOut : Bool} {outcome : Except HttpError Answer}
    (finished : call.phase = .finished outcome) : call.runSection timedOut client = none := by
  rw [HttpCall.runSection, finished]

/-- What a step does to one call: nothing, a section, or a move of its request. -/
inductive Advances (client : Client) (call next : HttpCall) : Prop where
  | same (unchanged : next = call)
  | ran (timedOut : Bool) (after : Client) (taken : call.runSection timedOut client = some (after, next))
  | passed (outstanding : call.phase.outstanding = true) (isOut : next.phase.outstanding = true)
      (sameOp : next.op = call.op)

theorem advances_set {calls : List HttpCall} {c other : Nat} {held : HttpCall} (isMoved : calls[c]? = some call)
    (moves : Advances client call next) (found : calls[other]? = some held) :
    ∃ held', (calls.set c next)[other]? = some held' ∧ Advances client held held' := by
  by_cases same : c = other
  · subst same
    obtain rfl : call = held := Option.some.inj (isMoved.symm.trans found)
    exact ⟨next, List.getElem?_set_self (List.getElem?_eq_some_iff.1 found).1, moves⟩
  · exact ⟨held, by rw [List.getElem?_set_ne same, found], .same rfl⟩

theorem System.advances (taken : System.Step radix before action system) {c : Nat}
    (found : before.calls[c]? = some call) :
    ∃ next, system.calls[c]? = some next ∧ Advances before.client call next := by
  unfold System.Step System.step at taken
  cases action with
  | call op =>
    cases taken
    exact ⟨call, by rw [List.getElem?_append_left (List.getElem?_eq_some_iff.1 found).1, found], .same rfl⟩
  | run c timedOut =>
    obtain ⟨moved, isMoved, taken⟩ := Option.bind_eq_some_iff.1 taken
    obtain ⟨⟨client, next⟩, executed, rfl⟩ := Option.map_eq_some_iff.1 taken
    exact advances_set isMoved (.ran timedOut client executed) found
  | serve c =>
    obtain ⟨moved, isMoved, taken⟩ := Option.bind_eq_some_iff.1 taken
    split at taken
    · next requested =>
      cases taken
      exact advances_set isMoved (.passed (by rw [requested]; rfl) rfl rfl) found
    · cases taken
  | receive c =>
    obtain ⟨moved, isMoved, taken⟩ := Option.bind_eq_some_iff.1 taken
    split at taken
    · next reply answered =>
      cases taken
      exact advances_set isMoved (.passed (by rw [answered]; rfl) rfl rfl) found
    · cases taken
  | lose c again =>
    obtain ⟨moved, isMoved, taken⟩ := Option.bind_eq_some_iff.1 taken
    split at taken
    · next requested =>
      split at taken <;> cases taken <;>
        exact advances_set isMoved (.passed (by rw [requested]; rfl) rfl rfl) found
    · next reply answered =>
      split at taken <;> cases taken <;>
        exact advances_set isMoved (.passed (by rw [answered]; rfl) rfl rfl) found
    · cases taken
  | internal call =>
    cases taken
    exact ⟨_, found, .same rfl⟩

/-- Only a section changes the client. -/
theorem System.tracks (taken : System.Step radix before action system) :
    system.client = before.client ∨ ∃ (c : Nat) (call next : HttpCall), before.calls[c]? = some call ∧
      system.calls[c]? = some next ∧ next.op = call.op ∧ Tracks before.client call next system.client := by
  unfold System.Step System.step at taken
  cases action with
  | run c timedOut =>
    obtain ⟨call, found, taken⟩ := Option.bind_eq_some_iff.1 taken
    obtain ⟨⟨client, next⟩, executed, rfl⟩ := Option.map_eq_some_iff.1 taken
    exact Or.inr ⟨c, call, next, found, List.getElem?_set_self (List.getElem?_eq_some_iff.1 found).1,
      section_op executed, section_tracks executed⟩
  | call op => cases taken; exact Or.inl rfl
  | internal call => cases taken; exact Or.inl rfl
  | serve c =>
    obtain ⟨call, found, taken⟩ := Option.bind_eq_some_iff.1 taken
    split at taken <;> cases taken
    exact Or.inl rfl
  | receive c =>
    obtain ⟨call, found, taken⟩ := Option.bind_eq_some_iff.1 taken
    split at taken <;> cases taken
    exact Or.inl rfl
  | lose c again =>
    obtain ⟨call, found, taken⟩ := Option.bind_eq_some_iff.1 taken
    split at taken
    · split at taken <;> cases taken <;> exact Or.inl rfl
    · split at taken <;> cases taken <;> exact Or.inl rfl
    · cases taken

def Client.Tracked (client : Client) (branchId : BranchId) : Prop :=
  branchId ∈ client.namespaces ∧ branchId ∈ client.parents

/-- The call was over when the run began. -/
def System.HasFinished (system : System τ) (c : Nat) : Prop :=
  ∃ (call : HttpCall) (outcome : Except HttpError Answer),
    system.calls[c]? = some call ∧ call.phase = .finished outcome

/-- What a run from `origin` keeps of a branch that was tracked there: it is still
tracked, or a kill that was not over has taken it off. -/
structure StillTracked (origin : System τ) (branchId : BranchId) (system : System τ) : Prop where
  finished : ∀ (c : Nat) (call : HttpCall) (outcome : Except HttpError Answer),
    origin.calls[c]? = some call → call.phase = .finished outcome → system.calls[c]? = some call
  tracked : system.client.Tracked branchId ∨
    ∃ (c : Nat) (call : HttpCall), system.calls[c]? = some call ∧ call.HasKilled branchId ∧ ¬ origin.HasFinished c

theorem Tracks.keeps (tracks : Tracks client call next after) (sameOp : next.op = call.op)
    (tracked : client.Tracked branchId) :
    after.Tracked branchId ∨ next.HasKilled branchId ∧ ∃ freed, call.phase = .replied (.ok freed) := by
  obtain ⟨inNamespaces, inParents⟩ := tracked
  cases tracks with
  | kept _ sameNamespaces sameParents =>
    exact Or.inl ⟨sameNamespaces ▸ inNamespaces, sameParents ▸ inParents⟩
  | created treeId payload _ _ _ namespaces parents =>
    refine Or.inl ⟨?_, ?_⟩
    · rw [namespaces]; exact Dict.mem_insert.2 (Or.inr inNamespaces)
    · rw [parents]; exact Dict.mem_insert.2 (Or.inr inParents)
  | forked parentId childId _ _ _ namespaces parents =>
    refine Or.inl ⟨?_, ?_⟩
    · rw [namespaces]; exact Dict.mem_insert.2 (Or.inr inNamespaces)
    · rw [parents]; exact Dict.mem_insert.2 (Or.inr inParents)
  | killed treeId freed op phase done namespaces parents =>
    by_cases same : branchId = treeId
    · subst same
      exact Or.inr ⟨⟨sameOp.trans op, .freed freed, Or.inl done⟩, freed, phase⟩
    · refine Or.inl ⟨?_, ?_⟩
      · rw [namespaces]; exact Dict.mem_erase.2 ⟨same, inNamespaces⟩
      · rw [parents]; exact Dict.mem_erase.2 ⟨same, inParents⟩

theorem Advances.finished {outcome : Except HttpError Answer} (advances : Advances client call next)
    (isOver : call.phase = .finished outcome) : next = call := by
  cases advances with
  | same unchanged => exact unchanged
  | ran timedOut after taken => rw [section_of_finished isOver] at taken; cases taken
  | passed outstanding _ _ => rw [isOver] at outstanding; cases outstanding

theorem Advances.hasKilled (advances : Advances client call next) (killed : call.HasKilled branchId) :
    next.HasKilled branchId := by
  cases advances with
  | same unchanged => rw [unchanged]; exact killed
  | ran timedOut after taken => exact section_hasKilled taken killed
  | passed outstanding _ _ =>
    obtain ⟨_, answer, releasing | isOver⟩ := killed
    · rw [releasing] at outstanding; cases outstanding
    · rw [isOver] at outstanding; cases outstanding

theorem StillTracked.step {origin : System τ} (still : StillTracked origin branchId before)
    (taken : System.Step radix before action system) : StillTracked origin branchId system where
  finished := by
    intro c call outcome found isOver
    obtain ⟨next, isNext, advances⟩ := System.advances taken (still.finished c call outcome found isOver)
    rw [isNext, advances.finished isOver]
  tracked := by
    obtain tracked | ⟨c, call, found, killed, notOver⟩ := still.tracked
    · obtain same | ⟨c, call, next, found, isNext, sameOp, tracks⟩ := System.tracks taken
      · exact Or.inl (same ▸ tracked)
      · obtain kept | ⟨killed, freed, replied⟩ := tracks.keeps sameOp tracked
        · exact Or.inl kept
        · refine Or.inr ⟨c, next, isNext, killed, ?_⟩
          rintro ⟨earlier, outcome, isEarlier, isOver⟩
          have unchanged := found.symm.trans (still.finished c earlier outcome isEarlier isOver)
          rw [Option.some.inj unchanged, isOver] at replied
          cases replied
    · obtain ⟨next, isNext, advances⟩ := System.advances taken found
      exact Or.inr ⟨c, next, isNext, advances.hasKilled killed, notOver⟩

/-- `generate` and `fork_branch` get their request on the branch sent. -/
def Client.Usable (client : Client) (branchId : BranchId) : Prop :=
  (∀ timedOut branchEnd reserveTokens, Option.any (· < (0 : Int)) reserveTokens = false →
    (HttpCall.begin timedOut client ⟨.generate branchId branchEnd reserveTokens, .entered, "", none⟩).2.phase =
      .requested) ∧
  ∀ timedOut childId,
    (HttpCall.begin timedOut client ⟨.forkBranch branchId (some childId), .entered, "", none⟩).2.phase = .requested

theorem Client.Tracked.usable (tracked : client.Tracked branchId) (unmarked : branchId ∉ client.closing) :
    client.Usable branchId := by
  obtain ⟨ns, isNs⟩ := Dict.mem_iff_get?.1 tracked.1
  obtain ⟨parentId, isParent⟩ := Dict.mem_iff_get?.1 tracked.2
  refine ⟨fun timedOut branchEnd reserveTokens nonneg => ?_, fun timedOut childId => ?_⟩
  · simp only [HttpCall.begin, nonneg, Bool.false_eq_true, if_false, HttpCall.enterGenerate, if_neg unmarked,
      isNs, isParent]
  · simp only [HttpCall.begin, HttpCall.enterFork, if_neg unmarked, isNs]

theorem Client.Usable.tracked (usable : client.Usable branchId) : client.Tracked branchId := by
  have generated := usable.1 false false none rfl
  by_cases marked : branchId ∈ client.closing
  · simp [HttpCall.begin, HttpCall.enterGenerate, if_pos marked, HttpCall.raising, HttpCall.goTo] at generated
  · cases isNs : client.namespaces.get? branchId with
    | none =>
      simp [HttpCall.begin, HttpCall.enterGenerate, if_neg marked, isNs, HttpCall.raising, HttpCall.goTo] at generated
    | some ns =>
      cases isParent : client.parents.get? branchId with
      | none =>
        simp [HttpCall.begin, HttpCall.enterGenerate, if_neg marked, isNs, isParent, HttpCall.raising,
          HttpCall.goTo] at generated
      | some parentId => exact ⟨Dict.mem_of_get? isNs, Dict.mem_of_get? isParent⟩

/-- Once every kill of the branch that a run has seen is over, and has failed, the
branch is as usable as it was. -/
theorem usable_after_failed_kills {origin : System τ}
    (reached : Reachable (System.Step radix) always (.start cache) origin)
    (continued : Reachable (System.Step radix) always origin later) (tracked : origin.client.Tracked branchId)
    (failed : ∀ (c : Nat) (call : HttpCall), later.calls[c]? = some call → call.op = .kill branchId →
      (∃ error, call.phase = .finished (.error error)) ∨ origin.HasFinished c) :
    later.client.Usable branchId := by
  have still : StillTracked origin branchId later :=
    continued.invariant ⟨fun _ _ _ found _ => found, Or.inl tracked⟩ fun _ _ _ still _ taken => still.step taken
  have balance : later.Balance := System.balance_of_reachable (reached.trans continued)
  have unmarked : branchId ∉ later.client.closing := by
    intro marked
    obtain ⟨call, member, marks⟩ := Balanced.exists_of_marked balance (decide_eq_true marked)
    obtain ⟨marking, kills⟩ := (Bool.and_eq_true _ _).mp marks
    obtain ⟨c, found⟩ := List.mem_iff_getElem?.1 member
    have isKill : call.op = .kill branchId := by
      cases op : call.op with
      | kill treeId => rw [op] at kills; rw [of_decide_eq_true kills]
      | createTree treeId => rw [op] at kills; cases kills
      | forkBranch parentId childId => rw [op] at kills; cases kills
      | generate id branchEnd reserveTokens => rw [op] at kills; cases kills
    obtain ⟨error, isOver⟩ | ⟨earlier, outcome, isEarlier, isOver⟩ := failed c call found isKill
    · rw [isOver] at marking; cases marking
    · rw [Option.some.inj (found.symm.trans (still.finished c earlier outcome isEarlier isOver)), isOver] at marking
      cases marking
  refine Client.Tracked.usable ?_ unmarked
  obtain isTracked | ⟨c, call, found, ⟨isKill, answer, phase⟩, notOver⟩ := still.tracked
  · exact isTracked
  · obtain ⟨error, isOver⟩ | wasOver := failed c call found isKill
    · obtain releasing | isDone := phase
      · rw [isOver] at releasing; cases releasing
      · rw [isOver] at isDone; cases isDone
    · exact absurd wasOver notOver

/-- While a kill request for a branch is outstanding no other request on the branch
is; `_active` counts the requests on it; a kill that fails gives the branch back. -/
theorem kill_excludes_users (reached : Reachable (System.Step radix) always (.start cache) system) :
    (∀ branchId, ∀ killer ∈ system.calls, killer.killing branchId = true →
      ∀ user ∈ system.calls, user.uses branchId = false) ∧
    (∀ branchId, system.client.activeOn branchId = system.calls.countP (HttpCall.uses branchId)) ∧
    (∀ branchId, system.calls.countP (HttpCall.killing branchId) ≤ 1) ∧
    (∀ later branchId, Reachable (System.Step radix) always system later → system.client.Usable branchId →
      (∀ (c : Nat) (call : HttpCall), later.calls[c]? = some call → call.op = .kill branchId →
        (∃ error, call.phase = .finished (.error error)) ∨ system.HasFinished c) →
      later.client.Usable branchId) := by
  have balance : system.Balance := System.balance_of_reachable reached
  refine ⟨fun branchId killer isKiller killing user isUser => ?_, balance.active, fun branchId => ?_,
    fun later branchId continued usable failed => usable_after_failed_kills reached continued usable.tracked failed⟩
  · have noUser : system.calls.countP (HttpCall.uses branchId) = 0 :=
      balance.alone branchId killer isKiller killing
    exact Bool.not_eq_true _ ▸ List.countP_eq_zero.1 noUser user isUser
  · have claiming : system.calls.countP (HttpCall.marks branchId) ≤ 1 := balance.claims_le_one branchId
    refine (List.countP_mono_left fun call _ killing => ?_).trans claiming
    exact roles.marked_alone branchId call killing

/-- A kill arrives while the branch generates and a fork of it is on its way, and
runs into its deadline. -/
def interrupted : List (HttpAction Nat) :=
  [.call (.createTree "a"), .run 0 false, .serve 0, .receive 0, .run 0 false,
    .call (.generate "a" false none), .run 1 false, .call (.forkBranch "a" (some "b")), .run 2 false,
    .call (.kill "a"), .run 3 false, .run 3 true]

theorem interrupted_reached : Reachable (System.Step referenceCache) always (.start (.new 1 none))
    (runFrom (System.step referenceCache) (.start (.new 1 none)) interrupted) :=
  reachable_runFrom (by decide) meets_always

theorem interrupted_is_counted :
    (runFrom (System.step referenceCache) (.start (.new 1 none)) interrupted).client.activeOn "a" =
      (runFrom (System.step referenceCache) (.start (.new 1 none)) interrupted).calls.countP (HttpCall.uses "a") :=
  (kill_excludes_users interrupted_reached).2.1 "a"

end Agentfork.Sglang.HttpBackend

import Agentfork.Orchestrator.KillLosers
import Agentfork.Orchestrator.Leases

/-! # The forks that happened, and the chain that kill_losers keeps

A record names its parent, and it goes when its branch is killed. The line of a
branch is what is not forgotten: each branch is entered with its number in the
history of the process, and the line of a child goes on with the line its parent
had when it was forked. A run carries the lines along; the orchestrator does not
see them. -/

namespace Agentfork.Orchestrator

open Shared Transition

variable {config : Config} {env : Env}

/-- A branch by its place among all branches that the process has journaled;
one that was loaded has none. -/
structure Birth where
  serial : Option Nat
  branchId : BranchId
  deriving DecidableEq

structure Family where
  state : State
  /-- the branch that has the id, or had it last, the branch it was forked from, and so on -/
  line : BranchId → List Birth

/-- The parent of the branches that the step journals. -/
def Action.forkedFrom : Action → Option BranchId
  | .invoke (.fork parentId _ _ _) _ => some parentId
  | _ => none

namespace Family

def loaded (shared : Shared) : Family :=
  ⟨State.fresh shared, fun branchId => if branchId ∈ shared.branches then [⟨none, branchId⟩] else []⟩

/-- The lines after a step: a new branch heads the line of its parent. -/
def lineAfter (config : Config) (family : Family) (action : Action) (branchId : BranchId) : List Birth :=
  match (family.state.journals config action).idxOf? branchId with
  | none => family.line branchId
  | some i => ⟨some (family.state.shared.started.length + i), branchId⟩ ::
      (action.forkedFrom.map family.line).getD []

def step (config : Config) (family : Family) (action : Action) : Option Family :=
  (family.state.step config action).map fun after => ⟨after, family.lineAfter config action⟩

def Step (config : Config) (before : Family) (action : Action) (after : Family) : Prop :=
  before.step config action = some after

/-- The branch that has the one id now descends from the branch that has the other one. -/
def Ancestor (family : Family) (branchId ancestorId : BranchId) : Prop :=
  ∃ birth, (family.line ancestorId).head? = some birth ∧ birth ∈ (family.line branchId).tail

/-- The first branch was forked from the second one, which is still recorded. -/
def Child (family : Family) (childId parentId : BranchId) : Prop :=
  (family.line childId).tail = family.line parentId ∧ parentId ∈ family.state.shared.branches

/-- A descent over branches that are all still recorded. -/
def Unbroken (family : Family) : BranchId → BranchId → Prop := Relation.TransGen family.Child

/-! ## Records name the parents that the lines have -/

/-- A recorded branch heads its line, and names the next one as its parent. -/
structure Traced (family : Family) : Prop where
  heads : ∀ branchId ∈ family.state.shared.branches,
    ∃ serial, (family.line branchId).head? = some ⟨serial, branchId⟩
  parent : ∀ branchId branch, family.state.shared.branches.get? branchId = some branch →
    ∀ parent, (family.line branchId).tail.head? = some parent → branch.parentId = some parent.branchId

theorem Traced.linked {family : Family} (traced : family.Traced) {branchId ancestorId : BranchId}
    (recorded : branchId ∈ family.state.shared.branches) (unbroken : family.Unbroken branchId ancestorId) :
    Linked family.state.shared.branches branchId ancestorId := by
  have names : ∀ {childId parentId}, childId ∈ family.state.shared.branches → family.Child childId parentId →
      Names family.state.shared.branches childId parentId := by
    intro childId parentId recorded ⟨isParent, parentRecorded⟩
    obtain ⟨branch, found⟩ := Dict.mem_iff_get?.1 recorded
    obtain ⟨serial, isHead⟩ := traced.heads parentId parentRecorded
    exact ⟨branch, found, traced.parent childId branch found ⟨serial, parentId⟩ (isParent ▸ isHead)⟩
  induction unbroken with
  | single child => exact .single (names recorded child)
  | tail unbroken child inductionHypothesis =>
    obtain ⟨_, _, isRecorded⟩ : ∃ childId, family.Child childId _ ∧ _ ∈ family.state.shared.branches := by
      cases unbroken with
      | single first => exact ⟨_, first, first.2⟩
      | tail _ last => exact ⟨_, last, last.2⟩
    exact inductionHypothesis.tail (names isRecorded child)

end Family

/-- A record after a step is a record before it with its parent, or is new and
names the parent that the step forks from. -/
inductive Parentage (journaled : List BranchId) (forkedFrom : Option BranchId) (before : Shared) (branchId : BranchId)
    (parentId : Option BranchId) : Prop where
  | old {previous : Branch} (notNew : branchId ∉ journaled) (found : before.branches.get? branchId = some previous)
      (same : previous.parentId = parentId)
  | new (isNew : branchId ∈ journaled) (isParent : parentId = forkedFrom)
      (recorded : ∀ parentId, forkedFrom = some parentId → parentId ∈ before.branches)

variable {shared after : Shared} {branchId : BranchId} {branch : Branch} {forkedFrom : Option BranchId}

theorem Parentage.of_silent (silent : Silent config shared after) (found : after.branches.get? branchId = some branch) :
    Parentage (after.started.drop shared.started.length) forkedFrom shared branchId branch.parentId := by
  have record := congrArg View.record (silent.view ∅ branchId)
  simp only [view, found, Option.map_some] at record
  obtain ⟨previous, stored, same⟩ := Option.map_eq_some_iff.1 record.symm
  refine .old ?_ stored (Prod.mk.inj same).2
  rw [silent.started, List.drop_length]
  exact List.not_mem_nil

theorem Parentage.of_journaled {children : List Branch} (journaled : Journaled config shared children after)
    (isParent : ∀ child ∈ children, child.parentId = forkedFrom)
    (recorded : ∀ parentId, forkedFrom = some parentId → parentId ∈ shared.branches)
    (found : after.branches.get? branchId = some branch) :
    Parentage (after.started.drop shared.started.length) forkedFrom shared branchId branch.parentId := by
  rw [journaled.started, List.drop_left]
  rw [journaled.branches] at found
  cases located : children.find? fun child => child.branchId = branchId with
  | none =>
    rw [located, Option.none_or] at found
    refine .old (fun isNew => ?_) found rfl
    obtain ⟨child, member, same⟩ := List.mem_map.1 isNew
    rw [List.find?_eq_none] at located
    exact located child member (decide_eq_true same)
  | some child =>
    rw [located, Option.some_or] at found
    cases found
    have member := List.mem_of_find?_eq_some located
    have same : branch.branchId = branchId := by simpa using List.find?_some located
    exact .new (List.mem_map.2 ⟨branch, member, same⟩) (isParent branch member) recorded

theorem Parentage.of_record {key : BranchId} {state : BranchState} (started : after.started = shared.started)
    (move : RecordMove key state shared after branchId) (found : after.branches.get? branchId = some branch) :
    Parentage (after.started.drop shared.started.length) forkedFrom shared branchId branch.parentId := by
  have notNew : branchId ∉ after.started.drop shared.started.length := by
    rw [started, List.drop_length]
    exact List.not_mem_nil
  cases move with
  | kept record => exact .old notNew (record.symm.trans found) rfl
  | moved _ stored record =>
    rw [record] at found
    cases found
    exact .old notNew stored rfl
  | forgotten record =>
    rw [record] at found
    cases found

theorem recorded_of_isLive (live : shared.isLive branchId = true) : branchId ∈ shared.branches := by
  unfold isLive at live
  cases found : shared.branches.get? branchId with
  | none => rw [found] at live; cases live
  | some branch => exact Dict.mem_of_get? found

theorem invoke_parents {op : Op} {call : Call} (invoked : invoke config env shared op = some (after, call))
    (found : after.branches.get? branchId = some branch) :
    Parentage (after.started.drop shared.started.length) (Action.invoke op env).forkedFrom shared branchId
      branch.parentId := by
  cases invoke_move invoked with
  | refused _ quiet =>
    have silent : Silent config shared after := Silent.of_quiet quiet
    exact .of_silent silent found
  | createParent _ _ noParent journaled =>
    refine .of_journaled journaled (fun child member => ?_) nofun found
    rw [List.mem_singleton.1 member]
    exact noParent
  | fork _ parentLive parents journaled =>
    refine .of_journaled journaled parents (fun other isOther => ?_) found
    cases isOther
    exact recorded_of_isLive parentLive
  | @renewLease renewedId lease _ _ renews =>
    have silent := renewLease_silent config env.persist env.now renewedId lease shared
    rw [renews] at silent
    exact .of_silent silent found
  | kills | closed | closing =>
    have silent : Silent config shared shared := Silent.refl shared
    exact .of_silent silent found
  | closes =>
    have silent : Silent config shared { shared with closing := true } := Silent.flags shared shared.metrics true shared.closed
    exact .of_silent silent found

theorem State.Step.parents {before next : State} {action : Action} (taken : before.Step config action next)
    (found : next.shared.branches.get? branchId = some branch) :
    Parentage (before.journals config action) action.forkedFrom before.shared branchId branch.parentId := by
  have isJournal : before.journals config action = next.shared.started.drop before.shared.started.length := by
    unfold State.journals
    rw [show before.step config action = some next from taken]
  rw [isJournal]
  cases taken.move with
  | @item c i env call task moved shared atCall atItem running allowed stepped =>
    have started := (Task.step_marks stepped).1
    cases task with
    | start task =>
      obtain ⟨⟨_, phase⟩, moves, equal⟩ := Option.map_eq_some_iff.1 stepped
      cases equal
      exact .of_record started (startStep_record moves branchId) found
    | kill task =>
      obtain ⟨⟨_, phase⟩, moves, equal⟩ := Option.map_eq_some_iff.1 stepped
      cases equal
      exact .of_record started (killStep_record moves branchId) found
  | journal journaled fresh items stage invoked => exact invoke_parents invoked found
  | invoke silent dormant invoked => exact invoke_parents invoked found
  | advance atCall silent => exact .of_silent silent found

/-! ## Every run -/

namespace Family.Traced

variable {family next : Family} {action : Action}

theorem loaded (shared : Shared) : (Family.loaded shared).Traced where
  heads branchId recorded := by
    have recorded : branchId ∈ shared.branches := recorded
    exact ⟨none, by simp [Family.loaded, recorded]⟩
  parent branchId branch found parent isNext := by
    unfold Family.loaded at isNext
    simp only at isNext
    split at isNext <;> cases isNext

theorem step (traced : family.Traced) (taken : family.Step config action next) : next.Traced := by
  obtain ⟨after, stepped, rfl⟩ := Option.map_eq_some_iff.1 taken
  have parents : ∀ {branchId branch}, after.shared.branches.get? branchId = some branch → _ :=
    fun found => State.Step.parents stepped found
  have lineOld : ∀ {branchId}, branchId ∉ family.state.journals config action →
      family.lineAfter config action branchId = family.line branchId := by
    intro branchId notNew
    unfold lineAfter
    rw [List.idxOf?_eq_none_iff.2 notNew]
  have lineNew : ∀ {branchId}, branchId ∈ family.state.journals config action →
      ∃ serial, family.lineAfter config action branchId =
        ⟨serial, branchId⟩ :: (action.forkedFrom.map family.line).getD [] := by
    intro branchId isNew
    unfold lineAfter
    cases place : (family.state.journals config action).idxOf? branchId with
    | none => exact absurd isNew (List.idxOf?_eq_none_iff.1 place)
    | some i => exact ⟨_, rfl⟩
  constructor
  · intro branchId recorded
    obtain ⟨branch, found⟩ := Dict.mem_iff_get?.1 recorded
    cases parents found with
    | old notNew stored _ =>
      obtain ⟨serial, isHead⟩ := traced.heads branchId (Dict.mem_of_get? stored)
      exact ⟨serial, (congrArg List.head? (lineOld notNew)).trans isHead⟩
    | new isNew =>
      obtain ⟨serial, isLine⟩ := lineNew isNew
      exact ⟨serial, congrArg List.head? isLine⟩
  · intro branchId branch found parent isNext
    cases parents found with
    | old notNew stored same =>
      have isNext : (family.line branchId).tail.head? = some parent := by
        rw [← lineOld notNew]
        exact isNext
      rw [← same]
      exact traced.parent branchId _ stored parent isNext
    | new isNew isParent recorded =>
      obtain ⟨serial, isLine⟩ := lineNew isNew
      have isNext : ((action.forkedFrom.map family.line).getD []).head? = some parent := by
        rw [← isNext]
        exact (congrArg (fun line => line.tail.head?) isLine).symm
      cases isFork : action.forkedFrom with
      | none => rw [isFork] at isNext; cases isNext
      | some parentId =>
        -- the parent is recorded, so it heads the line that the child's line goes on with
        obtain ⟨serial, isHead⟩ := traced.heads parentId (recorded parentId isFork)
        rw [isFork, Option.map_some, Option.getD_some, isHead] at isNext
        cases isNext
        exact isParent.trans isFork

theorem of_reachable (reached : Reachable (Family.Step config) always (Family.loaded shared) family) :
    family.Traced :=
  reached.invariant (Traced.loaded shared) fun _ _ _ traced _ taken => traced.step taken

end Family.Traced

/-! ## kill_losers and the ancestors of the winner -/

/-- The call never takes up a kill of the branch, and none of its steps touches it. -/
structure Spares (config : Config) (entered : State) (c : Nat) (branchId : BranchId) : Prop where
  noKill : ∀ state call, Reachable (State.Step config) always entered state → state.calls[c]? = some call →
    ∀ task ∈ call.items, task.branchId ≠ branchId
  untouched : ∀ state action next, Reachable (State.Step config) always entered state →
    state.Step config action next → action.isOf c →
      next.shared.view ∅ branchId = state.shared.view ∅ branchId

theorem spares_iff {before entered : State} {winnerId : BranchId}
    (isOpen : before.shared.ensureOpen false = .ok ()) (winnerLive : before.shared.isLive winnerId = true)
    (invoked : before.Step config (.invoke (.killLosers winnerId) env) entered) :
    Spares config entered before.calls.length branchId ↔ branchId ∉ before.shared.losers winnerId := by
  obtain ⟨⟨shared, opening⟩, opens, rfl⟩ := Option.map_eq_some_iff.1 invoked
  have begun : (before.calls ++ [opening])[before.calls.length]? = some opening := List.getElem?_concat_length
  constructor
  · intro spares isLoser
    have items : opening.items = (before.shared.losers winnerId).map (killTask false) := by
      simp only [invoke, isOpen, winnerLive, Bool.true_eq_false, if_false] at opens
      cases opens
      rfl
    have isItem : killTask false branchId ∈ opening.items := items ▸ List.mem_map_of_mem isLoser
    exact spares.noKill _ opening .refl begun _ isItem rfl
  · intro notLoser
    constructor
    · intro state call reached atCall task member isSame
      obtain ⟨running, atRunning, culls⟩ := culls_onward begun (invoke_culls opens) reached
      rw [atCall] at atRunning
      cases atRunning
      exact notLoser (isSame ▸ (culls.items task member).isLoser)
    · intro state action next reached taken isOwn
      obtain ⟨running, atRunning, culls⟩ := culls_onward begun (invoke_culls opens) reached
      exact culls.untouched atRunning taken isOwn notLoser

/-- `kill_losers` spares the live ancestors of the winner exactly when the records
lead to each of them; they do where no branch of the descent has been forgotten. -/
theorem ancestors_spared_iff {family : Family} {entered : State} {winnerId : BranchId}
    (reached : Reachable (Family.Step config) always (Family.loaded shared) family)
    (isOpen : family.state.shared.ensureOpen false = .ok ())
    (winnerLive : family.state.shared.isLive winnerId = true)
    (invoked : family.state.Step config (.invoke (.killLosers winnerId) env) entered) :
    ((∀ ancestorId, family.Ancestor winnerId ancestorId → family.state.shared.isLive ancestorId = true →
        Spares config entered family.state.calls.length ancestorId) ↔
      ∀ ancestorId, family.Ancestor winnerId ancestorId → family.state.shared.isLive ancestorId = true →
        Linked family.state.shared.branches winnerId ancestorId) ∧
    ∀ ancestorId, family.Unbroken winnerId ancestorId →
      Linked family.state.shared.branches winnerId ancestorId := by
  refine ⟨?_, fun ancestorId => (Family.Traced.of_reachable reached).linked (recorded_of_isLive winnerLive)⟩
  have linked_iff : ∀ ancestorId, family.state.shared.isLive ancestorId = true →
      (Spares config entered family.state.calls.length ancestorId ↔
        Linked family.state.shared.branches winnerId ancestorId) := by
    intro ancestorId live
    rw [spares_iff isOpen winnerLive invoked, mem_losers_iff, ← mem_keptChain]
    simp [recorded_of_isLive live]
  constructor
  · exact fun spared ancestorId descends live => (linked_iff ancestorId live).1 (spared ancestorId descends live)
  · exact fun linked ancestorId descends live => (linked_iff ancestorId live).2 (linked ancestorId descends live)

/-- `w` is forked from `a`, which is forked from `p`. -/
def descentRun : List Action :=
  [.invoke (.createParent "p" [] none) returns, .item 0 0 returns, .item 0 0 returns, .item 0 0 returns,
    .item 0 0 returns, .advance 0, .invoke (.fork "p" 1 (some ["a"]) none) returns, .item 1 0 returns,
    .item 1 0 returns, .item 1 0 returns, .item 1 0 returns, .item 1 0 returns, .advance 1,
    .invoke (.fork "a" 1 (some ["w"]) none) returns, .item 2 0 returns, .item 2 0 returns, .item 2 0 returns,
    .item 2 0 returns, .item 2 0 returns, .advance 2]

/-- Then `a` is killed. -/
def cutOffRun : List Action :=
  descentRun ++ [.invoke (.kill "a") returns, .item 3 0 returns, .item 3 0 returns, .item 3 0 returns,
    .item 3 0 returns, .advance 3]

def familyAfter (actions : List Action) : Family := runFrom (Family.step serialConfig) (Family.loaded blank) actions

theorem familyAfter_reachable {actions : List Action}
    (enabled : (run (Family.step serialConfig) (Family.loaded blank) actions).isSome = true) :
    Reachable (Family.Step serialConfig) always (Family.loaded blank) (familyAfter actions) :=
  reachable_runFrom enabled meets_always

theorem descentRun_spares :
    let entered := runFrom (State.step serialConfig) (familyAfter descentRun).state [.invoke (.killLosers "w") returns]
    Spares serialConfig entered 3 "a" ∧ Spares serialConfig entered 3 "p" := by
  intro entered
  have reached : Reachable (Family.Step serialConfig) always (Family.loaded blank) (familyAfter descentRun) :=
    familyAfter_reachable (by decide)
  have invoked : (familyAfter descentRun).state.Step serialConfig (.invoke (.killLosers "w") returns) entered := rfl
  obtain ⟨spared_iff, linked⟩ := ancestors_spared_iff reached (by decide) (by decide) invoked
  have childOfA : (familyAfter descentRun).Child "w" "a" := ⟨rfl, by decide⟩
  have childOfP : (familyAfter descentRun).Child "a" "p" := ⟨rfl, by decide⟩
  have spared := spared_iff.2 fun ancestorId descends live => by
    obtain ⟨birth, isHead, member⟩ := descends
    obtain ⟨serial, isOwn⟩ := (Family.Traced.of_reachable reached).heads ancestorId (recorded_of_isLive live)
    have isLine : ((familyAfter descentRun).line "w").tail = [⟨some 1, "a"⟩, ⟨some 0, "p"⟩] := rfl
    rw [isOwn, Option.some.injEq] at isHead
    rw [isLine, ← isHead, List.mem_cons, List.mem_singleton, Birth.mk.injEq, Birth.mk.injEq] at member
    obtain ⟨_, rfl⟩ | ⟨_, rfl⟩ := member
    · exact linked "a" (.single childOfA)
    · exact linked "p" (.tail (.single childOfA) childOfP)
  exact ⟨spared "a" ⟨⟨some 1, "a"⟩, rfl, by decide⟩ (by decide), spared "p" ⟨⟨some 0, "p"⟩, rfl, by decide⟩ (by decide)⟩

theorem cut_off_ancestor_is_killed : ¬ ∀ family, Reachable (Family.Step serialConfig) always (Family.loaded blank) family →
    ∀ winnerId ancestorId, family.state.shared.isLive winnerId = true → family.Ancestor winnerId ancestorId →
      family.state.shared.isLive ancestorId = true → ∀ env entered state,
        family.state.Step serialConfig (.invoke (.killLosers winnerId) env) entered →
          Reachable (State.Step serialConfig) (fun _ action => action.isOf family.state.calls.length) entered state →
            state.shared.isLive ancestorId = true := by
  intro claimed
  let entered := runFrom (State.step serialConfig) (familyAfter cutOffRun).state [.invoke (.killLosers "w") returns]
  -- the record of `w` names `a`, which has none
  have killed : Reachable (State.Step serialConfig) (fun _ action => action.isOf (familyAfter cutOffRun).state.calls.length)
      entered (runFrom (State.step serialConfig) entered
        [.item 4 0 returns, .item 4 0 returns, .item 4 0 returns, .item 4 0 returns]) :=
    reachable_runFrom (by decide) ⟨rfl, ⟨rfl, ⟨rfl, ⟨rfl, trivial⟩⟩⟩⟩
  have descends : (familyAfter cutOffRun).Ancestor "w" "p" := ⟨⟨some 0, "p"⟩, rfl, by decide⟩
  have stillLive := claimed (familyAfter cutOffRun) (familyAfter_reachable (by decide)) "w" "p" (by decide) descends
    (by decide) returns entered _ rfl killed
  exact absurd stillLive (by decide)

end Agentfork.Orchestrator

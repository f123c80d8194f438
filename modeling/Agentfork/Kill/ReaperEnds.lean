import Agentfork.Kill.ReaperAccounts

/-! # Every call of the reaper can end

A wait of the reaper is for a child that has ended or has been sent a `SIGKILL`, so
no call is stuck: `kill` reaps its branch, and `close` all of them. -/

namespace Agentfork.Kill.Reaper

open Children Transition

/-- How far a `kill` is from its end. -/
def Place.left : Place → Nat
  | .signal => 8
  | .waitid => 7
  | .wait => 6
  | .polling _ => 5
  | .killing _ => 4
  | .waiting _ => 3
  | .closing _ => 2
  | .kv => 1

namespace State

/-- How far the call under way is from its end; a `close` has ten for each branch that is left for it. -/
def left (state : State) : Nat :=
  match state.call with
  | none => 0
  | some (.opening _ _) => 3
  | some (.abandoning _ false) => 2
  | some (.abandoning _ true) => 1
  | some (.killing _ place rest) => 10 * (rest.getD []).length + place.left

variable {state next : State} {treeId : TreeId} {proc : Popen} {fd i : Nat} {child : Child Owner} {place : Place}
  {rest : Option (List TreeId)}

theorem left_closeRest (state : State) (ids : List TreeId) : (state.closeRest ids).left ≤ 10 * ids.length := by
  induction ids with
  | nil => exact Nat.le_refl 0
  | cons treeId ids inductionHypothesis =>
    unfold closeRest
    split
    · simp only [left, setCall, Option.getD_some, Place.left, List.length_cons]
      omega
    · simp only [List.length_cons]
      omega

theorem left_killDone (state : State) (result : Except Failure Unit) (rest : Option (List TreeId)) :
    (state.killDone result rest).left ≤ 10 * (rest.getD []).length := by
  unfold killDone
  split
  · exact Nat.zero_le _
  · exact Nat.zero_le _
  · exact left_closeRest _ _

/-! ## A wait is for a child that has ended, or that will -/

theorem poll_returned (ended : ∀ (i : Nat) child, state.system.holder proc.pid = some i →
    state.system.children[i]? = some child → child.phase ≠ .running) : (proc.poll state.system).1.returned = true := by
  unfold Popen.poll
  cases returned : proc.returned with
  | true => simp only [if_true, returned]
  | false =>
    simp only [Bool.false_eq_true, if_false, System.waitNumber]
    cases held : state.system.holder proc.pid with
    | none => rfl
    | some i =>
      obtain ⟨child, found, _, unreaped⟩ := System.of_holder held
      have waited : state.system.waitChild i = some (state.system.collect i) := by
        have notRunning := ended i child held found
        cases phase : child.phase with
        | running => exact absurd phase notRunning
        | zombie => simp only [System.waitChild, found, Option.map_some, phase]
        | reaped => exact absurd phase unreaped
      simp only [waited]

theorem Entry.poll_returned (entry : Entry state.system proc fd i child) (ended : child.phase ≠ .running) :
    (proc.poll state.system).1.returned = true := by
  cases returned : proc.returned with
  | true => simp [Popen.poll, returned]
  | false =>
    refine State.poll_returned fun j other held found => ?_
    by_cases reaped : child.phase = .reaped
    · rw [entry.number returned reaped] at held
      cases held
    · rw [← entry.pid, System.holder_of entry.found reaped, Option.some.injEq] at held
      exact Option.some.inj ((held ▸ entry.found).symm.trans found) ▸ ended

theorem Starting.poll_returned (start : Starting state.system proc i child) (ended : child.phase ≠ .running) :
    (proc.poll state.system).1.returned = true := by
  refine State.poll_returned fun j other held found => ?_
  rw [← start.pid, System.holder_of start.found start.unreaped, Option.some.injEq] at held
  exact Option.some.inj ((held ▸ start.found).symm.trans found) ▸ ended

theorem wait_of_returned (returned : (proc.poll state.system).1.returned = true) :
    proc.wait state.system = some (proc.poll state.system) := by
  simp only [Popen.wait, returned, if_true]

/-! ## Every call goes on -/

/-- Some steps bring the call nearer to its end. -/
def Onward (state : State) : Prop := ∃ after, Reachable Step Guard state after ∧ after.left < state.left

theorem onward_of_advance (next : State) (taken : state.advance = some next) (nearer : next.left < state.left) : state.Onward :=
  ⟨next, .tail .refl (show state.Guard .advance from trivial) taken, nearer⟩

/-- A child ends before the next step. -/
theorem onward_of_exit (i : Nat) (onward : ({ state with system := state.system.exit i } : State).Onward) :
    state.Onward := by
  obtain ⟨after, reached, nearer⟩ := onward
  have exited : Reachable Step Guard state { state with system := state.system.exit i } :=
    .tail .refl (show state.Guard (.exit i) from trivial) rfl
  exact ⟨after, exited.trans reached, nearer⟩

theorem phase_ended (child : Child Owner) : child.ended.phase ≠ .running := by
  unfold Child.ended
  split
  · simp
  · next notRunning => exact notRunning

theorem left_killing (isCall : state.call = some (.killing treeId place rest)) :
    state.left = 10 * (rest.getD []).length + place.left := by
  rw [left, isCall]

theorem onward_of_killStep (next : State) (isCall : state.call = some (.killing treeId place rest)) (notKv : place ≠ .kv)
    (here : state.branches.get? treeId = some (proc, fd)) (taken : state.killStep treeId rest proc fd place = some next)
    (nearer : next.left < 10 * (rest.getD []).length + place.left) : state.Onward := by
  refine onward_of_advance (next) ?_ (left_killing isCall ▸ nearer)
  unfold State.advance
  cases place with
  | kv => exact absurd rfl notKv
  | _ => simp only [isCall, here, Option.bind_some, taken]

/-- A wait goes on once the child has ended, and it ends by itself. -/
theorem onward_of_wait {raised : Option Failure} (isCall : state.call = some (.killing treeId (.waiting raised) rest))
    (here : state.branches.get? treeId = some (proc, fd)) (returned : (proc.poll state.system).1.returned = true) :
    state.Onward := by
  refine onward_of_killStep ((state.setProc treeId fd (proc.poll state.system)).setCall
    (.killing treeId (.closing raised) rest)) isCall (by simp) here ?_ ?_
  · simp only [State.killStep, wait_of_returned returned, Option.map_some]
  · rw [left_killing rfl]
    simp only [Place.left]
    omega

theorem onward_of_abandoned (isCall : state.call = some (.abandoning proc true))
    (returned : (proc.poll state.system).1.returned = true) : state.Onward := by
  refine onward_of_advance (({ state with system := (proc.poll state.system).2 } : State).finish (.spawn none)) ?_ ?_
  · simp only [State.advance, isCall, Option.bind_some, wait_of_returned returned, Option.map_some]
  · simp only [left, isCall, finish]
    omega

theorem Accounts.onward_killing (accounts : state.Accounts) (isCall : state.call = some (.killing treeId place rest)) :
    state.Onward := by
  by_cases isKv : place = .kv
  · subst isKv
    have taken : state.advance = some (state.killDone (.ok ()) rest) := by simp only [State.advance, isCall, Option.bind_some]
    refine onward_of_advance _ taken ?_
    rw [left_killing isCall]
    exact Nat.lt_succ_of_le (left_killDone state (.ok ()) rest)
  · obtain ⟨proc, fd, i, child, here, entry, fits⟩ := accounts.killing treeId place rest isCall isKv
    have target : state.target fd = some i := by simp [State.target, entry.descriptor]
    have later : Entry (state.system.exit i) proc fd i child.ended := by
      have updated := entry.update i Child.ages_ended
      rw [if_pos rfl] at updated
      exact updated
    cases place with
    | signal =>
      refine onward_of_killStep ({ state with
        system := state.system.signal i
        call := some (.killing treeId .waitid rest) }) isCall isKv here ?_ ?_
      · simp only [State.killStep, target]
      · rw [left_killing rfl]
        simp only [Place.left]
        omega
    | waitid =>
      refine onward_of_exit i ?_
      have targetLater : State.target { state with system := state.system.exit i } fd = some i := target
      have waited : ∃ after, (state.system.exit i).waitChild i = some after := by
        unfold System.waitChild
        rw [later.found, Option.map_some]
        have ended := phase_ended child
        split
        · next running => exact absurd (Option.some.inj running) ended
        · exact ⟨_, rfl⟩
        · exact ⟨_, rfl⟩
        · exact ⟨_, rfl⟩
      obtain ⟨after, waited⟩ := waited
      refine onward_of_killStep (⟨after, state.branches, some (.killing treeId .wait rest), state.outcome⟩)
        isCall isKv here ?_ ?_
      · simp only [State.killStep, targetLater, waited, Option.map_some]
      · rw [left_killing rfl]
        simp only [Place.left]
        omega
    | wait =>
      have ended : child.phase ≠ .running := by
        rw [show child.phase = .reaped from fits]
        simp
      have returned := Entry.poll_returned entry ended
      refine onward_of_killStep ((state.setProc treeId fd (proc.poll state.system)).setCall
        (.killing treeId (.polling none) rest)) isCall isKv here ?_ ?_
      · simp only [State.killStep, wait_of_returned returned, Option.map_some]
      · rw [left_killing rfl]
        simp only [Place.left]
        omega
    | polling raised =>
      refine onward_of_killStep ((state.setProc treeId fd (proc.poll state.system)).setCall (.killing treeId
        (if (proc.poll state.system).1.returned then .closing raised else .killing raised) rest)) isCall isKv here rfl ?_
      rw [left_killing rfl]
      split <;> simp only [Place.left] <;> omega
    | killing raised =>
      refine onward_of_killStep ((state.setProc treeId fd (proc.kill state.system)).setCall
        (.killing treeId (.waiting raised) rest)) isCall isKv here rfl ?_
      rw [left_killing rfl]
      simp only [Place.left]
      omega
    | waiting raised =>
      refine onward_of_exit i ?_
      exact @onward_of_wait { state with system := state.system.exit i } _ _ _ _ _ isCall here
        (Entry.poll_returned later (phase_ended child))
    | closing raised =>
      cases raised with
      | none =>
        refine onward_of_killStep (⟨state.system.closeHandle fd, state.branches.erase treeId,
          some (.killing treeId .kv rest), state.outcome⟩) isCall isKv here rfl ?_
        rw [left_killing rfl]
        simp only [Place.left]
        omega
      | some failure =>
        refine onward_of_killStep _ isCall isKv here rfl ?_
        have bound := left_killDone { state with
          system := state.system.closeHandle fd
          branches := state.branches.erase treeId } (.error failure) rest
        simp only [Place.left]
        omega
    | kv => exact absurd rfl isKv

theorem Accounts.onward (accounts : state.Accounts) (busy : state.call ≠ none) : state.Onward := by
  cases isCall : state.call with
  | none => exact absurd isCall busy
  | some call =>
    cases call with
    | opening treeId proc =>
      have failed : state.Step .pidfdFailed (state.setCall (.abandoning proc false)) := by
        simp only [Step, State.step, isCall]
      refine ⟨_, .tail .refl (show state.Guard .pidfdFailed from trivial) failed, ?_⟩
      simp only [left, isCall, setCall]
      omega
    | abandoning proc killed =>
      cases killed with
      | false =>
        refine onward_of_advance ({ state with
          system := (proc.kill state.system).2
          call := some (.abandoning (proc.kill state.system).1 true) }) ?_ ?_
        · simp only [State.advance, isCall, Option.bind_some]
        · simp only [left, isCall]
          omega
      | true =>
        cases returned : (proc.poll state.system).1.returned with
        | true => exact onward_of_abandoned isCall returned
        | false =>
          have notReturned : proc.returned = false := by
            cases before : proc.returned with
            | false => rfl
            | true => simp [Popen.poll, before] at returned
          obtain ⟨i, child, start, _⟩ := accounts.abandoning proc isCall notReturned
          refine onward_of_exit i ?_
          have later : Starting (state.system.exit i) proc i child.ended := by
            have updated := start.update i Child.ages_ended (Child.unreaped_ended.2 start.unreaped)
            rw [if_pos rfl] at updated
            exact updated
          exact @onward_of_abandoned { state with system := state.system.exit i } _ isCall
            (Starting.poll_returned later (phase_ended child))
    | killing treeId place rest => exact accounts.onward_killing isCall

/-! ## What is others' is left alone -/

/-- Others' children and descriptors are as they were. -/
structure Kept (system after : System Owner) : Prop where
  children : ∀ (i : Nat) child, system.children[i]? = some child → child.owner = .other → after.children[i]? = some child
  descriptors : ∀ fd target, system.descriptors.get? fd = some (.other, target) →
    after.descriptors.get? fd = some (.other, target)

theorem Kept.refl (system : System Owner) : Kept system system := ⟨fun _ _ found _ => found, fun _ _ found => found⟩

/-- A child of the reaper changes. -/
theorem kept_update {change : Child Owner → Child Owner} (ages : Child.Ages change)
    (found : state.system.children[i]? = some child) (isReaper : child.owner = .reaper) :
    Kept state.system (state.system.update i change ages) where
  children j other isOther otherOwner := by
    have elsewhere : i ≠ j := by
      rintro rfl
      obtain rfl := Option.some.inj (found.symm.trans isOther)
      rw [isReaper] at otherOwner
      cases otherOwner
    rw [System.getElem?_update, isOther, Option.map_some, if_neg elsewhere]
  descriptors _ _ isOpen := isOpen

theorem kept_poll (state : State) (proc : Popen) (apart : ∀ (j : Nat) other, state.system.children[j]? = some other → other.owner = .other →
      proc.returned = false → other.Unreaped → other.pid ≠ proc.pid) :
    Kept state.system (proc.poll state.system).2 ∧ Kept state.system (proc.kill state.system).2 := by
  refine ⟨⟨?_, ?_⟩, ⟨?_, ?_⟩⟩
  · intro j other found isOther
    exact poll_frame found (apart j other found isOther)
  · intro fd target found
    rw [(poll_descriptors proc state.system).1, found]
  · intro j other found isOther
    exact kill_frame found (apart j other found isOther)
  · intro fd target found
    rw [kill_descriptors proc state.system, found]

theorem system_closeRest (state : State) (ids : List TreeId) : (state.closeRest ids).system = state.system := by
  induction ids with
  | nil => rfl
  | cons treeId ids inductionHypothesis =>
    unfold closeRest
    split
    · rfl
    · exact inductionHypothesis

theorem system_killDone (state : State) (result : Except Failure Unit) (rest : Option (List TreeId)) :
    (state.killDone result rest).system = state.system := by
  unfold killDone
  split
  · rfl
  · rfl
  · exact system_closeRest _ _

theorem Accounts.keeps_killStep (accounts : state.Accounts) (isCall : state.call = some (.killing treeId place rest))
    (notKv : place ≠ .kv) (here : state.branches.get? treeId = some (proc, fd))
    (taken : state.killStep treeId rest proc fd place = some next) : Kept state.system next.system := by
  obtain ⟨i, child, entry⟩ := accounts.books.entries treeId proc fd here
  have target : state.target fd = some i := by simp [State.target, entry.descriptor]
  obtain ⟨polled, killed⟩ := kept_poll state proc fun j other found isOther notReturned unreaped =>
    entry.apart_other notReturned found isOther unreaped
  cases place with
  | signal =>
    simp only [State.killStep, target, Option.some.injEq] at taken
    subst taken
    exact kept_update Child.ages_killed entry.found entry.owner
  | waitid =>
    simp only [State.killStep, target, Option.map_eq_some_iff] at taken
    obtain ⟨after, waited, rfl⟩ := taken
    obtain ⟨_, rfl⟩ | ⟨_, rfl⟩ := System.of_waitChild entry.found waited
    · exact kept_update Child.ages_collected entry.found entry.owner
    · exact Kept.refl _
  | wait =>
    simp only [State.killStep, Option.map_eq_some_iff] at taken
    obtain ⟨result, waited, rfl⟩ := taken
    obtain ⟨rfl, _⟩ := of_wait waited
    exact polled
  | polling raised =>
    simp only [State.killStep, Option.some.injEq] at taken
    subst taken
    exact polled
  | killing raised =>
    simp only [State.killStep, Option.some.injEq] at taken
    subst taken
    exact killed
  | waiting raised =>
    simp only [State.killStep, Option.map_eq_some_iff] at taken
    obtain ⟨result, waited, rfl⟩ := taken
    obtain ⟨rfl, _⟩ := of_wait waited
    exact polled
  | closing raised =>
    have closed : Kept state.system (state.system.closeHandle fd) := by
      refine ⟨fun _ _ found _ => found, fun anyFd anyTarget found => ?_⟩
      refine (Dict.get?_erase ..).trans ?_
      rw [if_neg, found]
      rintro rfl
      have isOwn := found.symm.trans entry.descriptor
      cases isOwn
    cases raised with
    | none =>
      simp only [State.killStep, Option.some.injEq] at taken
      subst taken
      exact closed
    | some failure =>
      simp only [State.killStep, Option.some.injEq] at taken
      subst taken
      rw [system_killDone]
      exact closed
  | kv => exact absurd rfl notKv

theorem Accounts.keeps_advance (accounts : state.Accounts) (advanced : state.advance = some next) :
    Kept state.system next.system := by
  obtain ⟨call, isCall, taken⟩ := Option.bind_eq_some_iff.1 advanced
  cases call with
  | opening treeId proc => cases taken
  | abandoning proc killed =>
    have isStarting : state.starting = some proc := by rw [starting, isCall]
    have kept := kept_poll state proc fun j other found isOther notReturned unreaped => by
      obtain ⟨i, child, start⟩ := accounts.books.starts proc isStarting notReturned
      exact start.apart_other found isOther unreaped
    cases killed with
    | false =>
      cases taken
      exact kept.2
    | true =>
      obtain ⟨result, waited, rfl⟩ := Option.map_eq_some_iff.1 taken
      obtain ⟨rfl, _⟩ := of_wait waited
      exact kept.1
  | killing treeId place rest =>
    by_cases isKv : place = .kv
    · subst isKv
      cases taken
      rw [system_killDone]
      exact Kept.refl _
    · obtain ⟨proc, fd, here, stepped⟩ := of_advance isCall isKv advanced
      exact accounts.keeps_killStep isCall isKv here stepped

end State

/-- A step of the reaper itself. -/
def Action.own : Action → Bool
  | .spawn _ _ | .pidfdOpened _ | .pidfdFailed | .kill _ | .close | .alive _ | .advance | .raise _ => true
  | .exit _ | .otherStarts _ | .otherWaits _ | .otherOpens _ _ | .otherCloses _ => false

namespace State

variable {state next : State}

theorem Accounts.keeps {action : Action} (accounts : state.Accounts) (own : action.own = true)
    (taken : state.Step action next) : Kept state.system next.system := by
  cases action with
  | spawn treeId pid =>
    simp only [Step, State.step] at taken
    split at taken
    · cases taken
    · split at taken
      · cases taken
        exact Kept.refl _
      · obtain ⟨after, forked, rfl⟩ := Option.map_eq_some_iff.1 taken
        obtain ⟨_, children, descriptors, _⟩ := System.fork_eq_some forked
        refine ⟨fun i child found _ => ?_, fun fd target found => descriptors ▸ found⟩
        rw [children, List.getElem?_append_left (List.getElem?_eq_some_iff.1 found).1, found]
  | pidfdOpened fd =>
    simp only [Step, State.step] at taken
    split at taken
    · obtain ⟨i, _, taken⟩ := Option.bind_eq_some_iff.1 taken
      obtain ⟨after, isOpen, rfl⟩ := Option.map_eq_some_iff.1 taken
      obtain ⟨free, rfl⟩ := System.of_openHandle isOpen
      refine ⟨fun _ _ found _ => found, fun anyFd target found => ?_⟩
      refine (Dict.get?_insert ..).trans ?_
      rw [if_neg, found]
      rintro rfl
      exact free (Dict.mem_of_get? found)
    · cases taken
  | pidfdFailed =>
    simp only [Step, State.step] at taken
    split at taken
    · cases taken
      exact Kept.refl _
    · cases taken
  | kill treeId =>
    simp only [Step, State.step] at taken
    split at taken
    · cases taken
    · split at taken
      all_goals
        cases taken
        exact Kept.refl _
  | close =>
    simp only [Step, State.step] at taken
    split at taken
    · cases taken
    · cases taken
      rw [system_closeRest]
      exact Kept.refl _
  | alive treeId =>
    simp only [Step, State.step] at taken
    split at taken
    · cases taken
    · cases taken
      split
      · next proc fd here =>
        obtain ⟨i, child, entry⟩ := accounts.books.entries treeId proc fd here
        exact (kept_poll state proc fun j other found isOther notReturned unreaped =>
          entry.apart_other notReturned found isOther unreaped).1
      · exact Kept.refl _
  | advance => exact accounts.keeps_advance taken
  | raise failure =>
    obtain ⟨call, _, taken⟩ := Option.bind_eq_some_iff.1 taken
    split at taken
    · cases taken
      exact Kept.refl _
    · cases taken
      exact Kept.refl _
    · cases taken
      exact Kept.refl _
    · cases taken
      rw [system_killDone]
      exact Kept.refl _
    · cases taken
  | exit child => cases own
  | otherStarts pid => cases own
  | otherWaits child => cases own
  | otherOpens fd target => cases own
  | otherCloses fd => cases own

/-! ## All runs -/

theorem accounts_of_reachable (reached : Reachable Step Guard start state) : state.Accounts :=
  reached.invariant accounts_start fun _ _ _ accounts guarded taken => accounts.step guarded taken

/-- Branches, pidfds of the reaper and its children that nobody has waited for are about each other. -/
structure Matched (state : State) : Prop where
  branches : ∀ treeId proc fd, state.branches.get? treeId = some (proc, fd) → ∃ i child,
    state.system.descriptors.get? fd = some (.reaper, some i) ∧ state.system.children[i]? = some child ∧
      child.owner = .reaper ∧ child.pid = proc.pid
  descriptors : ∀ fd target, state.system.descriptors.get? fd = some (.reaper, target) →
    ∃! treeId, ∃ proc, state.branches.get? treeId = some (proc, fd)
  children : ∀ (i : Nat) child, state.system.children[i]? = some child → child.owner = .reaper → child.Unreaped →
    ∃! fd, state.system.descriptors.get? fd = some (.reaper, some i)

/-- The reaper has no branch, no pidfd and no child that is left to be waited for. -/
structure Cleared (state : State) : Prop where
  branches : ∀ treeId, treeId ∉ state.branches
  descriptors : ∀ fd target, state.system.descriptors.get? fd ≠ some (.reaper, target)
  children : ∀ child ∈ state.system.children, child.owner = .reaper → child.phase = .reaped

theorem Accounts.matched (accounts : state.Accounts) (noCall : state.call = none) : state.Matched where
  branches treeId proc fd here := by
    obtain ⟨i, child, entry⟩ := accounts.books.entries treeId proc fd here
    exact ⟨i, child, entry.descriptor, entry.found, entry.owner, entry.pid⟩
  descriptors fd target isOpen := by
    obtain ⟨treeId, proc, here⟩ := accounts.books.handles fd target isOpen
    refine ⟨treeId, ⟨proc, here⟩, fun other isBranch => ?_⟩
    obtain ⟨_, isBranch⟩ := isBranch
    exact accounts.books.ids _ _ _ _ _ isBranch here
  children i child found owner unreaped := by
    obtain ⟨fd, isOpen⟩ | ⟨_, isStarting, _⟩ := (accounts.idle noCall).books.tracked i child found owner unreaped
    · exact ⟨fd, isOpen, fun other isOther => accounts.books.alone _ _ _ isOther isOpen⟩
    · cases isStarting

theorem Accounts.cleared (accounts : state.Accounts) (noCall : state.call = none) (isClosed : state.outcome = some .close) :
    state.Cleared := by
  have empty := accounts.closed _ isClosed rfl
  have matched := accounts.matched noCall
  have noHandle : ∀ fd target, state.system.descriptors.get? fd ≠ some (.reaper, target) := by
    intro fd target isOpen
    obtain ⟨treeId, ⟨proc, here⟩, _⟩ := matched.descriptors fd target isOpen
    exact empty treeId (Dict.mem_of_get? here)
  refine ⟨empty, noHandle, fun child member owner => Classical.byContradiction fun unreaped => ?_⟩
  obtain ⟨i, found⟩ := List.getElem?_of_mem member
  obtain ⟨fd, isOpen, _⟩ := matched.children i child found owner unreaped
  exact noHandle fd _ isOpen

/-- Whatever fails and whichever numbers are used again, as long as no handler is
interrupted: the reaper sends a `SIGKILL` to its own
children only and leaves what is others' alone; between its calls each of its children that nobody
has waited for has exactly one pidfd, and each pidfd is one branch's; after a `close` that was not
interrupted nothing of it is left; and each call under way can come to its end. -/
theorem reaper_accounts (reached : Reachable Step Guard start state) :
    (state.system.stray = 0 ∧ ∀ child ∈ state.system.children, child.owner = .other → child.signalled = false) ∧
      (∀ action next, action.own = true → state.Step action next → Kept state.system next.system) ∧
      (state.call = none → state.Matched) ∧
      (state.call = none → state.outcome = some .close → state.Cleared) ∧
      ∃ finish, Reachable Step Guard state finish ∧ finish.call = none := by
  have accounts := accounts_of_reachable reached
  refine ⟨⟨accounts.books.stray, fun child member isOther => ?_⟩, fun _ _ own taken => accounts.keeps own taken,
    accounts.matched, accounts.cleared, ?_⟩
  · obtain ⟨i, found⟩ := List.getElem?_of_mem member
    exact accounts.books.spares i child found isOther
  · exact exists_of_rank Nat.lt_wfRel.wf left (fun _ _ _ accounts guarded taken => accounts.step guarded taken)
      (fun before accounts busy => accounts.onward busy) accounts

/-- Two branches, one of which ends by itself, beside a child and a descriptor of others; a `kill`
is interrupted and the number of its process used again, then `close`. -/
def reusedNumber : List Action :=
  [.spawn "a" 7, .pidfdOpened 3, .spawn "b" 8, .pidfdOpened 4, .otherStarts 9, .otherOpens 5 none,
    .exit 0, .kill "a", .advance, .advance, .raise .interrupt, .advance, .otherStarts 7, .advance,
    .close, .advance, .exit 1, .advance, .advance, .advance, .advance, .advance]

theorem reusedNumber_cleared :
    (runFrom step start reusedNumber).system.children.length = 4 ∧ (runFrom step start reusedNumber).Cleared := by
  have reached : Reachable Step Guard start (runFrom step start reusedNumber) := reachable_runFrom (by decide) (by decide)
  exact ⟨by decide, (reaper_accounts reached).2.2.2.1 (by decide) rfl⟩

end State

end Agentfork.Kill.Reaper

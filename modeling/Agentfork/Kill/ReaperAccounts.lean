import Agentfork.Kill.ReaperBooks

/-! # No process, no pidfd and no signal goes astray

The invariant of all runs of `BranchReaper` beside the rest of its supervisor, and
what it gives: a `SIGKILL` goes to a child of the reaper only, a wait that may take
long is for a child that has got one, and once a `close` has gone through nothing
of the reaper is left. -/

namespace Agentfork.Kill.Reaper

open Children Transition

/-- The child has ended, or will without anybody's help. -/
def Doomed (child : Child Owner) : Prop := child.phase ≠ .running ∨ child.signalled = true

/-- What is known of the process and its child where a `kill` is. -/
def Place.Fits (place : Place) (proc : Popen) (child : Child Owner) : Prop :=
  match place with
  | .waitid => Doomed child
  | .wait => child.phase = .reaped
  | .waiting _ => proc.returned = false → Doomed child
  | .closing _ => proc.returned = true
  | .signal | .polling _ | .killing _ | .kv => True

namespace State

/-- The process that a `spawn` under way has started. -/
def starting (state : State) : Option Popen :=
  match state.call with
  | some (.opening _ proc) | some (.abandoning proc _) => some proc
  | some (.killing _ _ _) | none => none

/-- A `kill` of the branch is under way. -/
def Killing (state : State) (treeId : TreeId) : Prop := ∃ place rest, state.call = some (.killing treeId place rest)

structure Accounts (state : State) : Prop where
  books : Books state.system state.branches state.starting
  opening : ∀ treeId proc, state.call = some (.opening treeId proc) → treeId ∉ state.branches ∧ proc.returned = false
  abandoning : ∀ proc, state.call = some (.abandoning proc true) → proc.returned = false →
    ∃ i child, Starting state.system proc i child ∧ Doomed child
  killing : ∀ treeId place rest, state.call = some (.killing treeId place rest) → place ≠ .kv →
    ∃ proc fd i child, state.branches.get? treeId = some (proc, fd) ∧ Entry state.system proc fd i child ∧
      place.Fits proc child
  gone : ∀ treeId rest, state.call = some (.killing treeId .kv rest) → treeId ∉ state.branches
  rest : ∀ treeId place rest, state.call = some (.killing treeId place (some rest)) →
    ∀ other ∈ state.branches, other = treeId ∨ other ∈ rest
  -- a child loses its number unseen in a `kill` of its branch only
  held : ∀ treeId proc fd i child, state.branches.get? treeId = some (proc, fd) → Entry state.system proc fd i child →
    proc.returned = false → ¬ state.Killing treeId → child.Unreaped
  closed : ∀ outcome, state.outcome = some outcome → outcome = .close → ∀ treeId, treeId ∉ state.branches

variable {state next : State} {after : System Owner} {treeId : TreeId} {proc : Popen} {fd i k : Nat}
  {child : Child Owner} {place : Place} {rest : Option (List TreeId)} {failure : Failure}

theorem accounts_start : start.Accounts where
  books := books_start
  opening _ _ isCall := by cases isCall
  abandoning _ isCall := by cases isCall
  killing _ _ _ isCall := by cases isCall
  gone _ _ isCall := by cases isCall
  rest _ _ _ isCall := by cases isCall
  held _ _ _ _ _ found := by cases found
  closed _ isOutcome := by cases isOutcome

/-! ## Beside the call -/

/-- What happens to a child of the reaper beside the reaper. -/
structure Persists (child later : Child Owner) : Prop where
  reaped : later.phase = .reaped ↔ child.phase = .reaped
  doomed : Doomed child → Doomed later

theorem Persists.refl (child : Child Owner) : Persists child child := ⟨Iff.rfl, id⟩

theorem Persists.fits {later : Child Owner} (persists : Persists child later) (fits : place.Fits proc child) :
    place.Fits proc later := by
  cases place with
  | waitid => exact persists.doomed fits
  | wait => exact persists.reaped.2 fits
  | waiting raised => exact fun notReturned => persists.doomed (fits notReturned)
  | closing raised => exact fits
  | signal => trivial
  | polling raised => trivial
  | killing raised => trivial
  | kv => trivial

/-- A step of somebody else that leaves each child of the reaper to its branch or its `spawn`. -/
theorem Accounts.aside (accounts : state.Accounts) (books : Books after state.branches state.starting)
    (entries : ∀ treeId proc fd i child, state.branches.get? treeId = some (proc, fd) → Entry state.system proc fd i child →
      ∃ later, Entry after proc fd i later ∧ Persists child later)
    (starts : ∀ proc i child, Starting state.system proc i child →
      ∃ later, Starting after proc i later ∧ Persists child later) : ({ state with system := after } : State).Accounts where
  books := books
  opening := accounts.opening
  abandoning proc isCall notReturned := by
    obtain ⟨i, child, start, doomed⟩ := accounts.abandoning proc isCall notReturned
    obtain ⟨later, start, persists⟩ := starts proc i child start
    exact ⟨i, later, start, persists.doomed doomed⟩
  killing treeId place rest isCall notKv := by
    obtain ⟨proc, fd, i, child, here, entry, fits⟩ := accounts.killing treeId place rest isCall notKv
    obtain ⟨later, entry, persists⟩ := entries treeId proc fd i child here entry
    exact ⟨proc, fd, i, later, here, entry, persists.fits fits⟩
  gone := accounts.gone
  rest := accounts.rest
  held treeId proc fd i later here entry notReturned notKilling := by
    obtain ⟨j, child, before⟩ := accounts.books.entries treeId proc fd here
    obtain ⟨other, otherEntry, persists⟩ := entries treeId proc fd j child here before
    obtain rfl := entry.eq_of otherEntry rfl otherEntry.found
    exact fun reaped => accounts.held treeId proc fd j child here before notReturned notKilling (persists.reaped.1 reaped)
  closed := accounts.closed

theorem persists_ended : Persists child child.ended := by
  refine ⟨?_, fun doomed => ?_⟩ <;> unfold Child.ended
  · split
    · next running => simp [running]
    · rfl
  · split
    · exact .inl (by simp)
    · exact doomed

theorem Accounts.exit (accounts : state.Accounts) : ({ state with system := state.system.exit k } : State).Accounts := by
  refine accounts.aside (accounts.books.update ?_ ?_) ?_ ?_
  · intro child _ _
    unfold Child.ended
    split <;> rfl
  · intro _ _ start
    exact Child.unreaped_ended.2 start.unreaped
  · intro treeId proc fd i child _ entry
    refine ⟨_, entry.update k Child.ages_ended, ?_⟩
    split
    · exact persists_ended
    · exact Persists.refl child
  · intro proc i child start
    refine ⟨_, start.update k Child.ages_ended (Child.unreaped_ended.2 start.unreaped), ?_⟩
    split
    · exact persists_ended
    · exact Persists.refl child

theorem Accounts.otherStarts {pid : Nat} (accounts : state.Accounts) (forked : state.system.fork .other pid = some after)
    (guarded : state.Guard (.otherStarts pid)) : ({ state with system := after } : State).Accounts := by
  have fresh : ∀ treeId proc fd, state.branches.get? treeId = some (proc, fd) → proc.returned = false → proc.pid ≠ pid :=
    fun treeId proc fd here => guarded (proc, fd) (Dict.mem_values.2 ⟨treeId, here⟩)
  refine accounts.aside (accounts.books.otherStarts forked fresh) ?_ ?_
  · intro treeId proc fd i child here entry
    exact ⟨child, entry.fork forked (fresh treeId proc fd here), Persists.refl child⟩
  · intro proc i child start
    exact ⟨child, start.fork forked, Persists.refl child⟩

theorem Accounts.otherWaits {other : Child Owner} (accounts : state.Accounts)
    (found : state.system.children[k]? = some other) (notReaper : other.owner ≠ .reaper)
    (waited : state.system.waitChild k = some after) : ({ state with system := after } : State).Accounts := by
  obtain ⟨_, rfl⟩ | ⟨_, rfl⟩ := System.of_waitChild found waited
  · refine accounts.aside (accounts.books.update (fun _ _ _ => rfl) ?_) ?_ ?_
    · intro proc child start
      have same := found.symm.trans start.found
      exact absurd (Option.some.inj same ▸ start.owner) notReaper
    · intro treeId proc fd i child _ entry
      refine ⟨_, entry.update k Child.ages_collected, ?_⟩
      split
      · next here =>
        have same := found.symm.trans (here ▸ entry.found)
        exact absurd (Option.some.inj same ▸ entry.owner) notReaper
      · exact Persists.refl child
    · intro proc i child start
      have elsewhere : k ≠ i := by
        rintro rfl
        have same := found.symm.trans start.found
        exact notReaper (Option.some.inj same ▸ start.owner)
      refine ⟨child, ⟨?_, start.owner, start.pid, start.unreaped, start.bare⟩, Persists.refl child⟩
      rw [System.collect, System.getElem?_update, start.found, Option.map_some, if_neg elsewhere]
  · exact accounts

/-- Somebody else's descriptor is opened or closed. -/
theorem Accounts.otherDescriptors {later : Dict Nat (Owner × Option Nat)} (accounts : state.Accounts)
    (same : ∀ fd target, later.get? fd = some (.reaper, target) ↔
      state.system.descriptors.get? fd = some (.reaper, target)) :
    ({ state with system := { state.system with descriptors := later } } : State).Accounts := by
  refine accounts.aside (accounts.books.ofDescriptors same) ?_ ?_
  · intro treeId proc fd i child _ entry
    have isSame := ((same fd (some i)).2 entry.descriptor).trans entry.descriptor.symm
    exact ⟨child, entry.ofDescriptors isSame, Persists.refl child⟩
  · intro proc i child start
    exact ⟨child, { start with bare := fun fd here => start.bare fd ((same _ _).1 here) }, Persists.refl child⟩

/-! ## Between the calls -/

/-- The branches and the children while no call is under way. -/
structure Idle (system : System Owner) (branches : Dict TreeId (Popen × Nat)) : Prop where
  books : Books system branches none
  held : ∀ treeId proc fd i child, branches.get? treeId = some (proc, fd) → Entry system proc fd i child →
    proc.returned = false → child.Unreaped

theorem Accounts.idle (accounts : state.Accounts) (noCall : state.call = none) : Idle state.system state.branches where
  books := by
    have books := accounts.books
    rw [starting, noCall] at books
    exact books
  held treeId proc fd i child here entry notReturned := by
    refine accounts.held treeId proc fd i child here entry notReturned fun isKilling => ?_
    obtain ⟨place, rest, isCall⟩ := isKilling
    rw [noCall] at isCall
    cases isCall

theorem Idle.accounts (idle : Idle state.system state.branches) (noCall : state.call = none)
    (closed : ∀ outcome, state.outcome = some outcome → outcome = .close → ∀ treeId, treeId ∉ state.branches) :
    state.Accounts := by
  have none : ∀ call, state.call ≠ some call := by simp [noCall]
  have noStart : state.starting = .none := by rw [starting, noCall]
  exact {
    books := noStart ▸ idle.books
    opening := fun _ _ isCall => absurd isCall (none _)
    abandoning := fun _ isCall => absurd isCall (none _)
    killing := fun _ _ _ isCall => absurd isCall (none _)
    gone := fun _ _ isCall => absurd isCall (none _)
    rest := fun _ _ _ isCall => absurd isCall (none _)
    held := fun treeId proc fd i child here entry notReturned _ => idle.held treeId proc fd i child here entry notReturned
    closed := closed }

/-- A call has ended. -/
theorem Idle.finish {outcome : Outcome} (idle : Idle state.system state.branches)
    (closed : outcome = .close → ∀ treeId, treeId ∉ state.branches) : (state.finish outcome).Accounts := by
  refine Idle.accounts idle rfl fun other isOutcome => ?_
  cases isOutcome
  exact closed

/-- A `kill` begins. -/
theorem Idle.kill (idle : Idle state.system state.branches) (present : treeId ∈ state.branches)
    (cover : ∀ left, rest = some left → ∀ other ∈ state.branches, other = treeId ∨ other ∈ left)
    (closed : ∀ outcome, state.outcome = some outcome → outcome = .close → ∀ treeId, treeId ∉ state.branches) :
    (state.setCall (.killing treeId .signal rest)).Accounts where
  books := idle.books
  opening _ _ isCall := by cases isCall
  abandoning _ isCall := by cases isCall
  killing _ _ _ isCall _ := by
    cases isCall
    obtain ⟨⟨proc, fd⟩, here⟩ := Dict.mem_iff_get?.1 present
    obtain ⟨i, child, entry⟩ := idle.books.entries treeId proc fd here
    exact ⟨proc, fd, i, child, here, entry, trivial⟩
  gone _ _ isCall := by cases isCall
  rest _ _ left isCall := by
    cases isCall
    exact cover left rfl
  held anyId proc fd i child here entry notReturned _ := idle.held anyId proc fd i child here entry notReturned
  closed := closed

/-- A `kill` has the process and goes on to the cache. -/
theorem Idle.asksCache (idle : Idle state.system state.branches) (absent : treeId ∉ state.branches)
    (cover : ∀ left, rest = some left → ∀ other ∈ state.branches, other = treeId ∨ other ∈ left)
    (closed : ∀ outcome, state.outcome = some outcome → outcome = .close → ∀ treeId, treeId ∉ state.branches) :
    (state.setCall (.killing treeId .kv rest)).Accounts where
  books := idle.books
  opening _ _ isCall := by cases isCall
  abandoning _ isCall := by cases isCall
  killing _ _ _ isCall notKv := by
    cases isCall
    exact absurd rfl notKv
  gone _ _ isCall := by
    cases isCall
    exact absent
  rest _ _ left isCall := by
    cases isCall
    exact cover left rfl
  held anyId proc fd i child here entry notReturned _ := idle.held anyId proc fd i child here entry notReturned
  closed := closed

/-- The loop of `close`: all that there is, is left for it. -/
theorem Idle.closeRest (idle : Idle state.system state.branches) :
    ∀ {left : List TreeId}, (∀ other ∈ state.branches, other ∈ left) →
      (∀ outcome, state.outcome = some outcome → outcome = .close → ∀ treeId, treeId ∉ state.branches) →
      (state.closeRest left).Accounts := by
  intro left cover closed
  induction left with
  | nil => exact idle.finish fun _ treeId present => absurd (cover treeId present) List.not_mem_nil
  | cons treeId left inductionHypothesis =>
    unfold State.closeRest
    split
    · next present =>
      refine idle.kill present (fun rest isRest other member => ?_) closed
      cases isRest
      exact List.mem_cons.1 (cover other member)
    · next absent =>
      refine inductionHypothesis fun other member => ?_
      exact (List.mem_cons.1 (cover other member)).resolve_left fun same => absent (same ▸ member)

theorem Idle.killDone {result : Except Failure Unit} (idle : Idle state.system state.branches)
    (cover : ∀ left, rest = some left → ∀ other ∈ state.branches, other ∈ left)
    (closed : ∀ outcome, state.outcome = some outcome → outcome = .close → ∀ treeId, treeId ∉ state.branches) :
    (state.killDone result rest).Accounts := by
  unfold State.killDone
  split
  · exact idle.finish fun isClose => by cases isClose
  · exact idle.finish fun isClose => by cases isClose
  · exact idle.closeRest (cover _ rfl) closed

/-! ## Inside a `kill` -/

/-- A `kill` goes on to a later place; of the other branches' children none that has its number is changed. -/
theorem Accounts.moved {later : Place} {branches : Dict TreeId (Popen × Nat)} (accounts : state.Accounts)
    (isCall : state.call = some (.killing treeId place rest)) (present : treeId ∈ state.branches) (notKv : later ≠ .kv)
    (books : Books after branches none)
    (same : ∀ other, other ≠ treeId → branches.get? other = state.branches.get? other)
    (here : branches.get? treeId = some (proc, fd)) (entry : Entry after proc fd i child) (fits : later.Fits proc child)
    (others : ∀ otherId anyProc anyFd j other, otherId ≠ treeId → state.branches.get? otherId = some (anyProc, anyFd) →
      Entry state.system anyProc anyFd j other → other.Unreaped → after.children[j]? = some other)
    (descriptors : after.descriptors = state.system.descriptors) :
    State.Accounts ⟨after, branches, some (.killing treeId later rest), state.outcome⟩ where
  books := books
  opening _ _ isCall := by cases isCall
  abandoning _ isCall := by cases isCall
  killing _ _ _ isCall _ := by
    cases isCall
    exact ⟨proc, fd, i, child, here, entry, fits⟩
  gone _ _ isCall := by
    cases isCall
    exact absurd rfl notKv
  rest _ _ left isLater other member := by
    cases isLater
    by_cases isSame : other = treeId
    · exact .inl isSame
    · rw [Dict.mem_iff_get?] at member
      rw [same other isSame, ← Dict.mem_iff_get?] at member
      exact accounts.rest treeId place left isCall other member
  held otherId anyProc anyFd j other isBranch otherEntry notReturned notKilling := by
    by_cases isSame : otherId = treeId
    · subst isSame
      exact absurd ⟨later, rest, rfl⟩ notKilling
    · rw [same otherId isSame] at isBranch
      obtain ⟨k, old, before⟩ := accounts.books.entries otherId anyProc anyFd isBranch
      have unreaped := accounts.held otherId anyProc anyFd k old isBranch before notReturned fun isKilling => by
        obtain ⟨_, _, isKilling⟩ := isKilling
        rw [isCall] at isKilling
        cases isKilling
        exact isSame rfl
      have kept := others otherId anyProc anyFd k old isSame isBranch before unreaped
      exact otherEntry.eq_of before (by rw [descriptors]) kept ▸ unreaped
  closed outcome isOutcome isClose := absurd present (accounts.closed outcome isOutcome isClose treeId)

theorem Accounts.starting_eq_none (isCall : state.call = some (.killing treeId place rest)) : state.starting = none := by
  rw [starting, isCall]

/-- What the other branches' children are as long as only the child `i` changes. -/
theorem Accounts.others_update {change : Child Owner → Child Owner} {ages : Child.Ages change} (accounts : state.Accounts)
    (here : state.branches.get? treeId = some (proc, fd)) (entry : Entry state.system proc fd i child) :
    ∀ otherId anyProc anyFd j other, otherId ≠ treeId → state.branches.get? otherId = some (anyProc, anyFd) →
      Entry state.system anyProc anyFd j other → other.Unreaped →
        (state.system.update i change ages).children[j]? = some other := by
  intro otherId anyProc anyFd j other notSame isBranch otherEntry unreaped
  have apart := (accounts.books.apart here entry isBranch otherEntry notSame unreaped).1
  rw [System.getElem?_update, otherEntry.found, Option.map_some, if_neg apart]

/-- A method of the process object leaves the other branches' children as they are. -/
theorem Accounts.others_poll (accounts : state.Accounts) (here : state.branches.get? treeId = some (proc, fd))
    (entry : Entry state.system proc fd i child) :
    ∀ otherId anyProc anyFd j other, otherId ≠ treeId → state.branches.get? otherId = some (anyProc, anyFd) →
      Entry state.system anyProc anyFd j other → other.Unreaped →
        (proc.poll state.system).2.children[j]? = some other := by
  intro otherId anyProc anyFd j other notSame isBranch otherEntry unreaped
  have apart := (accounts.books.apart here entry isBranch otherEntry notSame unreaped).2
  exact poll_frame otherEntry.found fun notReturned _ => apart notReturned

theorem Accounts.polled {later : Place} (accounts : state.Accounts)
    (isCall : state.call = some (.killing treeId place rest)) (here : state.branches.get? treeId = some (proc, fd))
    (entry : Entry state.system proc fd i child) (notKv : later ≠ .kv)
    (fits : ∀ child, later.Fits (proc.poll state.system).1 child) :
    ((state.setProc treeId fd (proc.poll state.system)).setCall (.killing treeId later rest)).Accounts := by
  have books := accounts.books
  rw [Accounts.starting_eq_none isCall] at books
  obtain ⟨after, j, other, later, _⟩ := books.poll here
  refine accounts.moved isCall (Dict.mem_of_get? here) notKv after (fun other notSame => ?_) ?_ later (fits other)
    (accounts.others_poll here entry) (poll_descriptors proc state.system).1
  · exact (Dict.get?_insert ..).trans (if_neg notSame)
  · exact (Dict.get?_insert ..).trans (if_pos rfl)

/-- The branch of the `kill` has gone. -/
theorem Accounts.idle_erased (accounts : state.Accounts) (isCall : state.call = some (.killing treeId place rest))
    (here : state.branches.get? treeId = some (proc, fd)) (returned : proc.returned = true) :
    Idle (state.system.closeHandle fd) (state.branches.erase treeId) where
  books := by
    have books := accounts.books
    rw [Accounts.starting_eq_none isCall] at books
    exact books.closed here returned
  held otherId anyProc anyFd j other isBranch entry notReturned := by
    rw [Dict.get?_erase] at isBranch
    split at isBranch
    · cases isBranch
    · next notSame =>
      obtain ⟨k, old, before⟩ := accounts.books.entries otherId anyProc anyFd isBranch
      have unreaped := accounts.held otherId anyProc anyFd k old isBranch before notReturned fun isKilling => by
        obtain ⟨_, _, isKilling⟩ := isKilling
        rw [isCall] at isKilling
        cases isKilling
        exact notSame rfl
      have isOpen := entry.descriptor
      simp only [System.closeHandle, Dict.get?_erase] at isOpen
      split at isOpen
      · cases isOpen
      · next elsewhere =>
        have same : (state.system.closeHandle fd).descriptors.get? anyFd = state.system.descriptors.get? anyFd :=
          (Dict.get?_erase ..).trans (if_neg elsewhere)
        exact entry.eq_of before same before.found ▸ unreaped

theorem Accounts.killStep (accounts : state.Accounts) (isCall : state.call = some (.killing treeId place rest))
    (notKv : place ≠ .kv) (here : state.branches.get? treeId = some (proc, fd))
    (taken : state.killStep treeId rest proc fd place = some next) : next.Accounts := by
  obtain ⟨_, _, i, child, isHere, entry, fits⟩ := accounts.killing treeId place rest isCall notKv
  rw [here, Option.some.injEq, Prod.mk.injEq] at isHere
  obtain ⟨rfl, rfl⟩ := isHere
  have present := Dict.mem_of_get? here
  have books := accounts.books
  rw [Accounts.starting_eq_none isCall] at books
  have target : state.target fd = some i := by simp [State.target, entry.descriptor]
  cases place with
  | signal =>
    simp only [State.killStep, target, Option.some.injEq] at taken
    subst taken
    have later := entry.update i Child.ages_killed
    rw [if_pos rfl] at later
    refine accounts.moved isCall present (by simp) (books.update ?_ ?_) (fun _ _ => rfl) here later ?_
      (accounts.others_update here entry) rfl
    · intro other found notReaper
      have isReaper := Option.some.inj (found.symm.trans entry.found) ▸ entry.owner
      rw [notReaper] at isReaper
      cases isReaper
    · intro _ _ start
      exact absurd entry.descriptor (start.bare _)
    · unfold Place.Fits Doomed Child.killed
      grind
  | waitid =>
    simp only [State.killStep, target, Option.map_eq_some_iff] at taken
    obtain ⟨after, waited, rfl⟩ := taken
    obtain ⟨_, rfl⟩ | ⟨reaped, rfl⟩ := System.of_waitChild entry.found waited
    · have later := entry.update i Child.ages_collected
      rw [if_pos rfl] at later
      refine accounts.moved isCall present (by simp) (books.update (fun _ _ _ => rfl) ?_) (fun _ _ => rfl) here later rfl
        (accounts.others_update here entry) rfl
      intro _ _ start
      exact absurd entry.descriptor (start.bare _)
    · exact accounts.moved isCall present (by simp) books (fun _ _ => rfl) here entry reaped
        (fun _ _ _ _ _ _ _ otherEntry _ => otherEntry.found) rfl
  | wait =>
    simp only [State.killStep, Option.map_eq_some_iff] at taken
    obtain ⟨result, waited, rfl⟩ := taken
    obtain ⟨rfl, _⟩ := of_wait waited
    exact accounts.polled isCall here entry (by simp) fun _ => trivial
  | polling raised =>
    simp only [State.killStep, Option.some.injEq] at taken
    subst taken
    cases returned : (proc.poll state.system).1.returned with
    | true => exact accounts.polled isCall here entry (by simp) fun _ => returned
    | false => exact accounts.polled isCall here entry (by simp) fun _ => trivial
  | killing raised =>
    simp only [State.killStep, Option.some.injEq] at taken
    subst taken
    obtain ⟨after, j, other, later, signalled⟩ := books.kill here
    refine accounts.moved isCall present (by simp) after (fun other notSame => ?_) ?_ later
      (fun notReturned => .inr (signalled notReturned)) ?_ (kill_descriptors proc state.system)
    · exact (Dict.get?_insert ..).trans (if_neg notSame)
    · exact (Dict.get?_insert ..).trans (if_pos rfl)
    · intro otherId anyProc anyFd k child notSame isBranch otherEntry unreaped
      have apart := (accounts.books.apart here entry isBranch otherEntry notSame unreaped).2
      exact kill_frame otherEntry.found fun notReturned _ => apart notReturned
  | waiting raised =>
    simp only [State.killStep, Option.map_eq_some_iff] at taken
    obtain ⟨result, waited, rfl⟩ := taken
    obtain ⟨rfl, returned⟩ := of_wait waited
    exact accounts.polled isCall here entry (by simp) fun _ => returned
  | closing raised =>
    have idle := accounts.idle_erased isCall here fits
    have closed : ∀ outcome, state.outcome = some outcome → outcome = .close → ∀ other, other ∉ state.branches.erase treeId :=
      fun outcome isOutcome isClose => absurd present (accounts.closed outcome isOutcome isClose treeId)
    have cover : ∀ left, rest = some left → ∀ other ∈ state.branches.erase treeId, other ∈ left := by
      intro left isLeft other member
      obtain ⟨notSame, member⟩ := Dict.mem_erase.1 member
      exact (accounts.rest treeId _ left (isLeft ▸ isCall) other member).resolve_left notSame
    cases raised with
    | none =>
      simp only [State.killStep, Option.some.injEq] at taken
      subst taken
      exact idle.asksCache (by simp) (fun left isLeft other member => .inr (cover left isLeft other member)) closed
    | some failure =>
      simp only [State.killStep, Option.some.injEq] at taken
      subst taken
      exact Idle.killDone idle cover closed
  | kv => exact absurd rfl notKv

/-! ## A `spawn` -/

theorem Accounts.spawn {pid : Nat} (accounts : state.Accounts) (noCall : state.call = none)
    (absent : treeId ∉ state.branches) (forked : state.system.fork .reaper pid = some after) :
    State.Accounts ⟨after, state.branches, some (.opening treeId ⟨pid, false⟩), state.outcome⟩ := by
  have idle := accounts.idle noCall
  -- the number is free, and a process that is not known to have ended has its own
  have fresh : ∀ treeId proc fd, state.branches.get? treeId = some (proc, fd) → proc.returned = false → proc.pid ≠ pid := by
    intro treeId proc fd here notReturned
    obtain ⟨i, child, entry⟩ := idle.books.entries treeId proc fd here
    have unreaped := idle.held treeId proc fd i child here entry notReturned
    have free := System.holder_eq_none.1 (System.fork_eq_some forked).1
    exact entry.pid ▸ free child (List.mem_of_getElem? entry.found) unreaped
  refine ⟨idle.books.launched forked fresh, ?_, ?_, ?_, ?_, ?_, ?_, accounts.closed⟩
  · intro _ _ isCall
    cases isCall
    exact ⟨absent, rfl⟩
  · intro _ isCall
    cases isCall
  · intro _ _ _ isCall
    cases isCall
  · intro _ _ isCall
    cases isCall
  · intro _ _ _ isCall
    cases isCall
  · intro anyId anyProc anyFd i child here entry notReturned _
    obtain ⟨j, old, before⟩ := idle.books.entries anyId anyProc anyFd here
    have unreaped := idle.held anyId anyProc anyFd j old here before notReturned
    have later := before.fork forked (fresh anyId anyProc anyFd here)
    exact entry.eq_of later rfl later.found ▸ unreaped

/-- The branches beside a `spawn` under way. -/
theorem Accounts.held_starting (accounts : state.Accounts) (isStarting : state.starting = some proc) :
    ∀ treeId other fd i child, state.branches.get? treeId = some (other, fd) → Entry state.system other fd i child →
      other.returned = false → child.Unreaped := by
  intro treeId other fd i child here entry notReturned
  refine accounts.held treeId other fd i child here entry notReturned fun isKilling => ?_
  obtain ⟨place, rest, isCall⟩ := isKilling
  rw [starting, isCall] at isStarting
  cases isStarting

/-- The handler of a `spawn` polls or kills its process: no branch's child is changed. -/
theorem Accounts.held_abandoning (accounts : state.Accounts) (isStarting : state.starting = some proc)
    (descriptors : after.descriptors = state.system.descriptors)
    (frame : ∀ (j : Nat) other, state.system.children[j]? = some other →
      (proc.returned = false → other.Unreaped → other.pid ≠ proc.pid) → after.children[j]? = some other) :
    ∀ treeId other fd i child, state.branches.get? treeId = some (other, fd) → Entry after other fd i child →
      other.returned = false → child.Unreaped := by
  intro treeId other fd i child here entry notReturned
  have books := accounts.books
  rw [isStarting] at books
  obtain ⟨j, old, before⟩ := books.entries treeId other fd here
  have unreaped := accounts.held_starting isStarting treeId other fd j old here before notReturned
  have kept := frame j old before.found fun notReturned => books.apart_starting notReturned before
  exact entry.eq_of before (by rw [descriptors]) kept ▸ unreaped

theorem Accounts.abandoned (accounts : state.Accounts) (isCall : state.call = some (.abandoning proc false)) :
    State.Accounts ⟨(proc.kill state.system).2, state.branches, some (.abandoning (proc.kill state.system).1 true),
      state.outcome⟩ := by
  have isStarting : state.starting = some proc := by rw [starting, isCall]
  have books := accounts.books
  rw [isStarting] at books
  obtain ⟨killed, signalled⟩ := books.killStarting
  refine ⟨killed, ?_, ?_, ?_, ?_, ?_, ?_, accounts.closed⟩
  · intro _ _ isCall
    cases isCall
  · intro _ isCall notReturned
    cases isCall
    obtain ⟨i, child, start, isSignalled⟩ := signalled notReturned
    exact ⟨i, child, start, .inr isSignalled⟩
  · intro _ _ _ isCall
    cases isCall
  · intro _ _ isCall
    cases isCall
  · intro _ _ _ isCall
    cases isCall
  · intro treeId other fd i child here entry notReturned _
    exact accounts.held_abandoning isStarting (kill_descriptors proc state.system)
      (fun _ _ found apart => kill_frame found apart) treeId other fd i child here entry notReturned

theorem Accounts.pidfdFailed (accounts : state.Accounts) (isCall : state.call = some (.opening treeId proc)) :
    (state.setCall (.abandoning proc false)).Accounts := by
  have isStarting : state.starting = some proc := by rw [starting, isCall]
  have books := accounts.books
  rw [isStarting] at books
  refine ⟨books, ?_, ?_, ?_, ?_, ?_, ?_, accounts.closed⟩
  · intro _ _ isCall
    cases isCall
  · intro _ isCall
    cases isCall
  · intro _ _ _ isCall
    cases isCall
  · intro _ _ isCall
    cases isCall
  · intro _ _ _ isCall
    cases isCall
  · intro anyId other fd i child here entry notReturned _
    exact accounts.held_starting isStarting anyId other fd i child here entry notReturned

/-- A `spawn` has failed and its process is waited for. -/
theorem Accounts.failed (accounts : state.Accounts) (isCall : state.call = some (.abandoning proc true))
    (returned : (proc.poll state.system).1.returned = true) :
    (({ state with system := (proc.poll state.system).2 } : State).finish (.spawn none)).Accounts := by
  have isStarting : state.starting = some proc := by rw [starting, isCall]
  have books := accounts.books
  rw [isStarting] at books
  have idle : Idle (proc.poll state.system).2 state.branches := ⟨books.pollStarting.1.forget returned,
    accounts.held_abandoning isStarting (poll_descriptors proc state.system).1 fun _ _ found apart => poll_frame found apart⟩
  exact Idle.finish idle fun isClose => by cases isClose

/-- A `spawn` has the pidfd of its child. -/
theorem Accounts.opened (accounts : state.Accounts) (isCall : state.call = some (.opening treeId proc))
    (held : state.system.holder proc.pid = some i) (free : fd ∉ state.system.descriptors) :
    (({ state with
      system := { state.system with descriptors := state.system.descriptors.insert fd (.reaper, some i) }
      branches := state.branches.insert treeId (proc, fd) } : State).finish (.spawn (some proc.pid))).Accounts := by
  have isStarting : state.starting = some proc := by rw [starting, isCall]
  obtain ⟨absent, notReturned⟩ := accounts.opening treeId proc isCall
  have books := accounts.books
  rw [isStarting] at books
  obtain ⟨j, child, start⟩ := books.starts proc rfl notReturned
  have isHolder := System.holder_of start.found start.unreaped
  rw [start.pid, held, Option.some.injEq] at isHolder
  subst isHolder
  have later := books.opened start notReturned absent free
  refine Idle.finish ⟨later, ?_⟩ fun isClose => by cases isClose
  intro anyId anyProc anyFd k other here entry anyNotReturned
  rw [Dict.get?_insert] at here
  split at here
  · cases here
    have isTarget := entry.descriptor
    simp only [Dict.get?_insert, if_true, Option.some.injEq, Prod.mk.injEq, true_and] at isTarget
    subst isTarget
    exact Option.some.inj (start.found.symm.trans entry.found) ▸ start.unreaped
  · obtain ⟨j, old, before⟩ := books.entries anyId anyProc anyFd here
    have unreaped := accounts.held_starting isStarting anyId anyProc anyFd j old here before anyNotReturned
    have elsewhere : anyFd ≠ fd := by
      rintro rfl
      exact free (Dict.mem_of_get? before.descriptor)
    exact entry.eq_of before (by simp [elsewhere]) before.found ▸ unreaped

/-! ## Steps -/

/-- A `kill` that asks the cache has nothing of its branch any more. -/
theorem Accounts.idle_kv (accounts : state.Accounts) (isCall : state.call = some (.killing treeId .kv rest)) :
    Idle state.system state.branches ∧ ∀ left, rest = some left → ∀ other ∈ state.branches, other ∈ left := by
  have absent := accounts.gone treeId rest isCall
  have books := accounts.books
  rw [Accounts.starting_eq_none isCall] at books
  refine ⟨⟨books, ?_⟩, ?_⟩
  · intro anyId proc fd i child here entry notReturned
    refine accounts.held anyId proc fd i child here entry notReturned fun isKilling => ?_
    obtain ⟨_, _, isKilling⟩ := isKilling
    rw [isCall] at isKilling
    cases isKilling
    exact absent (Dict.mem_of_get? here)
  · intro left isLeft other member
    refine (accounts.rest treeId _ left (isLeft ▸ isCall) other member).resolve_left ?_
    rintro rfl
    exact absent member

theorem of_advance (isCall : state.call = some (.killing treeId place rest)) (notKv : place ≠ .kv)
    (taken : state.advance = some next) :
    ∃ proc fd, state.branches.get? treeId = some (proc, fd) ∧ state.killStep treeId rest proc fd place = some next := by
  have stepped : ((state.branches.get? treeId).bind fun entry => state.killStep treeId rest entry.1 entry.2 place) =
      some next := by
    rw [State.advance, isCall] at taken
    cases place <;> first | exact taken | exact absurd rfl notKv
  obtain ⟨⟨proc, fd⟩, here, stepped⟩ := Option.bind_eq_some_iff.1 stepped
  exact ⟨proc, fd, here, stepped⟩

theorem Accounts.advance (accounts : state.Accounts) (advanced : state.advance = some next) : next.Accounts := by
  obtain ⟨call, isCall, taken⟩ := Option.bind_eq_some_iff.1 advanced
  cases call with
  | opening treeId proc => cases taken
  | abandoning proc killed =>
    cases killed with
    | false =>
      cases taken
      exact accounts.abandoned isCall
    | true =>
      obtain ⟨result, waited, rfl⟩ := Option.map_eq_some_iff.1 taken
      obtain ⟨rfl, returned⟩ := of_wait waited
      exact accounts.failed isCall returned
  | killing treeId place rest =>
    by_cases isKv : place = .kv
    · subst isKv
      cases taken
      obtain ⟨idle, cover⟩ := accounts.idle_kv isCall
      exact idle.killDone cover accounts.closed
    · obtain ⟨proc, fd, here, stepped⟩ := of_advance isCall isKv advanced
      exact accounts.killStep isCall isKv here stepped

/-- The `try` of a `kill` is left with what has been raised. -/
theorem Accounts.leaveTry (accounts : state.Accounts) (isCall : state.call = some (.killing treeId place rest))
    (notKv : place ≠ .kv) (failure : Failure) :
    (state.setCall (.killing treeId (.polling (some failure)) rest)).Accounts := by
  obtain ⟨proc, fd, i, child, here, entry, _⟩ := accounts.killing treeId place rest isCall notKv
  have books := accounts.books
  rw [Accounts.starting_eq_none isCall] at books
  exact accounts.moved isCall (Dict.mem_of_get? here) (by simp) books (fun _ _ => rfl) here entry trivial
    (fun _ _ _ _ _ _ _ otherEntry _ => otherEntry.found) rfl

theorem Accounts.raise (accounts : state.Accounts) (taken : state.raise failure = some next) : next.Accounts := by
  obtain ⟨call, isCall, taken⟩ := Option.bind_eq_some_iff.1 taken
  split at taken
  · cases taken
    exact accounts.leaveTry isCall (by simp) failure
  · cases taken
    exact accounts.leaveTry isCall (by simp) failure
  · cases taken
    exact accounts.leaveTry isCall (by simp) failure
  · cases taken
    obtain ⟨idle, cover⟩ := accounts.idle_kv isCall
    exact idle.killDone cover accounts.closed
  · cases taken

/-- `alive` polls a branch's process. -/
theorem Accounts.alive (accounts : state.Accounts) (noCall : state.call = none)
    (here : state.branches.get? treeId = some (proc, fd)) :
    (state.setProc treeId fd (proc.poll state.system)).Accounts := by
  have idle := accounts.idle noCall
  obtain ⟨polled, i, child, entry, running⟩ := idle.books.poll here
  have present := Dict.mem_of_get? here
  refine Idle.accounts ⟨polled, ?_⟩ noCall fun outcome isOutcome isClose =>
    absurd present (accounts.closed outcome isOutcome isClose treeId)
  intro anyId anyProc anyFd j other isBranch otherEntry notReturned
  obtain isBranch := (Dict.get?_insert ..).symm.trans isBranch
  split at isBranch
  · cases isBranch
    obtain rfl := otherEntry.eq_of entry rfl entry.found
    simp [Child.Unreaped, running notReturned]
  · next notSame =>
    obtain ⟨_, _, mine⟩ := accounts.books.entries treeId proc fd here
    obtain ⟨k, old, before⟩ := accounts.books.entries anyId anyProc anyFd isBranch
    have unreaped := idle.held anyId anyProc anyFd k old isBranch before notReturned
    have kept := accounts.others_poll here mine anyId anyProc anyFd k old notSame isBranch before unreaped
    have descriptors := (poll_descriptors proc state.system).1
    exact otherEntry.eq_of before (congrArg (fun table => table.get? anyFd) descriptors) kept ▸ unreaped

theorem Accounts.step {action : Action} (accounts : state.Accounts) (guarded : state.Guard action)
    (taken : state.Step action next) : next.Accounts := by
  cases action with
  | spawn treeId pid =>
    simp only [Step, State.step] at taken
    split at taken
    · cases taken
    · next noCall =>
      have noCall := Option.not_isSome_iff_eq_none.1 noCall
      split at taken
      · cases taken
        exact (accounts.idle noCall).finish fun isClose => by cases isClose
      · next absent =>
        obtain ⟨after, forked, rfl⟩ := Option.map_eq_some_iff.1 taken
        exact accounts.spawn noCall absent forked
  | pidfdOpened fd =>
    simp only [Step, State.step] at taken
    split at taken
    · next treeId proc isCall =>
      obtain ⟨i, held, taken⟩ := Option.bind_eq_some_iff.1 taken
      obtain ⟨after, isOpen, rfl⟩ := Option.map_eq_some_iff.1 taken
      obtain ⟨free, rfl⟩ := System.of_openHandle isOpen
      exact accounts.opened isCall held free
    · cases taken
  | pidfdFailed =>
    simp only [Step, State.step] at taken
    split at taken
    · next treeId proc isCall =>
      cases taken
      exact accounts.pidfdFailed isCall
    · cases taken
  | kill treeId =>
    simp only [Step, State.step] at taken
    split at taken
    · cases taken
    · next noCall =>
      have idle := accounts.idle (Option.not_isSome_iff_eq_none.1 noCall)
      split at taken
      · next present =>
        cases taken
        exact idle.kill present (fun _ isRest => by cases isRest) accounts.closed
      · cases taken
        exact idle.finish fun isClose => by cases isClose
  | close =>
    simp only [Step, State.step] at taken
    split at taken
    · cases taken
    · next noCall =>
      cases taken
      exact (accounts.idle (Option.not_isSome_iff_eq_none.1 noCall)).closeRest (fun _ member => member) accounts.closed
  | alive treeId =>
    simp only [Step, State.step] at taken
    split at taken
    · cases taken
    · next noCall =>
      cases taken
      split
      · next proc fd here => exact accounts.alive (Option.not_isSome_iff_eq_none.1 noCall) here
      · exact accounts
  | advance => exact accounts.advance taken
  | raise failure => exact accounts.raise taken
  | exit child =>
    cases taken
    exact accounts.exit
  | otherStarts pid =>
    obtain ⟨after, forked, rfl⟩ := Option.map_eq_some_iff.1 taken
    exact accounts.otherStarts forked guarded
  | otherWaits child =>
    simp only [Step, State.step] at taken
    split at taken
    · next found =>
      obtain ⟨after, waited, rfl⟩ := Option.map_eq_some_iff.1 taken
      exact accounts.otherWaits found (by simp) waited
    · cases taken
  | otherOpens fd target =>
    obtain ⟨after, isOpen, rfl⟩ := Option.map_eq_some_iff.1 taken
    obtain ⟨free, rfl⟩ := System.of_openHandle isOpen
    refine accounts.otherDescriptors fun anyFd target => ?_
    rw [Dict.get?_insert]
    split
    · next same => simp [same, Dict.get?_eq_none.2 free]
    · rfl
  | otherCloses fd =>
    simp only [Step, State.step] at taken
    split at taken
    · next isOther =>
      cases taken
      refine accounts.otherDescriptors fun anyFd target => ?_
      rw [Dict.get?_erase]
      split
      · next same => simp [same, isOther]
      · rfl
    · cases taken

end State

end Agentfork.Kill.Reaper

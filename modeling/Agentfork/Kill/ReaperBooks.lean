import Agentfork.Kill.ReaperCalls

/-! # The branches of the reaper and the children that the supervisor has

Each branch is kept with a pidfd on a child of the reaper, each pidfd of the reaper
is a branch's, and each child of the reaper that nobody has waited for has one,
unless the `spawn` that has started it is still under way. `Popen` may name a child
by its number because that is the child's own, or nobody's. -/

namespace Agentfork.Kill.Reaper

open Children

/-- The process and the pidfd of a branch are about the child. -/
structure Entry (system : System Owner) (proc : Popen) (fd i : Nat) (child : Child Owner) : Prop where
  descriptor : system.descriptors.get? fd = some (.reaper, some i)
  found : system.children[i]? = some child
  owner : child.owner = .reaper
  pid : child.pid = proc.pid
  returned : proc.returned = true → child.phase = .reaped
  number : proc.returned = false → child.phase = .reaped → system.holder proc.pid = none

/-- A pidfd that is left alone is on the child that it was on. -/
theorem Entry.eq_of {system after : System Owner} {proc other : Popen} {fd i j : Nat} {child old : Child Owner}
    (entry : Entry after proc fd i child) (before : Entry system other fd j old)
    (same : after.descriptors.get? fd = system.descriptors.get? fd) (kept : after.children[j]? = some old) :
    child = old := by
  have isTarget := (same ▸ entry.descriptor).symm.trans before.descriptor
  simp only [Option.some.injEq, Prod.mk.injEq, true_and] at isTarget
  subst isTarget
  exact Option.some.inj (entry.found.symm.trans kept)

/-- The child of a `spawn` that is under way. -/
structure Starting (system : System Owner) (proc : Popen) (i : Nat) (child : Child Owner) : Prop where
  found : system.children[i]? = some child
  owner : child.owner = .reaper
  pid : child.pid = proc.pid
  unreaped : child.Unreaped
  bare : ∀ fd, system.descriptors.get? fd ≠ some (.reaper, some i)

structure Books (system : System Owner) (branches : Dict TreeId (Popen × Nat)) (starting : Option Popen) : Prop where
  entries : ∀ treeId proc fd, branches.get? treeId = some (proc, fd) → ∃ i child, Entry system proc fd i child
  ids : ∀ first second one two fd, branches.get? first = some (one, fd) → branches.get? second = some (two, fd) →
    first = second
  alone : ∀ first second i, system.descriptors.get? first = some (.reaper, some i) →
    system.descriptors.get? second = some (.reaper, some i) → first = second
  handles : ∀ fd target, system.descriptors.get? fd = some (.reaper, target) →
    ∃ treeId proc, branches.get? treeId = some (proc, fd)
  tracked : ∀ (i : Nat) child, system.children[i]? = some child → child.owner = .reaper → child.Unreaped →
    (∃ fd, system.descriptors.get? fd = some (.reaper, some i)) ∨
      ∃ proc, starting = some proc ∧ proc.returned = false ∧ proc.pid = child.pid
  starts : ∀ proc, starting = some proc → proc.returned = false → ∃ i child, Starting system proc i child
  spares : ∀ (i : Nat) child, system.children[i]? = some child → child.owner = .other → child.signalled = false
  stray : system.stray = 0

variable {system after : System Owner} {branches : Dict TreeId (Popen × Nat)} {starting : Option Popen}
  {treeId : TreeId} {proc other : Popen} {fd i k : Nat} {child : Child Owner} {change : Child Owner → Child Owner}
  {ages : Child.Ages change}

theorem books_start : Books .empty .empty none where
  entries _ _ _ found := by cases found
  ids _ _ _ _ _ found := by cases found
  alone _ _ _ found := by cases found
  handles _ _ found := by cases found
  tracked _ _ found := by cases found
  starts _ isStarting := by cases isStarting
  spares _ _ found := by cases found
  stray := rfl

/-! ## A child changes -/

theorem reaped_of_ages (ages : Child.Ages change) (reaped : child.phase = .reaped) : (change child).phase = .reaped :=
  Classical.byContradiction fun unreaped => ages.unreaped child unreaped reaped

theorem Entry.update (entry : Entry system proc fd i child) (k : Nat) (ages : Child.Ages change) :
    Entry (system.update k change ages) proc fd i (if k = i then change child else child) where
  descriptor := entry.descriptor
  found := by rw [System.getElem?_update, entry.found, Option.map_some]
  owner := by
    split
    · rw [ages.owner, entry.owner]
    · exact entry.owner
  pid := by
    split
    · rw [ages.pid, entry.pid]
    · exact entry.pid
  returned returned := by
    split
    · exact reaped_of_ages ages (entry.returned returned)
    · exact entry.returned returned
  number notReturned reaped := by
    by_cases old : child.phase = .reaped
    · exact System.holder_update_eq_none (entry.number notReturned old)
    · split at reaped
      · next here =>
        subst here
        exact entry.pid ▸ System.holder_of_reaped entry.found old reaped
      · exact absurd reaped old

theorem Starting.update (start : Starting system proc i child) (k : Nat) (ages : Child.Ages change)
    (kept : (change child).Unreaped) :
    Starting (system.update k change ages) proc i (if k = i then change child else child) where
  found := by rw [System.getElem?_update, start.found, Option.map_some]
  owner := by
    split
    · rw [ages.owner, start.owner]
    · exact start.owner
  pid := by
    split
    · rw [ages.pid, start.pid]
    · exact start.pid
  unreaped := by
    split
    · exact kept
    · exact start.unreaped
  bare := start.bare

/-- A child that a branch is kept with, or that is not the reaper's, grows older; no child of others is signalled. -/
theorem Books.update (books : Books system branches starting)
    (spared : ∀ child, system.children[k]? = some child → child.owner = .other →
      (change child).signalled = child.signalled)
    (kept : ∀ proc child, Starting system proc k child → (change child).Unreaped) :
    Books (system.update k change ages) branches starting where
  entries treeId proc fd here := by
    obtain ⟨i, child, entry⟩ := books.entries treeId proc fd here
    exact ⟨i, _, entry.update k ages⟩
  ids := books.ids
  alone := books.alone
  handles := books.handles
  tracked j later found owner unreaped := by
    rw [System.getElem?_update, Option.map_eq_some_iff] at found
    obtain ⟨child, found, rfl⟩ := found
    by_cases here : k = j
    · rw [if_pos here] at owner unreaped ⊢
      rw [ages.pid]
      exact books.tracked j child found ((ages.owner child).symm.trans owner) (ages.unreaped child unreaped)
    · rw [if_neg here] at owner unreaped ⊢
      exact books.tracked j child found owner unreaped
  starts proc isStarting notReturned := by
    obtain ⟨i, child, start⟩ := books.starts proc isStarting notReturned
    by_cases here : k = i
    · exact ⟨i, _, start.update k ages (kept proc child (here ▸ start))⟩
    · refine ⟨i, child, ?_, start.owner, start.pid, start.unreaped, start.bare⟩
      rw [System.getElem?_update, start.found, Option.map_some, if_neg here]
  spares j later found owner := by
    rw [System.getElem?_update, Option.map_eq_some_iff] at found
    obtain ⟨child, found, rfl⟩ := found
    by_cases here : k = j
    · rw [if_pos here] at owner ⊢
      have isOther := (ages.owner child).symm.trans owner
      rw [spared child (here ▸ found) isOther]
      exact books.spares j child found isOther
    · rw [if_neg here] at owner ⊢
      exact books.spares j child found owner
  stray := books.stray

/-- A branch's process object is set to another one about the same child. -/
theorem Books.replace (books : Books system branches starting) (here : branches.get? treeId = some (other, fd))
    (entry : Entry system proc fd i child) : Books system (branches.insert treeId (proc, fd)) starting where
  entries anyId anyProc anyFd found := by
    rw [Dict.get?_insert] at found
    split at found
    · cases found
      exact ⟨i, child, entry⟩
    · exact books.entries anyId anyProc anyFd found
  ids first second one two anyFd isFirst isSecond := by
    have keeps : ∀ anyId anyProc, (branches.insert treeId (proc, fd)).get? anyId = some (anyProc, anyFd) →
        ∃ oldProc, branches.get? anyId = some (oldProc, anyFd) := by
      intro anyId anyProc found
      rw [Dict.get?_insert] at found
      split at found
      · next same =>
        cases found
        exact ⟨other, same ▸ here⟩
      · exact ⟨anyProc, found⟩
    obtain ⟨_, isFirst⟩ := keeps first one isFirst
    obtain ⟨_, isSecond⟩ := keeps second two isSecond
    exact books.ids _ _ _ _ _ isFirst isSecond
  alone := books.alone
  handles anyFd target found := by
    obtain ⟨anyId, anyProc, isBranch⟩ := books.handles anyFd target found
    by_cases same : anyId = treeId
    · subst same
      rw [here, Option.some.injEq, Prod.mk.injEq] at isBranch
      exact ⟨anyId, proc, by rw [Dict.get?_insert, if_pos rfl, isBranch.2]⟩
    · exact ⟨anyId, anyProc, by rw [Dict.get?_insert, if_neg same, isBranch]⟩
  tracked := books.tracked
  starts := books.starts
  spares := books.spares
  stray := books.stray

/-! ## `Popen` names a child by its number -/

theorem Entry.later {later : System Owner} (entry : Entry system proc fd i child)
    (same : later.descriptors = system.descriptors) (found : later.children[i]? = some child)
    (reaped : child.phase = .reaped) : Entry later ⟨proc.pid, true⟩ fd i child where
  descriptor := same ▸ entry.descriptor
  found := found
  owner := entry.owner
  pid := entry.pid
  returned _ := reaped
  number notReturned := by cases notReturned

/-- The child of a branch runs, or polling has its end; what is left then is about the same child. -/
theorem Books.poll (books : Books system branches starting) (here : branches.get? treeId = some (proc, fd)) :
    Books (proc.poll system).2 (branches.insert treeId ((proc.poll system).1, fd)) starting ∧
      ∃ i child, Entry (proc.poll system).2 (proc.poll system).1 fd i child ∧
        ((proc.poll system).1.returned = false → child.phase = .running) := by
  obtain ⟨i, child, entry⟩ := books.entries treeId proc fd here
  unfold Popen.poll
  cases returned : proc.returned with
  | true =>
    simp only [if_true]
    exact ⟨books.replace here entry, i, child, entry, fun notReturned => by simp [returned] at notReturned⟩
  | false =>
    simp only [Bool.false_eq_true, if_false, System.waitNumber]
    by_cases reaped : child.phase = .reaped
    · have ended := entry.later rfl entry.found reaped
      simp only [entry.number returned reaped]
      exact ⟨books.replace here ended, i, child, ended, fun notReturned => by cases notReturned⟩
    · rw [← entry.pid, System.holder_of entry.found reaped]
      cases phase : child.phase with
      | running =>
        simp only [System.waitChild_eq_none entry.found phase]
        exact ⟨books.replace here entry, i, child, entry, fun _ => phase⟩
      | zombie =>
        have collected : System.waitChild i system = some (system.collect i) := by
          simp only [System.waitChild, entry.found, Option.map_some, phase]
        have aged : Books (system.collect i) branches starting := books.update (fun _ _ _ => rfl)
          fun _ _ start => absurd entry.descriptor (start.bare fd)
        have ended : Entry (system.collect i) ⟨proc.pid, true⟩ fd i child.collected := by
          have later := entry.update i Child.ages_collected
          rw [if_pos rfl] at later
          exact later.later rfl later.found rfl
        simp only [collected, entry.pid]
        exact ⟨aged.replace here ended, i, _, ended, fun notReturned => by cases notReturned⟩
      | reaped => exact absurd phase reaped

/-- Killing a branch's process by its number signals the branch's child, unless its end is known. -/
theorem Books.kill (books : Books system branches starting) (here : branches.get? treeId = some (proc, fd)) :
    Books (proc.kill system).2 (branches.insert treeId ((proc.kill system).1, fd)) starting ∧
      ∃ i child, Entry (proc.kill system).2 (proc.kill system).1 fd i child ∧
        ((proc.kill system).1.returned = false → child.signalled = true) := by
  obtain ⟨polled, i, child, entry, running⟩ := books.poll here
  unfold Popen.kill
  generalize proc.poll system = result at *
  obtain ⟨proc, system⟩ := result
  cases returned : proc.returned with
  | true =>
    simp only [returned, if_true] at *
    exact ⟨polled, i, child, entry, fun notReturned => by simp at notReturned⟩
  | false =>
    have isRunning := running returned
    have unreaped : child.Unreaped := by simp [Child.Unreaped, isRunning]
    simp only [returned, Bool.false_eq_true, if_false, System.killNumber]
    rw [← entry.pid, System.holder_of entry.found unreaped]
    have later := entry.update i Child.ages_killed
    rw [if_pos rfl] at later
    refine ⟨polled.update ?_ ?_, i, _, later, ?_⟩
    · intro other isOther notReaper
      rw [entry.found, Option.some.injEq] at isOther
      have isReaper := isOther ▸ entry.owner
      rw [notReaper] at isReaper
      cases isReaper
    · intro _ _ start
      exact Child.unreaped_killed.2 start.unreaped
    · intro _
      simp only [Child.killed, isRunning]
      rfl

/-- Another branch's child that has its number is another one, and has another number than the process. -/
theorem Books.apart (books : Books system branches starting) {otherId : TreeId} {otherFd j : Nat} {otherChild : Child Owner}
    (here : branches.get? treeId = some (proc, fd)) (entry : Entry system proc fd i child)
    (there : branches.get? otherId = some (other, otherFd)) (otherEntry : Entry system other otherFd j otherChild)
    (notSame : otherId ≠ treeId) (unreaped : otherChild.Unreaped) :
    i ≠ j ∧ (proc.returned = false → otherChild.pid ≠ proc.pid) := by
  have apart : i ≠ j := by
    rintro rfl
    have sameFd := books.alone _ _ _ otherEntry.descriptor entry.descriptor
    exact notSame (books.ids _ _ _ _ _ there (sameFd ▸ here))
  refine ⟨apart, fun notReturned same => ?_⟩
  by_cases reaped : child.phase = .reaped
  · have nobody := System.holder_eq_none.1 (entry.number notReturned reaped)
    exact nobody otherChild (List.mem_of_getElem? otherEntry.found) unreaped same
  · exact apart (system.distinct i j child otherChild entry.found otherEntry.found reaped unreaped
      (entry.pid.trans same.symm))

theorem of_wait {result : Popen × System Owner} (waited : proc.wait system = some result) :
    result = proc.poll system ∧ (proc.poll system).1.returned = true := by
  simp only [Popen.wait] at waited
  split at waited
  · next returned =>
    cases waited
    exact ⟨rfl, returned⟩
  · cases waited

/-- No child of others has the number of a branch's process, unless it is known to have ended. -/
theorem Entry.apart_other {j : Nat} {otherChild : Child Owner} (entry : Entry system proc fd i child)
    (notReturned : proc.returned = false) (found : system.children[j]? = some otherChild)
    (isOther : otherChild.owner = .other) (unreaped : otherChild.Unreaped) : otherChild.pid ≠ proc.pid := by
  intro same
  by_cases reaped : child.phase = .reaped
  · exact System.holder_eq_none.1 (entry.number notReturned reaped) otherChild (List.mem_of_getElem? found) unreaped same
  · obtain rfl := system.distinct i j child otherChild entry.found found reaped unreaped (entry.pid.trans same.symm)
    have owner := Option.some.inj (entry.found.symm.trans found) ▸ entry.owner
    rw [isOther] at owner
    cases owner

theorem Starting.apart_other {j : Nat} {otherChild : Child Owner} (start : Starting system proc i child)
    (found : system.children[j]? = some otherChild) (isOther : otherChild.owner = .other)
    (unreaped : otherChild.Unreaped) : otherChild.pid ≠ proc.pid := by
  intro same
  obtain rfl := system.distinct i j child otherChild start.found found start.unreaped unreaped (start.pid.trans same.symm)
  have owner := Option.some.inj (start.found.symm.trans found) ▸ start.owner
  rw [isOther] at owner
  cases owner

/-- A branch's child that has its number has another one than the child of the `spawn`. -/
theorem Books.apart_starting {j : Nat} {otherChild : Child Owner} (books : Books system branches (some proc))
    (notReturned : proc.returned = false) (entry : Entry system other fd j otherChild) (unreaped : otherChild.Unreaped) :
    otherChild.pid ≠ proc.pid := by
  obtain ⟨i, child, start⟩ := books.starts proc rfl notReturned
  intro same
  have isSame := system.distinct i j child otherChild start.found entry.found start.unreaped unreaped
    (start.pid.trans same.symm)
  exact start.bare fd (isSame ▸ entry.descriptor)

section Frame

theorem poll_descriptors (proc : Popen) (system : System Owner) :
    (proc.poll system).2.descriptors = system.descriptors ∧ (proc.poll system).1.pid = proc.pid := by
  unfold Popen.poll System.waitNumber System.waitChild
  cases proc.returned with
  | true => exact ⟨rfl, rfl⟩
  | false => grind [System.collect, System.update]

theorem kill_descriptors (proc : Popen) (system : System Owner) :
    (proc.kill system).2.descriptors = system.descriptors := by
  have polled := (poll_descriptors proc system).1
  unfold Popen.kill System.killNumber
  grind [System.signal, System.update]

variable {j : Nat} {otherChild : Child Owner}

theorem poll_frame (found : system.children[j]? = some otherChild)
    (apart : proc.returned = false → otherChild.Unreaped → otherChild.pid ≠ proc.pid) :
    (proc.poll system).2.children[j]? = some otherChild := by
  unfold Popen.poll
  cases returned : proc.returned with
  | true => exact found
  | false =>
    simp only [Bool.false_eq_true, if_false, System.waitNumber]
    cases held : system.holder proc.pid with
    | none => exact found
    | some i =>
      obtain ⟨child, isChild, same, unreaped⟩ := System.of_holder held
      have notHere : i ≠ j := by
        rintro rfl
        obtain rfl := Option.some.inj (isChild.symm.trans found)
        exact apart returned unreaped same
      cases waited : system.waitChild i with
      | none => simp only [waited, found]
      | some after =>
        simp only [waited]
        obtain ⟨_, rfl⟩ | ⟨_, rfl⟩ := System.of_waitChild isChild waited
        · rw [System.collect, System.getElem?_update, found, Option.map_some, if_neg notHere]
        · exact found

theorem kill_frame (found : system.children[j]? = some otherChild)
    (apart : proc.returned = false → otherChild.Unreaped → otherChild.pid ≠ proc.pid) :
    (proc.kill system).2.children[j]? = some otherChild := by
  have polled := poll_frame found apart
  unfold Popen.kill
  cases returned : (proc.poll system).1.returned with
  | true => simp only [returned, if_true, polled]
  | false =>
    have notReturned : proc.returned = false := by
      cases before : proc.returned with
      | false => rfl
      | true => simp [Popen.poll, before] at returned
    simp only [returned, Bool.false_eq_true, if_false, System.killNumber]
    cases held : (proc.poll system).2.holder (proc.poll system).1.pid with
    | none => exact polled
    | some i =>
      obtain ⟨child, isChild, same, unreaped⟩ := System.of_holder held
      have notHere : i ≠ j := by
        rintro rfl
        obtain rfl := Option.some.inj (isChild.symm.trans polled)
        exact apart notReturned unreaped (same.trans (poll_descriptors proc system).2)
      change (System.update i Child.killed Child.ages_killed _).children[j]? = _
      rw [System.getElem?_update, polled, Option.map_some, if_neg notHere]

end Frame

/-! ## The child of a `spawn` -/

theorem Books.forget (books : Books system branches (some proc)) (returned : proc.returned = true) :
    Books system branches none :=
  { books with
    tracked := by
      intro i child found owner unreaped
      obtain tracked | ⟨starting, isStarting, notReturned, _⟩ := books.tracked i child found owner unreaped
      · exact .inl tracked
      · cases isStarting
        rw [returned] at notReturned
        cases notReturned
    starts := by
      intro proc isStarting
      cases isStarting }

/-- The child of the `spawn` has been waited for, and is nobody's. -/
theorem Books.collectStarting (books : Books system branches (some proc)) (start : Starting system proc i child) :
    Books (system.collect i) branches (some ⟨proc.pid, true⟩) where
  entries treeId proc fd here := by
    obtain ⟨j, other, entry⟩ := books.entries treeId proc fd here
    exact ⟨j, _, entry.update i Child.ages_collected⟩
  ids := books.ids
  alone := books.alone
  handles := books.handles
  tracked j later found owner unreaped := by
    rw [System.collect, System.getElem?_update, Option.map_eq_some_iff] at found
    obtain ⟨other, found, rfl⟩ := found
    by_cases here : i = j
    · rw [if_pos here] at unreaped
      exact absurd rfl unreaped
    · rw [if_neg here] at owner unreaped ⊢
      obtain tracked | ⟨starting, isStarting, _, same⟩ := books.tracked j other found owner unreaped
      · exact .inl tracked
      · cases isStarting
        exact absurd (system.distinct i j child other start.found found start.unreaped unreaped
          (start.pid.trans same)) here
  starts proc isStarting notReturned := by
    cases isStarting
    cases notReturned
  spares j later found owner := by
    rw [System.collect, System.getElem?_update, Option.map_eq_some_iff] at found
    obtain ⟨other, found, rfl⟩ := found
    by_cases here : i = j
    · rw [if_pos here] at owner ⊢
      exact books.spares j other found owner
    · rw [if_neg here] at owner ⊢
      exact books.spares j other found owner
  stray := books.stray

/-- Polling the process of the `spawn` has its end, or it runs and nothing is changed. -/
theorem Books.pollStarting (books : Books system branches (some proc)) :
    Books (proc.poll system).2 branches (some (proc.poll system).1) ∧
      ((proc.poll system).1.returned = false → ∃ i child,
        Starting (proc.poll system).2 (proc.poll system).1 i child ∧ child.phase = .running) := by
  unfold Popen.poll
  cases returned : proc.returned with
  | true =>
    simp only [if_true]
    exact ⟨books, fun notReturned => by simp [returned] at notReturned⟩
  | false =>
    obtain ⟨i, child, start⟩ := books.starts proc rfl returned
    simp only [Bool.false_eq_true, if_false, System.waitNumber]
    rw [← start.pid, System.holder_of start.found start.unreaped]
    cases phase : child.phase with
    | running =>
      simp only [System.waitChild_eq_none start.found phase]
      exact ⟨books, fun _ => ⟨i, child, start, phase⟩⟩
    | zombie =>
      have collected : System.waitChild i system = some (system.collect i) := by
        simp only [System.waitChild, start.found, Option.map_some, phase]
      simp only [collected, start.pid]
      exact ⟨books.collectStarting start, fun notReturned => by cases notReturned⟩
    | reaped => exact absurd phase start.unreaped

theorem Starting.signal (start : Starting system proc i child) : Starting (system.signal i) proc i child.killed where
  found := System.getElem?_update_self start.found
  owner := by rw [Child.ages_killed.owner, start.owner]
  pid := by rw [Child.ages_killed.pid, start.pid]
  unreaped := Child.unreaped_killed.2 start.unreaped
  bare := start.bare

theorem Books.killStarting (books : Books system branches (some proc)) :
    Books (proc.kill system).2 branches (some (proc.kill system).1) ∧
      ((proc.kill system).1.returned = false → ∃ i child,
        Starting (proc.kill system).2 (proc.kill system).1 i child ∧ child.signalled = true) := by
  obtain ⟨polled, running⟩ := books.pollStarting
  unfold Popen.kill
  generalize proc.poll system = result at *
  obtain ⟨proc, system⟩ := result
  cases returned : proc.returned with
  | true =>
    simp only [returned, if_true]
    exact ⟨polled, fun notReturned => by cases notReturned⟩
  | false =>
    obtain ⟨i, child, start, isRunning⟩ := running returned
    simp only [returned, Bool.false_eq_true, if_false, System.killNumber]
    rw [← start.pid, System.holder_of start.found start.unreaped]
    refine ⟨polled.update ?_ ?_, fun _ => ⟨i, _, start.signal, ?_⟩⟩
    · intro other isOther notReaper
      rw [start.found, Option.some.injEq] at isOther
      have isReaper := isOther ▸ start.owner
      rw [notReaper] at isReaper
      cases isReaper
    · intro _ _ start
      exact Child.unreaped_killed.2 start.unreaped
    · simp only [Child.killed, isRunning]
      rfl

/-! ## A new child -/

theorem Entry.fork {owner : Owner} {pid : Nat} (entry : Entry system proc fd i child)
    (forked : system.fork owner pid = some after) (fresh : proc.returned = false → proc.pid ≠ pid) :
    Entry after proc fd i child where
  descriptor := by rw [(System.fork_eq_some forked).2.2.1, entry.descriptor]
  found := by
    rw [(System.fork_eq_some forked).2.1, List.getElem?_append_left (List.getElem?_eq_some_iff.1 entry.found).1]
    exact entry.found
  owner := entry.owner
  pid := entry.pid
  returned := entry.returned
  number notReturned reaped := by
    rw [System.holder_eq_none, (System.fork_eq_some forked).2.1]
    intro other member unreaped
    obtain old | new := List.mem_append.1 member
    · exact System.holder_eq_none.1 (entry.number notReturned reaped) other old unreaped
    · exact List.mem_singleton.1 new ▸ (fresh notReturned).symm

theorem Starting.fork {owner : Owner} {pid : Nat} (start : Starting system proc i child)
    (forked : system.fork owner pid = some after) : Starting after proc i child where
  found := by
    rw [(System.fork_eq_some forked).2.1, List.getElem?_append_left (List.getElem?_eq_some_iff.1 start.found).1]
    exact start.found
  owner := start.owner
  pid := start.pid
  unreaped := start.unreaped
  bare := by
    rw [(System.fork_eq_some forked).2.2.1]
    exact start.bare

/-- The rest of the supervisor starts a child with a number that no branch's process has. -/
theorem Books.otherStarts {pid : Nat} (books : Books system branches starting)
    (forked : system.fork .other pid = some after)
    (fresh : ∀ treeId proc fd, branches.get? treeId = some (proc, fd) → proc.returned = false → proc.pid ≠ pid) :
    Books after branches starting where
  entries treeId proc fd here := by
    obtain ⟨i, child, entry⟩ := books.entries treeId proc fd here
    exact ⟨i, child, entry.fork forked (fresh treeId proc fd here)⟩
  ids := books.ids
  alone := by
    rw [(System.fork_eq_some forked).2.2.1]
    exact books.alone
  handles := by
    rw [(System.fork_eq_some forked).2.2.1]
    exact books.handles
  tracked i child found owner unreaped := by
    obtain old | ⟨_, rfl⟩ := System.of_fork forked found
    · rw [(System.fork_eq_some forked).2.2.1]
      exact books.tracked i child old owner unreaped
    · cases owner
  starts proc isStarting notReturned := by
    obtain ⟨i, child, start⟩ := books.starts proc isStarting notReturned
    exact ⟨i, child, start.fork forked⟩
  spares i child found owner := by
    obtain old | ⟨_, rfl⟩ := System.of_fork forked found
    · exact books.spares i child old owner
    · rfl
  stray := by rw [(System.fork_eq_some forked).2.2.2, books.stray]

/-- A `spawn` starts its child. -/
theorem Books.launched {pid : Nat} (books : Books system branches none) (forked : system.fork .reaper pid = some after)
    (fresh : ∀ treeId proc fd, branches.get? treeId = some (proc, fd) → proc.returned = false → proc.pid ≠ pid) :
    Books after branches (some ⟨pid, false⟩) where
  entries treeId proc fd here := by
    obtain ⟨i, child, entry⟩ := books.entries treeId proc fd here
    exact ⟨i, child, entry.fork forked (fresh treeId proc fd here)⟩
  ids := books.ids
  alone := by
    rw [(System.fork_eq_some forked).2.2.1]
    exact books.alone
  handles := by
    rw [(System.fork_eq_some forked).2.2.1]
    exact books.handles
  tracked i child found owner unreaped := by
    obtain old | ⟨_, rfl⟩ := System.of_fork forked found
    · rw [(System.fork_eq_some forked).2.2.1]
      obtain tracked | ⟨_, isStarting, _⟩ := books.tracked i child old owner unreaped
      · exact .inl tracked
      · cases isStarting
    · exact .inr ⟨_, rfl, rfl, rfl⟩
  starts proc isStarting notReturned := by
    cases isStarting
    have isRunning : Phase.running ≠ .reaped := by decide
    refine ⟨system.children.length, ⟨.reaper, pid, .running, false⟩, ?_, rfl, rfl, isRunning, fun fd here => ?_⟩
    · rw [(System.fork_eq_some forked).2.1, List.getElem?_append_right (Nat.le_refl _), Nat.sub_self]
      rfl
    -- a pidfd that is open is on a child that there was before
    · rw [(System.fork_eq_some forked).2.2.1] at here
      obtain ⟨treeId, proc, isBranch⟩ := books.handles fd _ here
      obtain ⟨i, child, entry⟩ := books.entries treeId proc fd isBranch
      have same := here.symm.trans entry.descriptor
      simp only [Option.some.injEq, Prod.mk.injEq, true_and] at same
      have inside := (List.getElem?_eq_some_iff.1 entry.found).1
      omega
  spares i child found owner := by
    obtain old | ⟨_, rfl⟩ := System.of_fork forked found
    · exact books.spares i child old owner
    · cases owner
  stray := by rw [(System.fork_eq_some forked).2.2.2, books.stray]

/-! ## Descriptors -/

theorem Entry.ofDescriptors {later : Dict Nat (Owner × Option Nat)} (entry : Entry system proc fd i child)
    (same : later.get? fd = system.descriptors.get? fd) : Entry { system with descriptors := later } proc fd i child :=
  { entry with descriptor := same.trans entry.descriptor }

/-- A change of descriptors that leaves those of the reaper as they are. -/
theorem Books.ofDescriptors {later : Dict Nat (Owner × Option Nat)} (books : Books system branches starting)
    (same : ∀ fd target, later.get? fd = some (.reaper, target) ↔ system.descriptors.get? fd = some (.reaper, target)) :
    Books { system with descriptors := later } branches starting where
  entries treeId proc fd here := by
    obtain ⟨i, child, entry⟩ := books.entries treeId proc fd here
    exact ⟨i, child, entry.ofDescriptors (((same fd (some i)).2 entry.descriptor).trans entry.descriptor.symm)⟩
  ids := books.ids
  alone first second i isFirst isSecond := books.alone first second i ((same _ _).1 isFirst) ((same _ _).1 isSecond)
  handles fd target here := books.handles fd target ((same _ _).1 here)
  tracked i child found owner unreaped := by
    obtain ⟨fd, tracked⟩ | isStarting := books.tracked i child found owner unreaped
    · exact .inl ⟨fd, (same _ _).2 tracked⟩
    · exact .inr isStarting
  starts proc isStarting notReturned := by
    obtain ⟨i, child, start⟩ := books.starts proc isStarting notReturned
    exact ⟨i, child, { start with bare := fun fd here => start.bare fd ((same _ _).1 here) }⟩
  spares := books.spares
  stray := books.stray

/-- A `spawn` opens the pidfd of its child and takes it into the branches. -/
theorem Books.opened (books : Books system branches (some proc)) (start : Starting system proc i child)
    (notReturned : proc.returned = false) (absent : treeId ∉ branches) (free : fd ∉ system.descriptors) :
    Books { system with descriptors := system.descriptors.insert fd (.reaper, some i) }
      (branches.insert treeId (proc, fd)) none := by
  have isFree := Dict.get?_eq_none.2 free
  have isAbsent := Dict.get?_eq_none.2 absent
  have elsewhere : ∀ anyId anyProc anyFd, branches.get? anyId = some (anyProc, anyFd) → anyFd ≠ fd := by
    intro anyId anyProc anyFd here same
    obtain ⟨j, other, entry⟩ := books.entries anyId anyProc anyFd here
    have := entry.descriptor
    rw [same, isFree] at this
    cases this
  refine ⟨?_, ?_, ?_, ?_, ?_, ?_, books.spares, books.stray⟩
  · intro anyId anyProc anyFd here
    rw [Dict.get?_insert] at here
    split at here
    · cases here
      exact ⟨i, child, by simp, start.found, start.owner, start.pid, fun returned => by simp [notReturned] at returned,
        fun _ reaped => absurd reaped start.unreaped⟩
    · obtain ⟨j, other, entry⟩ := books.entries anyId anyProc anyFd here
      exact ⟨j, other, entry.ofDescriptors (by simp [elsewhere _ _ _ here])⟩
  · intro first second one two anyFd isFirst isSecond
    rw [Dict.get?_insert] at isFirst isSecond
    grind [books.ids first second one two anyFd]
  · intro first second j isFirst isSecond
    have bare := start.bare
    have alone := books.alone first second j
    simp only [Dict.get?_insert] at isFirst isSecond
    grind
  · intro anyFd target here
    rw [Dict.get?_insert] at here
    split at here
    · next same => exact ⟨treeId, proc, by simp [same]⟩
    · obtain ⟨anyId, anyProc, isBranch⟩ := books.handles anyFd target here
      refine ⟨anyId, anyProc, ?_⟩
      rw [Dict.get?_insert, if_neg, isBranch]
      rintro rfl
      rw [isAbsent] at isBranch
      cases isBranch
  · intro j other found owner unreaped
    obtain ⟨anyFd, tracked⟩ | ⟨other, isStarting, _, same⟩ := books.tracked j other found owner unreaped
    · refine .inl ⟨anyFd, ?_⟩
      rw [Dict.get?_insert, if_neg, tracked]
      rintro rfl
      rw [isFree] at tracked
      cases tracked
    · cases isStarting
      have isSame := system.distinct i j child _ start.found found start.unreaped unreaped (start.pid.trans same)
      exact .inl ⟨fd, by simp [isSame]⟩
  · intro proc isStarting
    cases isStarting

/-- A branch whose process is gone goes, and its pidfd is closed. -/
theorem Books.closed (books : Books system branches starting) (here : branches.get? treeId = some (proc, fd))
    (returned : proc.returned = true) : Books (system.closeHandle fd) (branches.erase treeId) starting := by
  obtain ⟨i, child, isEntry⟩ := books.entries treeId proc fd here
  have others : ∀ anyId anyProc anyFd, (branches.erase treeId).get? anyId = some (anyProc, anyFd) →
      branches.get? anyId = some (anyProc, anyFd) ∧ anyFd ≠ fd := by
    intro anyId anyProc anyFd found
    rw [Dict.get?_erase] at found
    split at found
    · cases found
    · next notSame => exact ⟨found, fun same => notSame (books.ids _ _ _ _ _ (same ▸ found) here)⟩
  refine ⟨?_, ?_, ?_, ?_, ?_, ?_, books.spares, books.stray⟩
  · intro anyId anyProc anyFd found
    obtain ⟨isBranch, notSame⟩ := others _ _ _ found
    obtain ⟨j, other, entry⟩ := books.entries anyId anyProc anyFd isBranch
    exact ⟨j, other, entry.ofDescriptors (by simp [notSame])⟩
  · intro first second one two anyFd isFirst isSecond
    exact books.ids first second one two anyFd (others _ _ _ isFirst).1 (others _ _ _ isSecond).1
  · intro first second j isFirst isSecond
    simp only [System.closeHandle, Dict.get?_erase] at isFirst isSecond
    exact books.alone first second j (by grind) (by grind)
  · intro anyFd target found
    simp only [System.closeHandle, Dict.get?_erase] at found
    split at found
    · cases found
    · next notSame =>
      obtain ⟨anyId, anyProc, isBranch⟩ := books.handles anyFd target found
      refine ⟨anyId, anyProc, ?_⟩
      rw [Dict.get?_erase, if_neg, isBranch]
      rintro rfl
      rw [here] at isBranch
      cases isBranch
      exact notSame rfl
  · intro j other found owner unreaped
    obtain ⟨anyFd, tracked⟩ | isStarting := books.tracked j other found owner unreaped
    · refine .inl ⟨anyFd, ?_⟩
      simp only [System.closeHandle, Dict.get?_erase]
      rw [if_neg, tracked]
      rintro rfl
      have same := tracked.symm.trans isEntry.descriptor
      simp only [Option.some.injEq, Prod.mk.injEq, true_and] at same
      have isChild := (same ▸ isEntry.found).symm.trans found
      rw [Option.some.injEq] at isChild
      exact unreaped (isChild ▸ isEntry.returned returned)
    · exact .inr isStarting
  · intro anyProc isStarting notReturned
    obtain ⟨j, other, start⟩ := books.starts anyProc isStarting notReturned
    refine ⟨j, other, { start with bare := fun anyFd found => ?_ }⟩
    simp only [System.closeHandle, Dict.get?_erase] at found
    split at found
    · cases found
    · exact start.bare anyFd found

end Agentfork.Kill.Reaper

import Mathlib.Data.List.Basic
import Agentfork.Library.Dict

/-! # Child processes, their numbers and the descriptors on them

The children that a process has started, whichever of its parts did it. A child
that has ended keeps its number until somebody waits for it; after that the number
can be given to another. So whoever names a child by its number may mean one that
is gone, while a descriptor (a pidfd) stays on the child that it was opened on. -/

namespace Agentfork.Children

variable {κ : Type}

inductive Phase where
  | running
  /-- it has ended and nobody has waited for it -/
  | zombie
  | reaped
  deriving DecidableEq

structure Child (κ : Type) where
  owner : κ
  pid : Nat
  phase : Phase
  /-- it has been sent a `SIGKILL` -/
  signalled : Bool

namespace Child

/-- The number is still the child's. -/
def Unreaped (child : Child κ) : Prop := child.phase ≠ .reaped

instance (child : Child κ) : Decidable child.Unreaped := inferInstanceAs (Decidable (child.phase ≠ .reaped))

def ended (child : Child κ) : Child κ := if child.phase = .running then { child with phase := .zombie } else child

def killed (child : Child κ) : Child κ := if child.phase = .reaped then child else { child with signalled := true }

def collected (child : Child κ) : Child κ := { child with phase := .reaped }

/-- A change that leaves a child its owner and its number, and does not bring it back. -/
structure Ages (change : Child κ → Child κ) : Prop where
  owner : ∀ child, (change child).owner = child.owner
  pid : ∀ child, (change child).pid = child.pid
  unreaped : ∀ child, (change child).Unreaped → child.Unreaped

theorem unreaped_killed {child : Child κ} : child.killed.Unreaped ↔ child.Unreaped := by
  unfold killed
  split <;> rfl

theorem unreaped_ended {child : Child κ} : child.ended.Unreaped ↔ child.Unreaped := by
  unfold ended
  split
  · next running => simp [Unreaped, running]
  · rfl

theorem ages_ended : Ages (@ended κ) := by
  refine ⟨fun child => ?_, fun child => ?_, fun _ unreaped => unreaped_ended.1 unreaped⟩ <;> unfold ended <;> split <;> rfl

theorem ages_killed : Ages (@killed κ) := by
  refine ⟨fun child => ?_, fun child => ?_, fun _ unreaped => unreaped_killed.1 unreaped⟩ <;> unfold killed <;> split <;> rfl

theorem ages_collected : Ages (@collected κ) :=
  ⟨fun _ => rfl, fun _ => rfl, fun _ unreaped => absurd rfl unreaped⟩

end Child

/-- No two children have one number while neither has been waited for. -/
def Distinct (children : List (Child κ)) : Prop :=
  ∀ (i j : Nat) (first second : Child κ), children[i]? = some first → children[j]? = some second →
    first.Unreaped → second.Unreaped → first.pid = second.pid → i = j

theorem Distinct.append {children : List (Child κ)} (distinct : Distinct children) {child : Child κ}
    (fresh : ∀ other ∈ children, other.Unreaped → other.pid ≠ child.pid) : Distinct (children ++ [child]) := by
  intro i j first second isFirst isSecond firstUnreaped secondUnreaped same
  rw [List.getElem?_append] at isFirst isSecond
  split at isFirst <;> split at isSecond
  · exact distinct i j first second isFirst isSecond firstUnreaped secondUnreaped same
  · have isNew := List.mem_singleton.1 (List.mem_of_getElem? isSecond)
    exact absurd (isNew ▸ same) (fresh first (List.mem_of_getElem? isFirst) firstUnreaped)
  · have isNew := List.mem_singleton.1 (List.mem_of_getElem? isFirst)
    exact absurd (isNew ▸ same.symm) (fresh second (List.mem_of_getElem? isSecond) secondUnreaped)
  · have one := (List.getElem?_eq_some_iff.1 isFirst).1
    have two := (List.getElem?_eq_some_iff.1 isSecond).1
    simp only [List.length_singleton] at one two
    omega

theorem Distinct.modify {children : List (Child κ)} (distinct : Distinct children) (k : Nat)
    {change : Child κ → Child κ} (ages : Child.Ages change) : Distinct (children.modify k change) := by
  have before : ∀ (i : Nat) (child : Child κ), (children.modify k change)[i]? = some child → child.Unreaped →
      ∃ old, children[i]? = some old ∧ old.Unreaped ∧ old.pid = child.pid := by
    intro i child found unreaped
    rw [List.getElem?_modify] at found
    obtain ⟨old, isOld, rfl⟩ := Option.map_eq_some_iff.1 found
    refine ⟨old, isOld, ?_⟩
    split
    · next here =>
      simp only [here, if_true] at unreaped
      exact ⟨ages.unreaped old unreaped, (ages.pid old).symm⟩
    · next elsewhere =>
      simp only [elsewhere, if_false] at unreaped
      exact ⟨unreaped, rfl⟩
  intro i j first second isFirst isSecond firstUnreaped secondUnreaped same
  obtain ⟨one, isOne, oneUnreaped, onePid⟩ := before i first isFirst firstUnreaped
  obtain ⟨two, isTwo, twoUnreaped, twoPid⟩ := before j second isSecond secondUnreaped
  exact distinct i j one two isOne isTwo oneUnreaped twoUnreaped (onePid.trans (same.trans twoPid.symm))

structure System (κ : Type) where
  /-- in the order in which they were started -/
  children : List (Child κ)
  distinct : Distinct children
  /-- who has opened a descriptor, and the child that it is on if it is a pidfd -/
  descriptors : Dict Nat (κ × Option Nat)
  /-- the `SIGKILL`s that went to a number that no child has -/
  stray : Nat

namespace System

def empty : System κ where
  children := []
  distinct _ _ _ _ found := by simp at found
  descriptors := .empty
  stray := 0

/-- The child that has the number. -/
def holder (pid : Nat) (system : System κ) : Option Nat :=
  system.children.findIdx? fun child => decide (child.pid = pid ∧ child.Unreaped)

variable {system after : System κ} {pid i j : Nat} {child : Child κ}

theorem holder_eq_none : system.holder pid = none ↔ ∀ child ∈ system.children, child.Unreaped → child.pid ≠ pid := by
  simp only [holder, List.findIdx?_eq_none_iff, decide_eq_false_iff_not]
  grind

theorem of_holder (found : system.holder pid = some i) :
    ∃ child, system.children[i]? = some child ∧ child.pid = pid ∧ child.Unreaped := by
  obtain ⟨inside, holds, _⟩ := List.findIdx?_eq_some_iff_getElem.1 found
  exact ⟨_, List.getElem?_eq_getElem inside, of_decide_eq_true holds⟩

theorem holder_of (found : system.children[i]? = some child) (unreaped : child.Unreaped) :
    system.holder child.pid = some i := by
  cases held : system.holder child.pid with
  | none => exact absurd rfl (holder_eq_none.1 held child (List.mem_of_getElem? found) unreaped)
  | some j =>
    obtain ⟨other, isOther, same, otherUnreaped⟩ := of_holder held
    rw [system.distinct j i other child isOther found otherUnreaped unreaped same]

def fork (owner : κ) (pid : Nat) (system : System κ) : Option (System κ) :=
  if free : system.holder pid = none then
    some { system with
      children := system.children ++ [⟨owner, pid, .running, false⟩]
      distinct := system.distinct.append (holder_eq_none.1 free) }
  else none

def update (i : Nat) (change : Child κ → Child κ) (ages : Child.Ages change) (system : System κ) : System κ :=
  { system with
    children := system.children.modify i change
    distinct := system.distinct.modify i ages }

/-- The child ends by itself, or because of its signal. -/
def exit (i : Nat) (system : System κ) : System κ := system.update i Child.ended Child.ages_ended

def signal (i : Nat) (system : System κ) : System κ := system.update i Child.killed Child.ages_killed

def collect (i : Nat) (system : System κ) : System κ := system.update i Child.collected Child.ages_collected

/-- `kill` on a number. -/
def killNumber (pid : Nat) (system : System κ) : System κ :=
  match system.holder pid with
  | some i => system.signal i
  | none => { system with stray := system.stray + 1 }

/-- Waiting for a child; `none` as long as it runs. One that is gone is not waited for. -/
def waitChild (i : Nat) (system : System κ) : Option (System κ) :=
  match (system.children[i]?).map Child.phase with
  | some .running => none
  | some .zombie => some (system.collect i)
  | some .reaped | none => some system

/-- `waitpid` on a number; a number that no child has is not waited for. -/
def waitNumber (pid : Nat) (system : System κ) : Option (System κ) :=
  match system.holder pid with
  | some i => system.waitChild i
  | none => some system

def openHandle (fd : Nat) (owner : κ) (target : Option Nat) (system : System κ) : Option (System κ) :=
  if fd ∈ system.descriptors then none
  else some { system with descriptors := system.descriptors.insert fd (owner, target) }

def closeHandle (fd : Nat) (system : System κ) : System κ :=
  { system with descriptors := system.descriptors.erase fd }

/-! ## What the calls leave -/

theorem getElem?_update {change : Child κ → Child κ} {ages : Child.Ages change} :
    (system.update i change ages).children[j]? = (system.children[j]?).map fun child =>
      if i = j then change child else child :=
  List.getElem?_modify ..

theorem getElem?_update_self {change : Child κ → Child κ} {ages : Child.Ages change}
    (found : system.children[i]? = some child) : (system.update i change ages).children[i]? = some (change child) := by
  rw [getElem?_update, found, Option.map_some, if_pos rfl]

/-- A number that nobody has is not taken by a change of a child. -/
theorem holder_update_eq_none {change : Child κ → Child κ} {ages : Child.Ages change} (free : system.holder pid = none) :
    (system.update i change ages).holder pid = none := by
  cases held : (system.update i change ages).holder pid with
  | none => rfl
  | some j =>
    obtain ⟨later, isLater, same, unreaped⟩ := of_holder held
    rw [getElem?_update, Option.map_eq_some_iff] at isLater
    obtain ⟨child, found, rfl⟩ := isLater
    have others := holder_eq_none.1 free child (List.mem_of_getElem? found)
    by_cases here : i = j
    · rw [if_pos here] at same unreaped
      exact absurd ((ages.pid child).symm.trans same) (others (ages.unreaped child unreaped))
    · rw [if_neg here] at same unreaped
      exact absurd same (others unreaped)

/-- Nobody has the number of a child that has just been waited for. -/
theorem holder_of_reaped {change : Child κ → Child κ} {ages : Child.Ages change}
    (found : system.children[i]? = some child) (unreaped : child.Unreaped) (reaped : (change child).phase = .reaped) :
    (system.update i change ages).holder child.pid = none := by
  cases held : (system.update i change ages).holder child.pid with
  | none => rfl
  | some j =>
    obtain ⟨later, isLater, same, laterUnreaped⟩ := of_holder held
    rw [getElem?_update, Option.map_eq_some_iff] at isLater
    obtain ⟨other, isOther, rfl⟩ := isLater
    by_cases here : i = j
    · rw [if_pos here] at laterUnreaped
      subst here
      rw [found, Option.some.injEq] at isOther
      exact absurd (isOther ▸ reaped) laterUnreaped
    · rw [if_neg here] at same laterUnreaped
      exact absurd (system.distinct i j child other found isOther unreaped laterUnreaped same.symm) here

theorem waitChild_eq_none (found : system.children[i]? = some child) (running : child.phase = .running) :
    system.waitChild i = none := by
  simp only [waitChild, found, Option.map_some, running]

theorem of_waitChild (found : system.children[i]? = some child) (waited : system.waitChild i = some after) :
    child.phase = .zombie ∧ after = system.collect i ∨ child.phase = .reaped ∧ after = system := by
  simp only [waitChild, found, Option.map_some] at waited
  split at waited
  · cases waited
  · next zombie =>
    cases waited
    exact .inl ⟨Option.some.inj zombie, rfl⟩
  · next reaped =>
    cases waited
    exact .inr ⟨Option.some.inj reaped, rfl⟩
  · next nothing => cases nothing

theorem fork_eq_some {owner : κ} (forked : system.fork owner pid = some after) :
    system.holder pid = none ∧ after.children = system.children ++ [⟨owner, pid, .running, false⟩] ∧
      after.descriptors = system.descriptors ∧ after.stray = system.stray := by
  unfold fork at forked
  split at forked
  · next free =>
    cases forked
    exact ⟨free, rfl, rfl, rfl⟩
  · cases forked

theorem of_fork {owner : κ} (forked : system.fork owner pid = some after) (found : after.children[i]? = some child) :
    system.children[i]? = some child ∨ i = system.children.length ∧ child = ⟨owner, pid, .running, false⟩ := by
  rw [(fork_eq_some forked).2.1, List.getElem?_append] at found
  split at found
  · exact .inl found
  · obtain ⟨inside, isNew⟩ := List.getElem?_eq_some_iff.1 found
    simp only [List.length_singleton, List.getElem_singleton] at inside isNew
    exact .inr ⟨by omega, isNew.symm⟩

theorem of_openHandle {fd : Nat} {owner : κ} {target : Option Nat} (opened : system.openHandle fd owner target = some after) :
    fd ∉ system.descriptors ∧ after = { system with descriptors := system.descriptors.insert fd (owner, target) } := by
  unfold openHandle at opened
  split at opened
  · cases opened
  · next free =>
    cases opened
    exact ⟨free, rfl⟩

end System

end Agentfork.Children

import Mathlib.Data.List.Basic
import Mathlib.Data.Int.Order.Basic

/-! # A counter of users and a set of marks

A monitor lets any number of participants use a key at a time and lets one
participant claim it. It keeps a counter of users and a mark for each key. Who
wants to work alone sets the mark, which keeps new users out, and waits until the
counter is down to zero. -/

namespace Agentfork.SharedMarks

variable {κ π : Type}

/-- What a participant is doing with a key. -/
structure Roles (κ π : Type) where
  uses : κ → π → Bool
  /-- it has set the mark -/
  claims : κ → π → Bool
  /-- it works alone on the key, under its mark -/
  excludes : κ → π → Bool
  marked_alone : ∀ key participant, excludes key participant = true → claims key participant = true

def indicator (holds : Bool) : Int := if holds then 1 else 0

theorem countP_set {p : π → Bool} {participants : List π} {i : Nat} {participant : π}
    (found : participants[i]? = some participant) (next : π) :
    ((participants.set i next).countP p : Int) =
      participants.countP p - indicator (p participant) + indicator (p next) := by
  obtain ⟨inside, rfl⟩ := List.getElem?_eq_some_iff.1 found
  have least : (if p participants[i] = true then 1 else 0) ≤ participants.countP p := by
    split
    · next holds => exact List.countP_pos_iff.2 ⟨_, List.getElem_mem inside, holds⟩
    · exact Nat.zero_le _
  rw [List.countP_set inside]
  unfold indicator
  cases before : p participants[i] <;> cases p next <;>
    simp only [before, reduceIte, Bool.false_eq_true, Nat.add_zero, Nat.sub_zero] at least ⊢
  all_goals omega

/-- Counter and marks of the monitor are those of its participants, and whoever
works alone does. -/
structure Balanced (roles : Roles κ π) (active : κ → Int) (marked : κ → Bool) (participants : List π) :
    Prop where
  active : ∀ key, active key = participants.countP (roles.uses key)
  marks : ∀ key, (participants.countP (roles.claims key) : Int) = indicator (marked key)
  alone : ∀ key, ∀ participant ∈ participants, roles.excludes key participant = true →
    participants.countP (roles.uses key) = 0

namespace Balanced

variable {roles : Roles κ π} {active active' : κ → Int} {marked marked' : κ → Bool} {participants : List π}

theorem empty (roles : Roles κ π) : Balanced roles (fun _ => 0) (fun _ => false) [] :=
  ⟨fun _ => rfl, fun _ => rfl, fun _ _ member => absurd member List.not_mem_nil⟩

theorem marked_of_claims (balanced : Balanced roles active marked participants) {key : κ} {participant : π}
    (member : participant ∈ participants) (claims : roles.claims key participant = true) :
    marked key = true := by
  have positive : 0 < participants.countP (roles.claims key) := List.countP_pos_iff.2 ⟨_, member, claims⟩
  have marks := balanced.marks key
  cases isMarked : marked key with
  | true => rfl
  | false => rw [isMarked, indicator, if_neg Bool.false_ne_true] at marks; omega

/-- At most one participant has set the mark. -/
theorem claims_le_one (balanced : Balanced roles active marked participants) (key : κ) :
    participants.countP (roles.claims key) ≤ 1 := by
  have marks := balanced.marks key
  unfold indicator at marks
  split at marks <;> omega

/-- A marked key has a participant that has set the mark. -/
theorem exists_of_marked (balanced : Balanced roles active marked participants) {key : κ}
    (isMarked : marked key = true) : ∃ participant ∈ participants, roles.claims key participant = true := by
  have marks := balanced.marks key
  rw [isMarked, indicator, if_pos rfl] at marks
  exact List.countP_pos_iff.1 (by omega)

theorem active_pos (balanced : Balanced roles active marked participants) {key : κ} {participant : π}
    (member : participant ∈ participants) (uses : roles.uses key participant = true) : 0 < active key := by
  rw [balanced.active]
  exact_mod_cast List.countP_pos_iff.2 ⟨_, member, uses⟩

/-- A newcomer that does nothing yet. -/
theorem join (balanced : Balanced roles active marked participants) {participant : π}
    (notUses : ∀ key, roles.uses key participant = false)
    (notClaims : ∀ key, roles.claims key participant = false) :
    Balanced roles active marked (participants ++ [participant]) := by
  have sameUses : ∀ key, (participants ++ [participant]).countP (roles.uses key) =
      participants.countP (roles.uses key) := by
    intro key
    simp [List.countP_append, notUses key]
  refine ⟨fun key => ?_, fun key => ?_, fun key other member excludes => ?_⟩
  · rw [sameUses, balanced.active]
  · rw [← balanced.marks]
    simp [List.countP_append, notClaims key]
  · rw [sameUses]
    obtain old | new := List.mem_append.1 member
    · exact balanced.alone key other old excludes
    · have claims := roles.marked_alone key other excludes
      rw [List.mem_singleton.1 new, notClaims] at claims
      cases claims

/-- A participant goes on. Counter and marks follow it; it becomes a user only of
an unmarked key and works alone only on a key without users. -/
theorem set (balanced : Balanced roles active marked participants) {i : Nat} {participant next : π}
    (found : participants[i]? = some participant)
    (activeFollows : ∀ key, active' key =
      active key - indicator (roles.uses key participant) + indicator (roles.uses key next))
    (marksFollow : ∀ key, indicator (marked' key) =
      indicator (marked key) - indicator (roles.claims key participant) + indicator (roles.claims key next))
    (admitted : ∀ key, roles.uses key next = true → roles.uses key participant = true ∨ marked key = false)
    (waited : ∀ key, roles.excludes key next = true →
      roles.excludes key participant = true ∨ active' key = 0) :
    Balanced roles active' marked' (participants.set i next) := by
  have member : participant ∈ participants := List.mem_of_getElem? found
  have activeAfter : ∀ key, active' key = (participants.set i next).countP (roles.uses key) := by
    intro key
    rw [activeFollows, countP_set found, balanced.active]
  -- a key without users that somebody works alone on gets none
  have stillNone : ∀ key, participants.countP (roles.uses key) = 0 → marked key = true →
      (participants.set i next).countP (roles.uses key) = 0 := by
    intro key noUser isMarked
    have notUsed : roles.uses key participant = false := by
      cases used : roles.uses key participant with
      | false => rfl
      | true => exact absurd (List.countP_pos_iff.2 ⟨_, member, used⟩) (by omega)
    have notAdmitted : roles.uses key next = false := by
      cases used : roles.uses key next with
      | false => rfl
      | true =>
        obtain before | unmarked := admitted key used
        · rw [notUsed] at before; cases before
        · rw [isMarked] at unmarked; cases unmarked
    have counted := countP_set (p := roles.uses key) found next
    rw [notUsed, notAdmitted, noUser] at counted
    unfold indicator at counted
    simpa using counted
  refine ⟨activeAfter, fun key => ?_, fun key other isOther excludes => ?_⟩
  · rw [countP_set found, balanced.marks, marksFollow]
  · have wasAlone : ∀ earlier ∈ participants, roles.excludes key earlier = true →
        (participants.set i next).countP (roles.uses key) = 0 := fun earlier isEarlier alone =>
      stillNone key (balanced.alone key earlier isEarlier alone)
        (balanced.marked_of_claims isEarlier (roles.marked_alone key earlier alone))
    obtain old | rfl := List.mem_or_eq_of_mem_set isOther
    · exact wasAlone other old excludes
    · obtain before | none := waited key excludes
      · exact wasAlone participant member before
      · have counted := activeAfter key
        rw [none] at counted
        omega

end Balanced

end Agentfork.SharedMarks

import Mathlib.Tactic.Basic

/-! # Workers that own keys

Workers run concurrently, each on one key, and an active worker owns its key. A
discipline says what has to hold of a key while a given worker owns it and what
has to hold of it while nobody does. Under `Owned` no two active workers have
one key, so a worker that keeps what holds of the other keys keeps the facts of
all other workers.

A development gives the discipline of its workers and proves one fact for each
step of a worker; the three rules below lift it to the whole system. -/

namespace Agentfork

/-- `ν` is what can be seen of a key, `ω` a worker. -/
structure Discipline (κ ν ω : Type) where
  key : ω → κ
  active : ω → Prop
  /-- holds of a key while the worker owns it -/
  owns : ν → ω → Prop
  /-- holds of a key that nobody owns -/
  idle : ν → Prop

/-- What holds of a key that looks one way holds of it when it looks the other way. -/
structure Discipline.Keeps {κ ν ω : Type} (discipline : Discipline κ ν ω) (before after : ν) : Prop where
  owns : ∀ worker, discipline.owns before worker → discipline.owns after worker
  idle : discipline.idle before → discipline.idle after

theorem Discipline.Keeps.of_eq {κ ν ω : Type} {discipline : Discipline κ ν ω} {before after : ν}
    (same : after = before) : discipline.Keeps before after :=
  ⟨fun _ owns => same ▸ owns, fun idle => same ▸ idle⟩

structure Owned {κ ν ω ι : Type} (discipline : Discipline κ ν ω) (view : κ → ν)
    (workers : ι → Option ω) : Prop where
  unique : ∀ i j first second, workers i = some first → workers j = some second →
    discipline.active first → discipline.active second →
    discipline.key first = discipline.key second → i = j
  owns : ∀ i worker, workers i = some worker → discipline.active worker →
    discipline.owns (view (discipline.key worker)) worker
  idle : ∀ key, (∀ i worker, workers i = some worker → discipline.active worker →
    discipline.key worker ≠ key) → discipline.idle (view key)

namespace Owned

variable {κ ν ω ι : Type} {discipline : Discipline κ ν ω} {view after : κ → ν}
  {workers updated : ι → Option ω}

theorem empty (none : ∀ i, workers i = none) (idle : ∀ key, discipline.idle (view key)) :
    Owned discipline view workers where
  unique i _ first _ found := by rw [none i] at found; cases found
  owns i _ found := by rw [none i] at found; cases found
  idle key _ := idle key

/-- A change of the keys that no worker makes. -/
theorem change (owned : Owned discipline view workers)
    (keeps : ∀ key, discipline.Keeps (view key) (after key)) : Owned discipline after workers where
  unique := owned.unique
  owns i worker found active := (keeps _).owns worker (owned.owns i worker found active)
  idle key nobody := (keeps key).idle (owned.idle key nobody)

/-- One worker takes a step and keeps what holds of the other keys. -/
theorem step (owned : Owned discipline view workers) {i : ι} {before next : ω}
    (found : workers i = some before) (sameKey : discipline.key next = discipline.key before)
    (here : updated i = some next) (elsewhere : ∀ j, j ≠ i → updated j = workers j)
    (frame : ∀ key, key ≠ discipline.key before → discipline.Keeps (view key) (after key))
    (enters : ¬ discipline.active before → discipline.active next →
      ∀ j worker, workers j = some worker → discipline.active worker →
        discipline.key worker ≠ discipline.key before)
    (runs : discipline.active next → discipline.owns (after (discipline.key before)) next)
    (leaves : discipline.active before → ¬ discipline.active next →
      discipline.idle (after (discipline.key before)))
    (refuses : ¬ discipline.active before → ¬ discipline.active next →
      discipline.Keeps (view (discipline.key before)) (after (discipline.key before))) :
    Owned discipline after updated := by
  -- while the stepping worker is active after the step, nobody else has its key
  have alone : discipline.active next → ∀ j worker, j ≠ i → workers j = some worker →
      discipline.active worker → discipline.key worker ≠ discipline.key before := by
    intro nextActive j worker differs otherFound otherActive
    by_cases wasActive : discipline.active before
    · intro same
      exact differs (owned.unique j i worker before otherFound found otherActive wasActive same)
    · exact enters wasActive nextActive j worker otherFound otherActive
  refine ⟨?_, ?_, ?_⟩
  · intro first second firstWorker secondWorker firstFound secondFound firstActive secondActive same
    by_cases firstHere : first = i
    · by_cases secondHere : second = i
      · rw [firstHere, secondHere]
      · subst firstHere
        rw [here] at firstFound
        cases firstFound
        rw [elsewhere second secondHere] at secondFound
        exact absurd (same.symm.trans sameKey)
          (alone firstActive second secondWorker secondHere secondFound secondActive)
    · rw [elsewhere first firstHere] at firstFound
      by_cases secondHere : second = i
      · subst secondHere
        rw [here] at secondFound
        cases secondFound
        exact absurd (same.trans sameKey)
          (alone secondActive first firstWorker firstHere firstFound firstActive)
      · rw [elsewhere second secondHere] at secondFound
        exact owned.unique first second firstWorker secondWorker firstFound secondFound
          firstActive secondActive same
  · intro j worker workerFound workerActive
    by_cases atStep : j = i
    · subst atStep
      rw [here] at workerFound
      cases workerFound
      rw [sameKey]
      exact runs workerActive
    · rw [elsewhere j atStep] at workerFound
      by_cases onKey : discipline.key worker = discipline.key before
      · -- a worker of the same key is active only if the stepping one is not, before and after
        have wasInactive : ¬ discipline.active before := fun wasActive =>
          atStep (owned.unique j i worker before workerFound found workerActive wasActive onKey)
        have isInactive : ¬ discipline.active next := fun nextActive =>
          alone nextActive j worker atStep workerFound workerActive onKey
        have keeps := refuses wasInactive isInactive
        rw [← onKey] at keeps
        exact keeps.owns worker (owned.owns j worker workerFound workerActive)
      · exact (frame _ onKey).owns worker (owned.owns j worker workerFound workerActive)
  · intro key nobody
    by_cases onKey : key = discipline.key before
    · subst onKey
      have isInactive : ¬ discipline.active next := fun nextActive =>
        nobody i next here nextActive sameKey
      by_cases wasActive : discipline.active before
      · exact leaves wasActive isInactive
      · refine (refuses wasActive isInactive).idle (owned.idle _ fun j worker workerFound workerActive => ?_)
        by_cases atStep : j = i
        · subst atStep
          rw [found] at workerFound
          cases workerFound
          exact absurd workerActive wasActive
        · exact nobody j worker ((elsewhere j atStep).trans workerFound) workerActive
    · refine (frame key onKey).idle (owned.idle key fun j worker workerFound workerActive => ?_)
      by_cases atStep : j = i
      · subst atStep
        rw [found] at workerFound
        cases workerFound
        exact fun same => onKey same.symm
      · exact nobody j worker ((elsewhere j atStep).trans workerFound) workerActive

/-- Workers join; the active ones among them bring keys that nobody owns. -/
theorem join (owned : Owned discipline view workers)
    (kept : ∀ i worker, workers i = some worker → updated i = some worker)
    (brings : ∀ i worker, updated i = some worker → workers i = none → discipline.active worker →
      discipline.owns (after (discipline.key worker)) worker ∧
        ∀ j other, workers j = some other → discipline.active other →
          discipline.key other ≠ discipline.key worker)
    (distinct : ∀ i j first second, updated i = some first → updated j = some second →
      workers i = none → workers j = none → discipline.active first → discipline.active second →
      discipline.key first = discipline.key second → i = j)
    (frame : ∀ key, (∀ i worker, updated i = some worker → workers i = none →
      discipline.active worker → discipline.key worker ≠ key) → discipline.Keeps (view key) (after key)) :
    Owned discipline after updated := by
  refine ⟨?_, ?_, ?_⟩
  · intro i j first second firstFound secondFound firstActive secondActive same
    cases firstBefore : workers i with
    | none =>
      cases secondBefore : workers j with
      | none =>
        exact distinct i j first second firstFound secondFound firstBefore secondBefore firstActive
          secondActive same
      | some old =>
        have isOld := kept j old secondBefore
        rw [secondFound] at isOld
        cases isOld
        exact absurd same.symm ((brings i first firstFound firstBefore firstActive).2 j second
          secondBefore secondActive)
    | some old =>
      have isOld := kept i old firstBefore
      rw [firstFound] at isOld
      cases isOld
      cases secondBefore : workers j with
      | none =>
        exact absurd same ((brings j second secondFound secondBefore secondActive).2 i first
          firstBefore firstActive)
      | some other =>
        have isOther := kept j other secondBefore
        rw [secondFound] at isOther
        cases isOther
        exact owned.unique i j first second firstBefore secondBefore firstActive secondActive same
  · intro i worker found active
    cases before : workers i with
    | none => exact (brings i worker found before active).1
    | some old =>
      have isOld := kept i old before
      rw [found] at isOld
      cases isOld
      refine (frame _ ?_).owns worker (owned.owns i worker before active)
      intro j joiner joinerFound joinerNew joinerActive same
      exact (brings j joiner joinerFound joinerNew joinerActive).2 i worker before active same.symm
  · intro key nobody
    refine (frame key fun i worker found _ => nobody i worker found).idle ?_
    exact owned.idle key fun i worker found => nobody i worker (kept i worker found)

end Owned

end Agentfork

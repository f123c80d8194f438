/-! # Guarded transition systems

A system is a step relation between states, labelled by actions. `Reachable step
guard start` collects the states of all runs from `start` whose every step meets
`guard`; a run without a condition uses the guard that is always true. The
invariant rule and the simulation rule below are the two inductions on runs, so
a development states what one step preserves and gets what a run preserves. -/

namespace Agentfork.Transition

variable {σ α ρ β : Type}

/-- The states of all runs from `start` whose steps all meet `guard`. -/
inductive Reachable (step : σ → α → σ → Prop) (guard : σ → α → Prop) (start : σ) : σ → Prop where
  | refl : Reachable step guard start start
  | tail {middle finish : σ} {action : α} : Reachable step guard start middle →
      guard middle action → step middle action finish → Reachable step guard start finish

/-- The guard that every step meets. -/
def always (_ : σ) (_ : α) : Prop := True

namespace Reachable

variable {step : σ → α → σ → Prop} {guard : σ → α → Prop} {start : σ}

/-- An invariant of the guarded steps holds in every state of a guarded run. -/
theorem invariant {motive : σ → Prop} {state : σ} (reached : Reachable step guard start state)
    (initial : motive start)
    (preserved : ∀ before action after, motive before → guard before action →
      step before action after → motive after) : motive state := by
  induction reached with
  | refl => exact initial
  | tail _ allowed taken inductionHypothesis => exact preserved _ _ _ inductionHypothesis allowed taken

/-- A run that meets a guard meets every weaker guard. -/
theorem weaken {weaker : σ → α → Prop} {state : σ} (reached : Reachable step guard start state)
    (implied : ∀ before action, guard before action → weaker before action) :
    Reachable step weaker start state := by
  induction reached with
  | refl => exact .refl
  | tail _ allowed taken inductionHypothesis =>
    exact .tail inductionHypothesis (implied _ _ allowed) taken

theorem trans {middle finish : σ} (first : Reachable step guard start middle)
    (second : Reachable step guard middle finish) : Reachable step guard start finish := by
  induction second with
  | refl => exact first
  | tail _ allowed taken inductionHypothesis => exact .tail inductionHypothesis allowed taken

end Reachable

/-- Where every step makes an invariant state smaller, a sequence of states from the start has one without a step. -/
theorem halts {step : σ → α → σ → Prop} {guard : σ → α → Prop} {start : σ} {motive : σ → Prop} (measure : σ → Nat)
    (initial : motive start)
    (preserved : ∀ before action after, motive before → guard before action →
      step before action after → motive after)
    (decreases : ∀ before action after, motive before → guard before action →
      step before action after → measure after < measure before)
    {trace : Nat → σ} (first : trace 0 = start) :
    ∃ time, ∀ action, guard (trace time) action → ¬ step (trace time) action (trace (time + 1)) := by
  refine Classical.byContradiction fun never => ?_
  have endless : ∀ time, ∃ action, guard (trace time) action ∧ step (trace time) action (trace (time + 1)) :=
    fun time => Classical.byContradiction fun nothing =>
      never ⟨time, fun action allowed taken => nothing ⟨action, allowed, taken⟩⟩
  have holds : ∀ time, motive (trace time) ∧ measure (trace time) + time ≤ measure start := by
    intro time
    induction time with
    | zero => exact ⟨first ▸ initial, first ▸ Nat.le_refl _⟩
    | succ time inductionHypothesis =>
      obtain ⟨before, bound⟩ := inductionHypothesis
      obtain ⟨action, allowed, taken⟩ := endless time
      have smaller := decreases _ _ _ before allowed taken
      exact ⟨preserved _ _ _ before allowed taken, by omega⟩
  have bound := (holds (measure start + 1)).2
  omega

/-- Where every state that is not done goes on to one of a smaller rank, a run ends in a state that is. -/
theorem exists_of_rank {step : σ → α → σ → Prop} {guard : σ → α → Prop} {order : ρ → ρ → Prop}
    (wellFounded : WellFounded order) (rank : σ → ρ) {motive done : σ → Prop}
    (preserved : ∀ before action after, motive before → guard before action →
      step before action after → motive after)
    (onward : ∀ before, motive before → ¬ done before →
      ∃ after, Reachable step guard before after ∧ order (rank after) (rank before)) :
    ∀ {start : σ}, motive start → ∃ finish, Reachable step guard start finish ∧ done finish := by
  intro start holds
  generalize isRank : rank start = bound
  induction bound using wellFounded.induction generalizing start with
  | _ bound inductionHypothesis =>
    subst isRank
    by_cases isDone : done start
    · exact ⟨start, .refl, isDone⟩
    · obtain ⟨middle, reached, smaller⟩ := onward start holds isDone
      obtain ⟨finish, later, isDone⟩ := inductionHypothesis _ smaller (reached.invariant holds preserved) rfl
      exact ⟨finish, reached.trans later, isDone⟩

/-- Run a deterministic step function over a list of actions; `none` once an
action is not enabled. -/
def run (step : σ → α → Option σ) : σ → List α → Option σ
  | state, [] => some state
  | state, action :: actions => (step state action).bind fun next => run step next actions

/-- Every action of the list that gets its turn meets the guard. -/
def Meets (step : σ → α → Option σ) (guard : σ → α → Prop) : σ → List α → Prop
  | _, [] => True
  | state, action :: actions => guard state action ∧
      match step state action with
      | none => True
      | some next => Meets step guard next actions

instance Meets.decidable {step : σ → α → Option σ} {guard : σ → α → Prop}
    [∀ state action, Decidable (guard state action)] :
    ∀ (start : σ) (actions : List α), Decidable (Meets step guard start actions)
  | _, [] => inferInstanceAs (Decidable True)
  | state, action :: actions =>
    match taken : step state action with
    | none => decidable_of_iff (guard state action) (by simp [Meets, taken])
    | some next =>
      have : Decidable (Meets step guard next actions) := Meets.decidable next actions
      decidable_of_iff (guard state action ∧ Meets step guard next actions) (by simp [Meets, taken])

theorem reachable_of_run {step : σ → α → Option σ} {guard : σ → α → Prop} {actions : List α} :
    ∀ {start finish : σ}, run step start actions = some finish → Meets step guard start actions →
      Reachable (fun before action after => step before action = some after) guard start finish := by
  induction actions with
  | nil =>
    intro start finish executed _
    cases executed
    exact .refl
  | cons action actions inductionHypothesis =>
    intro start finish executed meets
    simp only [run, Option.bind_eq_some_iff] at executed
    obtain ⟨next, taken, executed⟩ := executed
    have first : Reachable (fun before action after => step before action = some after) guard
        start next := .tail .refl meets.1 taken
    refine first.trans (inductionHypothesis executed ?_)
    have later := meets.2
    rw [taken] at later
    exact later

/-- The state after the actions; the start state if one of them is not enabled. -/
def runFrom (step : σ → α → Option σ) (start : σ) (actions : List α) : σ :=
  (run step start actions).getD start

theorem reachable_runFrom {step : σ → α → Option σ} {guard : σ → α → Prop} {start : σ}
    {actions : List α} (enabled : (run step start actions).isSome = true)
    (meets : Meets step guard start actions) :
    Reachable (fun before action after => step before action = some after) guard start
      (runFrom step start actions) := by
  refine reachable_of_run ?_ meets
  rw [runFrom, Option.getD_of_ne_none (Option.ne_none_iff_isSome.2 enabled)]

theorem meets_always {step : σ → α → Option σ} {actions : List α} :
    ∀ {start : σ}, Meets step always start actions := by
  induction actions with
  | nil => intro start; exact trivial
  | cons action actions inductionHypothesis =>
    intro start
    refine ⟨trivial, ?_⟩
    cases step start action with
    | none => exact trivial
    | some next => exact inductionHypothesis

/-- A step function that is defined everywhere reaches what folding it gives. -/
theorem reachable_foldl {step : σ → α → σ} {guard : σ → α → Prop} {actions : List α} :
    ∀ {start : σ}, Meets (fun state action => some (step state action)) guard start actions →
      Reachable (fun before action after => step before action = after) guard start
        (actions.foldl step start) := by
  induction actions with
  | nil => intro start _; exact .refl
  | cons action actions inductionHypothesis =>
    intro start meets
    have first : Reachable (fun before action after => step before action = after) guard start
        (step start action) := .tail .refl meets.1 rfl
    exact first.trans (inductionHypothesis meets.2)

end Agentfork.Transition

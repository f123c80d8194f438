/-! # Programs that raise and record

A program has a state that outlives its exceptions: what it has recorded when it raises
stays recorded. The rules here take a run apart at each of the ways to combine
programs, so the run of a whole is told by the runs of its parts. -/

namespace Agentfork

/-- A program with exceptions `ε` and states `σ`. -/
abbrev Raising (ε σ α : Type) := ExceptT ε (StateM σ) α

namespace Raising

variable {ε σ α β : Type} {state : σ}

/-- What a program returns or raises, and the state that it leaves. -/
def perform (program : Raising ε σ α) (state : σ) : Except ε α × σ := (ExceptT.run program).run state

@[simp] theorem perform_pure (value : α) : (pure value : Raising ε σ α).perform state = (.ok value, state) := rfl

@[simp] theorem perform_throw (fault : ε) : (throw fault : Raising ε σ α).perform state = (.error fault, state) := rfl

@[simp] theorem perform_modify (update : σ → σ) :
    (modify update : Raising ε σ Unit).perform state = (.ok (), update state) := rfl

theorem perform_bind (first : Raising ε σ α) (next : α → Raising ε σ β) : (first >>= next).perform state =
    match first.perform state with
    | (.ok value, after) => (next value).perform after
    | (.error fault, after) => (.error fault, after) := by
  change (match (ExceptT.run first).run state with
    | (result, after) => (ExceptT.bindCont next result : StateM σ _).run after) = _
  rw [perform]
  cases (ExceptT.run first).run state with
  | mk result after => cases result <;> rfl

theorem perform_map (function : α → β) (first : Raising ε σ α) : (function <$> first).perform state =
    match first.perform state with
    | (.ok value, after) => (.ok (function value), after)
    | (.error fault, after) => (.error fault, after) := by
  rw [map_eq_pure_bind, perform_bind]
  rfl

theorem perform_tryCatch (first : Raising ε σ α) (handler : ε → Raising ε σ α) : (tryCatch first handler).perform state =
    match first.perform state with
    | (.ok value, after) => (.ok value, after)
    | (.error fault, after) => (handler fault).perform after := by
  have caught : (tryCatch first handler).perform state = (ExceptT.run (tryCatch first handler)).run state := rfl
  rw [caught, ExceptT.run_tryCatch, StateT.run_bind, perform]
  cases (ExceptT.run first).run state with
  | mk result after => cases result <;> rfl

/-- `try .. finally`: the last part is done whatever has been raised, and that goes on after it. -/
def andFinally (first : Raising ε σ α) (last : Raising ε σ β) : Raising ε σ α := do
  let outcome ← tryCatch (Except.ok <$> first) fun fault => pure (Except.error fault)
  let _ ← last
  match outcome with
  | .ok value => pure value
  | .error fault => throw fault

theorem perform_andFinally (first : Raising ε σ α) (last : Raising ε σ β) : (first.andFinally last).perform state =
    match first.perform state with
    | (result, after) =>
      match last.perform after with
      | (.ok _, finished) => (result, finished)
      | (.error fault, finished) => (.error fault, finished) := by
  rw [andFinally, perform_bind, perform_tryCatch, perform_map]
  cases first.perform state with
  | mk result after =>
    cases result with
    | ok value =>
      simp only [perform_bind]
      cases last.perform after with
      | mk ending finished => cases ending <;> rfl
    | error fault =>
      simp only [perform_pure, perform_bind]
      cases last.perform after with
      | mk ending finished => cases ending <;> rfl

end Raising

end Agentfork

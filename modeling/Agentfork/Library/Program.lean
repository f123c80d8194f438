import Mathlib.Tactic.Basic

/-! # Programs that make requests

A program makes requests of its surroundings, one after the other, and goes on
with the answers. A method is a program with a state of its own that may raise.
`service before request answer after` says how the surroundings may answer, so a
program has as many runs as they have answers. The rules below take the run of a
method apart along its text. -/

namespace Agentfork

inductive Program (ρ : Type) (ο : ρ → Type) (α : Type) where
  | done (value : α)
  | call (request : ρ) (next : ο request → Program ρ ο α)

namespace Program

variable {ρ α β σ : Type} {ο : ρ → Type}

def bind : Program ρ ο α → (α → Program ρ ο β) → Program ρ ο β
  | .done value, next => next value
  | .call request rest, next => .call request fun answer => (rest answer).bind next

inductive Runs (service : σ → (request : ρ) → ο request → σ → Prop) : σ → Program ρ ο α → α → σ → Prop where
  | done {state : σ} {value : α} : Runs service state (.done value) value state
  | call {state middle after : σ} {request : ρ} {answer : ο request} {next : ο request → Program ρ ο α} {value : α} :
    service state request answer middle → Runs service middle (next answer) value after →
      Runs service state (.call request next) value after

variable {service : σ → (request : ρ) → ο request → σ → Prop} {state after : σ}

theorem runs_done {value result : α} :
    Runs service state (.done value : Program ρ ο α) result after ↔ result = value ∧ after = state := by
  constructor
  · intro run
    cases run
    exact ⟨rfl, rfl⟩
  · rintro ⟨rfl, rfl⟩
    exact .done

theorem runs_call {request : ρ} {next : ο request → Program ρ ο α} {result : α} :
    Runs service state (.call request next) result after ↔
      ∃ answer middle, service state request answer middle ∧ Runs service middle (next answer) result after := by
  constructor
  · intro run
    cases run with
    | call answered rest => exact ⟨_, _, answered, rest⟩
  · rintro ⟨answer, middle, answered, rest⟩
    exact .call answered rest

theorem runs_bind {program : Program ρ ο α} {next : α → Program ρ ο β} {result : β} :
    Runs service state (program.bind next) result after ↔
      ∃ first middle, Runs service state program first middle ∧ Runs service middle (next first) result after := by
  induction program generalizing state with
  | done value =>
    constructor
    · intro run
      exact ⟨value, state, .done, run⟩
    · rintro ⟨first, middle, begun, rest⟩
      obtain ⟨rfl, rfl⟩ := runs_done.1 begun
      exact rest
  | call request next inductionHypothesis =>
    rw [bind, runs_call]
    constructor
    · rintro ⟨answer, middle, answered, run⟩
      obtain ⟨first, later, begun, rest⟩ := (inductionHypothesis answer).1 run
      exact ⟨first, later, .call answered begun, rest⟩
    · rintro ⟨first, later, begun, rest⟩
      obtain ⟨answer, middle, answered, begun⟩ := runs_call.1 begun
      exact ⟨answer, middle, answered, (inductionHypothesis answer).2 ⟨first, later, begun, rest⟩⟩

/-! ## What all runs meet -/

/-- A run from `state` comes to this request in `middle`. -/
inductive Asks (service : σ → (request : ρ) → ο request → σ → Prop) : σ → Program ρ ο α → σ → ρ → Prop where
  | here {state : σ} {request : ρ} {next : ο request → Program ρ ο α} :
    Asks service state (.call request next) state request
  | later {state between middle : σ} {request asked : ρ} {answer : ο request} {next : ο request → Program ρ ο α} :
    service state request answer between → Asks service between (next answer) middle asked →
      Asks service state (.call request next) middle asked

/-- Requests are made in states that allow them, and the result meets `post`. -/
def Obeys (service : σ → (request : ρ) → ο request → σ → Prop) (allows : σ → ρ → Prop) :
    Program ρ ο α → (α → σ → Prop) → σ → Prop
  | .done value, post, state => post value state
  | .call request next, post, state => allows state request ∧
      ∀ answer after, service state request answer after → Obeys service allows (next answer) post after

variable {allows : σ → ρ → Prop} {post : α → σ → Prop} {program : Program ρ ο α}

theorem Obeys.runs (obeys : Obeys service allows program post state) {result : α}
    (run : Runs service state program result after) : post result after := by
  induction run with
  | done => exact obeys
  | call answered _ inductionHypothesis => exact inductionHypothesis (obeys.2 _ _ answered)

theorem Obeys.asks (obeys : Obeys service allows program post state) {middle : σ} {asked : ρ}
    (comes : Asks service state program middle asked) : allows middle asked := by
  induction comes with
  | here => exact obeys.1
  | later answered _ inductionHypothesis => exact inductionHypothesis (obeys.2 _ _ answered)

theorem Obeys.mono (obeys : Obeys service allows program post state) {weaker : α → σ → Prop}
    (implied : ∀ value after, post value after → weaker value after) : Obeys service allows program weaker state := by
  induction program generalizing state with
  | done value => exact implied value state obeys
  | call request next inductionHypothesis =>
    exact ⟨obeys.1, fun answer after answered => inductionHypothesis answer (obeys.2 answer after answered)⟩

theorem obeys_bind {next : α → Program ρ ο β} {post : β → σ → Prop} :
    Obeys service allows (program.bind next) post state ↔
      Obeys service allows program (fun value after => Obeys service allows (next value) post after) state := by
  induction program generalizing state with
  | done value => exact Iff.rfl
  | call request rest inductionHypothesis =>
    exact and_congr_right fun _ => forall₂_congr fun answer _ => imp_congr_right fun _ => inductionHypothesis answer

end Program

/-! ## Methods -/

/-- `ℓ` is the state of the object, `ε` what a method raises. -/
def Method (ρ : Type) (ο : ρ → Type) (ℓ ε α : Type) : Type := ℓ → Program ρ ο (Except ε α × ℓ)

namespace Method

variable {ρ ℓ ε α β σ : Type} {ο : ρ → Type}

def andThen (method : Method ρ ο ℓ ε α) (next : α → Method ρ ο ℓ ε β) : Method ρ ο ℓ ε β := fun own =>
  (method own).bind fun ended =>
    match ended with
    | (.ok value, own) => next value own
    | (.error raised, own) => .done (.error raised, own)

instance : Monad (Method ρ ο ℓ ε) where
  pure value := fun own => .done (.ok value, own)
  bind := andThen

def get : Method ρ ο ℓ ε ℓ := fun own => .done (.ok own, own)

def modify (change : ℓ → ℓ) : Method ρ ο ℓ ε Unit := fun own => .done (.ok (), change own)

def request (request : ρ) : Method ρ ο ℓ ε (ο request) := fun own =>
  .call request fun answer => .done (.ok answer, own)

/-- Return or raise what has been computed. -/
def ofExcept (result : Except ε α) : Method ρ ο ℓ ε α := fun own => .done (result, own)

/-- `try` with a handler for everything. -/
def attempt (method : Method ρ ο ℓ ε α) : Method ρ ο ℓ ε (Except ε α) := fun own =>
  (method own).bind fun ended => .done (.ok ended.1, ended.2)

/-- The method can end with this result when it is called in these states. -/
def Ends (service : σ → (request : ρ) → ο request → σ → Prop) (method : Method ρ ο ℓ ε α) (state : σ) (own : ℓ)
    (result : Except ε α) (after : σ) (left : ℓ) : Prop :=
  Program.Runs service state (method own) (result, left) after

variable {service : σ → (request : ρ) → ο request → σ → Prop} {state after : σ} {own left : ℓ}

theorem ends_ofExcept {computed result : Except ε α} :
    Ends service (ofExcept computed) state own result after left ↔ result = computed ∧ after = state ∧ left = own := by
  unfold Ends ofExcept
  rw [Program.runs_done, Prod.mk.injEq]
  constructor
  · rintro ⟨⟨rfl, rfl⟩, rfl⟩
    exact ⟨rfl, rfl, rfl⟩
  · rintro ⟨rfl, rfl, rfl⟩
    exact ⟨⟨rfl, rfl⟩, rfl⟩

theorem ends_pure {value : α} {result : Except ε α} :
    Ends service (pure value) state own result after left ↔ result = .ok value ∧ after = state ∧ left = own :=
  @ends_ofExcept ρ ℓ ε α σ ο service state after own left (.ok value) result

theorem ends_modify {change : ℓ → ℓ} {result : Except ε Unit} :
    Ends service (modify change) state own result after left ↔
      result = .ok () ∧ after = state ∧ left = change own := by
  unfold Ends modify
  rw [Program.runs_done, Prod.mk.injEq]
  constructor
  · rintro ⟨⟨rfl, rfl⟩, rfl⟩
    exact ⟨rfl, rfl, rfl⟩
  · rintro ⟨rfl, rfl, rfl⟩
    exact ⟨⟨rfl, rfl⟩, rfl⟩

theorem ends_request {asked : ρ} {result : Except ε (ο asked)} :
    Ends service (request asked) state own result after left ↔
      ∃ answer, result = .ok answer ∧ left = own ∧ service state asked answer after := by
  unfold Ends request
  rw [Program.runs_call]
  constructor
  · rintro ⟨answer, middle, answered, run⟩
    obtain ⟨equal, rfl⟩ := Program.runs_done.1 run
    cases equal
    exact ⟨answer, rfl, rfl, answered⟩
  · rintro ⟨answer, rfl, rfl, answered⟩
    exact ⟨answer, after, answered, .done⟩

/-- A request of which the answer is returned or raised. -/
theorem ends_call {asked : ρ} {computed : ο asked → Except ε α} {result : Except ε α} :
    Ends service (request asked >>= fun answer => ofExcept (computed answer)) state own result after left ↔
      left = own ∧ ∃ answer, service state asked answer after ∧ result = computed answer := by
  change Program.Runs service state (.call asked fun answer => .done (computed answer, own)) _ _ ↔ _
  rw [Program.runs_call]
  constructor
  · rintro ⟨answer, middle, answered, run⟩
    obtain ⟨equal, rfl⟩ := Program.runs_done.1 run
    cases equal
    exact ⟨rfl, answer, answered, rfl⟩
  · rintro ⟨rfl, answer, answered, rfl⟩
    exact ⟨answer, after, answered, .done⟩

theorem ends_attempt {method : Method ρ ο ℓ ε α} {result : Except ε (Except ε α)} :
    Ends service (attempt method) state own result after left ↔
      ∃ ended, result = .ok ended ∧ Ends service method state own ended after left := by
  unfold Ends attempt
  rw [Program.runs_bind]
  constructor
  · rintro ⟨⟨ended, kept⟩, middle, run, rest⟩
    obtain ⟨equal, rfl⟩ := Program.runs_done.1 rest
    cases equal
    exact ⟨ended, rfl, run⟩
  · rintro ⟨ended, rfl, run⟩
    exact ⟨(ended, left), after, run, .done⟩

theorem ends_bind {method : Method ρ ο ℓ ε α} {next : α → Method ρ ο ℓ ε β} {result : Except ε β} :
    Ends service (method >>= next) state own result after left ↔
      (∃ value middle kept, Ends service method state own (.ok value) middle kept ∧
        Ends service (next value) middle kept result after left) ∨
      ∃ raised, result = .error raised ∧ Ends service method state own (.error raised) after left := by
  change Program.Runs service state ((method own).bind _) _ _ ↔ _
  rw [Program.runs_bind]
  constructor
  · rintro ⟨⟨ended, kept⟩, middle, begun, rest⟩
    cases ended with
    | ok value => exact .inl ⟨value, middle, kept, begun, rest⟩
    | error raised =>
      obtain ⟨equal, rfl⟩ := Program.runs_done.1 rest
      cases equal
      exact .inr ⟨raised, rfl, begun⟩
  · rintro (⟨value, middle, kept, begun, rest⟩ | ⟨raised, rfl, begun⟩)
    · exact ⟨(.ok value, kept), middle, begun, rest⟩
    · exact ⟨(.error raised, left), after, begun, .done⟩

/-- A method that returns has returned from each of its steps. -/
theorem returns_bind {method : Method ρ ο ℓ ε α} {next : α → Method ρ ο ℓ ε β} {value : β} :
    Ends service (method >>= next) state own (.ok value) after left ↔
      ∃ first middle kept, Ends service method state own (.ok first) middle kept ∧
        Ends service (next first) middle kept (.ok value) after left := by
  rw [ends_bind]
  constructor
  · rintro (returned | ⟨raised, impossible, _⟩)
    · exact returned
    · cases impossible
  · exact .inl

/-! ## Rules for what all runs meet -/

def Obeys (service : σ → (request : ρ) → ο request → σ → Prop) (allows : σ → ρ → Prop) (method : Method ρ ο ℓ ε α)
    (own : ℓ) (state : σ) (post : Except ε α → ℓ → σ → Prop) : Prop :=
  Program.Obeys service allows (method own) (fun ended after => post ended.1 ended.2 after) state

/-- A run of the method comes to this request. -/
def Asks (service : σ → (request : ρ) → ο request → σ → Prop) (method : Method ρ ο ℓ ε α) (state : σ) (own : ℓ)
    (middle : σ) (asked : ρ) : Prop :=
  Program.Asks service state (method own) middle asked

variable {allows : σ → ρ → Prop}

theorem Obeys.asks {method : Method ρ ο ℓ ε α} {post : Except ε α → ℓ → σ → Prop}
    (obeys : method.Obeys service allows own state post) {middle : σ} {asked : ρ}
    (comes : method.Asks service state own middle asked) : allows middle asked :=
  Program.Obeys.asks obeys comes

theorem Obeys.ends {method : Method ρ ο ℓ ε α} {post : Except ε α → ℓ → σ → Prop}
    (obeys : method.Obeys service allows own state post) {result : Except ε α}
    (ends : method.Ends service state own result after left) : post result left after :=
  Program.Obeys.runs obeys ends

theorem Obeys.mono {method : Method ρ ο ℓ ε α} {post weaker : Except ε α → ℓ → σ → Prop}
    (obeys : method.Obeys service allows own state post)
    (implied : ∀ result left after, post result left after → weaker result left after) :
    method.Obeys service allows own state weaker :=
  Program.Obeys.mono obeys fun ended after => implied ended.1 ended.2 after

theorem obeys_ofExcept {computed : Except ε α} {post : Except ε α → ℓ → σ → Prop} :
    (ofExcept computed).Obeys service allows own state post ↔ post computed own state := Iff.rfl

theorem obeys_modify {change : ℓ → ℓ} {post : Except ε Unit → ℓ → σ → Prop} :
    Obeys service allows (modify change) own state post ↔ post (.ok ()) (change own) state := Iff.rfl

theorem obeys_request {asked : ρ} {post : Except ε (ο asked) → ℓ → σ → Prop} :
    Obeys service allows (request asked) own state post ↔
      allows state asked ∧ ∀ answer after, service state asked answer after → post (.ok answer) own after := Iff.rfl

theorem obeys_attempt {method : Method ρ ο ℓ ε α} {post : Except ε (Except ε α) → ℓ → σ → Prop} :
    Obeys service allows (attempt method) own state post ↔
      method.Obeys service allows own state fun result left after => post (.ok result) left after :=
  Program.obeys_bind

theorem obeys_bind {method : Method ρ ο ℓ ε α} {next : α → Method ρ ο ℓ ε β} {post : Except ε β → ℓ → σ → Prop} :
    Obeys service allows (method >>= next) own state post ↔
      method.Obeys service allows own state fun result left after =>
        match result with
        | .ok value => (next value).Obeys service allows left after post
        | .error raised => post (.error raised) left after := by
  refine Program.obeys_bind.trans ?_
  unfold Obeys
  constructor
  · intro obeys
    refine obeys.mono fun ended after obeys => ?_
    obtain ⟨_ | _, left⟩ := ended
    · exact obeys
    · exact obeys
  · intro obeys
    refine obeys.mono fun ended after obeys => ?_
    obtain ⟨_ | _, left⟩ := ended
    · exact obeys
    · exact obeys

end Method

end Agentfork

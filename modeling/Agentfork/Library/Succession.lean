import Agentfork.Library.Transition

/-! # Servers that own a world one after the other

A server works on a world that outlives it: a file, processes, remote state. Several
servers are constructed over one world, each of them while it holds an exclusive
lock, which it gives up when it closes and which is free again when its process dies.
A server is described by what it makes of the world when it starts and by its steps
on a private copy of it. `Lawful` asks for what a single server keeps and for the
silence of a closed one; `Succession` is what then holds of any number of them. -/

namespace Agentfork.Handing

open Transition

structure Server (κ ω σ α ε : Type) where
  boot : κ → ω → Except ε σ
  step : κ → σ → α → Option σ
  world : σ → ω
  put : ω → σ → σ
  closed : σ → Bool

structure Member (κ σ : Type) where
  config : κ
  state : σ
  alive : Bool

structure Host (κ ω σ : Type) where
  world : ω
  /-- who holds the lock -/
  owner : Option Nat
  members : List (Member κ σ)

inductive Event (κ α : Type) where
  | construct (config : κ)
  | act (member : Nat) (action : α)
  | die (member : Nat)
  deriving DecidableEq

variable {κ ω σ α ε : Type} {server : Server κ ω σ α ε} {owned : ε}

namespace Host

/-- No server has been constructed yet. -/
def fresh (world : ω) : Host κ ω σ := ⟨world, none, []⟩

/-- `owned` is the answer while another server holds the lock; a constructor that
raises gives the lock back. -/
def construct (server : Server κ ω σ α ε) (owned : ε) (config : κ) (host : Host κ ω σ) : Except ε Unit × Host κ ω σ :=
  match host.owner with
  | some _ => (.error owned, host)
  | none =>
    match server.boot config host.world with
    | .error raised => (.error raised, host)
    | .ok state => (.ok (), { host with
        owner := some host.members.length
        members := host.members ++ [⟨config, state, true⟩] })

/-- The lock is free once its holder has given it up. -/
def release (host : Host κ ω σ) (i : Nat) (gone : Bool) : Option Nat :=
  if host.owner = some i ∧ gone = true then none else host.owner

def act (server : Server κ ω σ α ε) (i : Nat) (action : α) (host : Host κ ω σ) : Option (Host κ ω σ) :=
  match host.members[i]? with
  | some ⟨config, state, true⟩ =>
    (server.step config (server.put host.world state) action).map fun next =>
      ⟨server.world next, host.release i (server.closed next), host.members.set i ⟨config, next, true⟩⟩
  | _ => none

/-- The process dies. -/
def die (i : Nat) (host : Host κ ω σ) : Option (Host κ ω σ) :=
  match host.members[i]? with
  | some ⟨config, state, true⟩ =>
    some { host with owner := host.release i true, members := host.members.set i ⟨config, state, false⟩ }
  | _ => none

def step (server : Server κ ω σ α ε) (owned : ε) (host : Host κ ω σ) : Event κ α → Option (Host κ ω σ)
  | .construct config => some (host.construct server owned config).2
  | .act i action => host.act server i action
  | .die i => host.die i

def Step (server : Server κ ω σ α ε) (owned : ε) (before : Host κ ω σ) (event : Event κ α) (after : Host κ ω σ) : Prop :=
  before.step server owned event = some after

/-- A server of the list works and has not closed. -/
def Open (server : Server κ ω σ α ε) (host : Host κ ω σ) (i : Nat) : Prop :=
  ∃ member, host.members[i]? = some member ∧ member.alive = true ∧ server.closed member.state = false

/-- The servers act as `guard` allows them to. -/
def Guarded (server : Server κ ω σ α ε) (guard : κ → σ → α → Prop) (host : Host κ ω σ) : Event κ α → Prop
  | .act i action =>
    match host.members[i]? with
    | some member => guard member.config (server.put host.world member.state) action
    | none => True
  | _ => True

instance Guarded.decidable (server : Server κ ω σ α ε) (guard : κ → σ → α → Prop)
    [∀ config state action, Decidable (guard config state action)] (host : Host κ ω σ) :
    ∀ event, Decidable (host.Guarded server guard event)
  | .construct _ | .die _ => inferInstanceAs (Decidable True)
  | .act i action =>
    match found : host.members[i]? with
    | some member => decidable_of_iff (guard member.config (server.put host.world member.state) action)
        (by simp only [Guarded, found])
    | none => isTrue (by simp only [Guarded, found])

end Host

/-- What a server keeps while it is open, in terms of its state and of the world, and
that it leaves the world alone once it has closed. -/
structure Lawful (server : Server κ ω σ α ε) (guard : κ → σ → α → Prop) (covered : ω → Prop)
    (good : κ → σ → Prop) (shut : σ → Prop) : Prop where
  boots : ∀ {config world state}, covered world → server.boot config world = .ok state →
    good config state ∧ server.world state = world ∧ server.closed state = false
  covers : ∀ {config state}, good config state → covered (server.world state)
  puts : ∀ state, server.put (server.world state) state = state
  keeps : ∀ {config state action next}, good config state → server.closed state = false → guard config state action →
    server.step config state action = some next →
      covered (server.world next) ∧ if server.closed next then shut next else good config next
  silent : ∀ {config world state action next}, shut state →
    server.step config (server.put world state) action = some next →
      shut next ∧ server.closed next = true ∧ server.world next = world

/-- A member that works is the owner with the world as it is, or has closed. -/
structure Succession (server : Server κ ω σ α ε) (covered : ω → Prop) (good : κ → σ → Prop) (shut : σ → Prop)
    (host : Host κ ω σ) : Prop where
  covered : covered host.world
  working : ∀ i member, host.members[i]? = some member → member.alive = true →
    if server.closed member.state then shut member.state
    else host.owner = some i ∧ good member.config member.state ∧ server.world member.state = host.world
  owner : ∀ i, host.owner = some i → host.Open server i

namespace Succession

variable {guard : κ → σ → α → Prop} {covered : ω → Prop} {good : κ → σ → Prop} {shut : σ → Prop}
  {host next : Host κ ω σ} {event : Event κ α}

theorem fresh {world : ω} (isCovered : covered world) : Succession server covered good shut (Host.fresh world) where
  covered := isCovered
  working _ _ found := absurd found (by simp [Host.fresh])
  owner _ isOwner := absurd isOwner nofun

/-- One server works at a time. -/
theorem single (succession : Succession server covered good shut host) {i j : Nat} (first : host.Open server i)
    (second : host.Open server j) : i = j := by
  obtain ⟨member, found, alive, isOpen⟩ := first
  obtain ⟨other, otherFound, otherAlive, otherOpen⟩ := second
  have here := succession.working i member found alive
  have there := succession.working j other otherFound otherAlive
  rw [if_neg (by simp [isOpen])] at here
  rw [if_neg (by simp [otherOpen])] at there
  exact Option.some.inj (here.1.symm.trans there.1)

theorem construct (succession : Succession server covered good shut host) (lawful : Lawful server guard covered good shut)
    (config : κ) : Succession server covered good shut (host.construct server owned config).2 := by
  unfold Host.construct
  cases isOwner : host.owner with
  | some => exact succession
  | none =>
    simp only
    cases booted : server.boot config host.world with
    | error => exact succession
    | ok state =>
      obtain ⟨isGood, sameWorld, isOpen⟩ := lawful.boots succession.covered booted
      refine ⟨succession.covered, fun i member found alive => ?_, fun i owns => ?_⟩
      · by_cases inside : i < host.members.length
        · rw [List.getElem?_append_left inside] at found
          have old := succession.working i member found alive
          split at old
          · next isClosed =>
            rw [if_pos isClosed]
            exact old
          · cases isOwner.symm.trans old.1
        · rw [List.getElem?_append_right (Nat.not_lt.1 inside), List.getElem?_singleton] at found
          split at found
          · next here =>
            cases found
            rw [if_neg (by simp [isOpen])]
            exact ⟨congrArg some (by omega), isGood, sameWorld⟩
          · cases found
      · cases owns
        exact ⟨_, List.getElem?_concat_length, rfl, isOpen⟩

/-- Of the others none is open while one of them is. -/
theorem others (succession : Succession server covered good shut host) {i j : Nat} {member other : Member κ σ}
    (found : host.members[i]? = some member) (alive : member.alive = true) (isOpen : server.closed member.state = false)
    (differs : j ≠ i) (otherFound : host.members[j]? = some other) (otherAlive : other.alive = true) :
    server.closed other.state = true ∧ shut other.state := by
  have holds := succession.working j other otherFound otherAlive
  cases otherClosed : server.closed other.state with
  | true =>
    rw [if_pos otherClosed] at holds
    exact ⟨rfl, holds⟩
  | false => exact absurd (succession.single ⟨other, otherFound, otherAlive, otherClosed⟩ ⟨member, found, alive, isOpen⟩) differs

theorem act (succession : Succession server covered good shut host) (lawful : Lawful server guard covered good shut)
    {i : Nat} {action : α} (guarded : host.Guarded server guard (.act i action))
    (taken : host.act server i action = some next) : Succession server covered good shut next := by
  unfold Host.act at taken
  split at taken
  · next config state found =>
    obtain ⟨after, stepped, rfl⟩ := Option.map_eq_some_iff.1 taken
    obtain ⟨inside, _⟩ := List.getElem?_eq_some_iff.1 found
    have holds := succession.working i _ found rfl
    cases isClosed : server.closed state with
    | true =>
      -- a closed server changes nothing
      rw [if_pos isClosed] at holds
      obtain ⟨stillShut, stillClosed, sameWorld⟩ := lawful.silent holds stepped
      have notOwner : host.owner ≠ some i := by
        intro isOwner
        obtain ⟨member, same, _, isOpen⟩ := succession.owner i isOwner
        cases same.symm.trans found
        cases isOpen.symm.trans isClosed
      have sameOwner : host.release i (server.closed after) = host.owner := if_neg fun both => notOwner both.1
      refine ⟨sameWorld ▸ succession.covered, fun j member memberFound alive => ?_, fun j isOwner => ?_⟩
      · simp only [sameOwner, sameWorld]
        by_cases here : i = j
        · subst here
          rw [List.getElem?_set_self inside] at memberFound
          cases memberFound
          rw [if_pos stillClosed]
          exact stillShut
        · rw [List.getElem?_set_ne here] at memberFound
          exact succession.working j member memberFound alive
      · rw [sameOwner] at isOwner
        obtain ⟨member, memberFound, rest⟩ := succession.owner j isOwner
        refine ⟨member, (List.getElem?_set_ne ?_).trans memberFound, rest⟩
        rintro rfl
        exact notOwner isOwner
    | false =>
      rw [if_neg (by simp [isClosed])] at holds
      obtain ⟨isOwner, isGood, sameWorld⟩ := holds
      rw [← sameWorld, lawful.puts] at stepped
      have allowed : guard config state action := by
        simpa only [Host.Guarded, found, ← sameWorld, lawful.puts] using guarded
      obtain ⟨isCovered, kept⟩ := lawful.keeps isGood isClosed allowed stepped
      refine ⟨isCovered, fun j member memberFound alive => ?_, fun j owns => ?_⟩
      · by_cases here : i = j
        · subst here
          rw [List.getElem?_set_self inside] at memberFound
          cases memberFound
          cases nowClosed : server.closed after with
          | true =>
            rw [if_pos nowClosed] at kept
            exact kept
          | false =>
            rw [if_neg (by simp [nowClosed])] at kept
            refine ⟨?_, kept, rfl⟩
            unfold Host.release
            rw [if_neg (by simp)]
            exact isOwner
        · rw [List.getElem?_set_ne here] at memberFound
          obtain ⟨otherClosed, otherShut⟩ := succession.others found rfl isClosed (Ne.symm here) memberFound alive
          rw [if_pos otherClosed]
          exact otherShut
      · unfold Host.release at owns
        split at owns
        · cases owns
        · next keepsLock =>
          cases isOwner.symm.trans owns
          refine ⟨_, List.getElem?_set_self inside, rfl, ?_⟩
          simpa [isOwner] using keepsLock
  · cases taken

theorem die (succession : Succession server covered good shut host) {i : Nat} (taken : host.die i = some next) :
    Succession server covered good shut next := by
  unfold Host.die at taken
  split at taken
  · next config state found =>
    cases taken
    obtain ⟨inside, _⟩ := List.getElem?_eq_some_iff.1 found
    refine ⟨succession.covered, fun j member memberFound alive => ?_, fun j owns => ?_⟩
    · by_cases here : i = j
      · subst here
        rw [List.getElem?_set_self inside] at memberFound
        cases memberFound
        cases alive
      · rw [List.getElem?_set_ne here] at memberFound
        have holds := succession.working j member memberFound alive
        split at holds
        · next isClosed =>
          rw [if_pos isClosed]
          exact holds
        · next isOpen =>
          rw [if_neg isOpen]
          refine ⟨?_, holds.2⟩
          unfold Host.release
          rw [if_neg fun both => here (Option.some.inj (both.1.symm.trans holds.1))]
          exact holds.1
    · unfold Host.release at owns
      split at owns
      · cases owns
      · next notHolder =>
        obtain ⟨member, memberFound, rest⟩ := succession.owner j owns
        refine ⟨member, (List.getElem?_set_ne ?_).trans memberFound, rest⟩
        rintro rfl
        exact notHolder ⟨owns, rfl⟩
  · cases taken

theorem step (succession : Succession server covered good shut host) (lawful : Lawful server guard covered good shut)
    (guarded : host.Guarded server guard event) (taken : host.Step server owned event next) :
    Succession server covered good shut next := by
  cases event with
  | construct config =>
    cases taken
    exact succession.construct lawful config
  | act => exact succession.act lawful guarded taken
  | die => exact succession.die taken

/-- The servers of a run own the world one after the other. -/
theorem of_reachable {world : ω} (lawful : Lawful server guard covered good shut) (isCovered : covered world)
    (reached : Reachable (Host.Step server owned) (Host.Guarded server guard) (Host.fresh world) host) :
    Succession server covered good shut host :=
  reached.invariant (fresh isCovered) fun _ _ _ succession guarded taken => succession.step lawful guarded taken

/-- A lock that nobody open holds is free. -/
theorem free (succession : Succession server covered good shut host) (nobody : ∀ i, ¬ host.Open server i) :
    host.owner = none :=
  Option.eq_none_iff_forall_ne_some.2 fun i isOwner => nobody i (succession.owner i isOwner)

/-- A server that has closed leaves the world alone. -/
theorem closed_act (succession : Succession server covered good shut host) (lawful : Lawful server guard covered good shut)
    {i : Nat} {action : α} {member : Member κ σ} (found : host.members[i]? = some member)
    (isClosed : server.closed member.state = true) (taken : host.act server i action = some next) :
    next.world = host.world := by
  unfold Host.act at taken
  split at taken
  · next config state same =>
    cases same.symm.trans found
    obtain ⟨after, stepped, rfl⟩ := Option.map_eq_some_iff.1 taken
    have holds := succession.working i _ same rfl
    rw [if_pos isClosed] at holds
    exact (lawful.silent holds stepped).2.2
  · cases taken

end Succession

end Agentfork.Handing

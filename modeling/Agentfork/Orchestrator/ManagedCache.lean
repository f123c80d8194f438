import Agentfork.Kv.SameHoldings
import Agentfork.Orchestrator.Journal

/-! # The orchestrator over its prefix cache

The cache lives in the orchestrator's process and dies with it. A cache method
runs under the cache's own lock, so the cache call of a task takes effect in one
step. It raises what the method raises, or an exception that reaches the thread
before the method has begun or after it has ended. -/

namespace Agentfork.Orchestrator

open Shared Transition Kv

structure Managed where
  state : State
  cache : TreeKVCache Nat

/-- `create_tree` for a root, `fork_branch` for a child. -/
def StartTask.treeCall (task : StartTask) : Kv.Op Nat :=
  match task.parentId with
  | none => .createTree task.branchId
  | some parentId => .forkBranch parentId (some task.branchId)

/-- The cache call that a task is in. -/
def Task.cacheCall (clock : Nat) : Task → Option (Kv.Op Nat)
  | .start task =>
    match task.phase with
    | .kvStart => some task.treeCall
    | .kvExtend => some (.extend clock task.branchId task.tokens)
    | .rollbackKv _ => some (.kill task.branchId)
    | _ => none
  | .kill task =>
    match task.phase with
    | .kvKill => some (.kill task.branchId)
    | _ => none

/-- What `kv.kill` returns is what the receipt of the kill reports. -/
def Env.reports (env : Env) : Kv.Op Nat → Kv.Value → Bool
  | .kill _, .tokens freed => env.freed = freed
  | _, _ => true

/-- The cache after a call that ends as the surroundings say. An exception that
leaves no effect is the method's own or has come before it. -/
def cacheStep (cache : TreeKVCache Nat) (op : Kv.Op Nat) (env : Env) (entered : Bool) :
    Option (TreeKVCache Nat) :=
  match env.reply, cache.apply op with
  | .returned, (.ok value, after) => if env.reports op value then some after else none
  | .raised _ true, (.ok _, after) => some after
  | .raised _ false, (.ok _, _) => some cache
  | .raised _ false, (.error _, after) => some (if entered then after else cache)
  | _, _ => none

inductive ManagedAction where
  | take (action : Action) (clock : Nat) (entered : Bool)
  /-- the cache call of an `extend` that has found its branch live -/
  | extend (clock : Nat) (branchId : BranchId) (tokens : List Nat)
  deriving DecidableEq

/-- The step is one of the given call. -/
def ManagedAction.isOf (c : Nat) : ManagedAction → Bool
  | .take (.item call _ _) _ _ | .take (.advance call) _ _ => call = c
  | _ => false

namespace Managed

def cacheCall (managed : Managed) (clock : Nat) : Action → Option (Kv.Op Nat × Env)
  | .item c i env => ((managed.state.task? (c, i)).bind (Task.cacheCall clock)).map fun op => (op, env)
  | _ => none

def step (config : Config) (managed : Managed) : ManagedAction → Option Managed
  | .take action clock entered => (managed.state.step config action).bind fun state =>
    match managed.cacheCall clock action with
    | none => some ⟨state, managed.cache⟩
    | some (op, env) => (cacheStep managed.cache op env entered).map fun cache => ⟨state, cache⟩
  | .extend clock branchId tokens =>
    some { managed with cache := managed.cache.perform (.extend clock branchId tokens) }

def Step (config : Config) (before : Managed) (action : ManagedAction) (after : Managed) : Prop :=
  before.step config action = some after

/-- No id is journaled while it is marked, no root is created in the namespace of
a live branch, and no child has the empty id. -/
def Orderly (config : Config) (managed : Managed) : ManagedAction → Prop
  | .take action clock _ => managed.state.Unmarked config action ∧
    ∀ call ∈ managed.cacheCall clock action,
      call.1.named = true ∧ Tracked.NamespaceFree ⟨managed.cache, PrefixModel.init⟩ call.1
  | .extend _ _ _ => True

instance (config : Config) (managed : Managed) : ∀ action, Decidable (managed.Orderly config action)
  | .take action clock _ => inferInstanceAs (Decidable (managed.state.Unmarked config action ∧
      ∀ call ∈ managed.cacheCall clock action,
        call.1.named = true ∧ Tracked.NamespaceFree ⟨managed.cache, PrefixModel.init⟩ call.1))
  | .extend _ _ _ => inferInstanceAs (Decidable True)

end Managed

/-! ## The cache call of a task -/

/-- The branches in the cache after a call that has taken effect. -/
def holding (op : Kv.Op Nat) (kv : Finset BranchId) : Finset BranchId :=
  match op with
  | .createTree branchId => insert branchId kv
  | .forkBranch _ (some branchId) => insert branchId kv
  | .kill branchId => kv.erase branchId
  | _ => kv

/-- Silent sections leave the backends alone. -/
theorem Silent.kv {config : Config} {before after : Shared} (silent : Silent config before after) :
    after.kv = before.kv := by
  ext branchId
  have same := congrArg View.kv (silent.view ∅ branchId)
  change branchId ∈ after.kv ↔ branchId ∈ before.kv
  exact iff_of_eq same

theorem Silent.sandbox {config : Config} {before after : Shared} (silent : Silent config before after) :
    after.sandbox = before.sandbox := by
  ext branchId
  have same := congrArg View.sandbox (silent.view ∅ branchId)
  change branchId ∈ after.sandbox ↔ branchId ∈ before.sandbox
  exact iff_of_eq same

section Tasks

variable {config : Config} {env : Env} {shared after : Shared}

/-- What a task makes of `kv` is what its cache call does. -/
def Task.heldAfter (clock : Nat) (env : Env) (task : Task) (kv : Finset BranchId) : Finset BranchId :=
  match task.cacheCall clock with
  | none => kv
  | some op => if env.reply.effect then holding op kv else kv

theorem startStep_kv {task : StartTask} {phase : StartPhase} (clock : Nat)
    (taken : startStep config env shared task = some (after, phase)) :
    after.kv = (Task.start task).heldAfter clock env shared.kv := by
  simp only [Task.heldAfter, Task.cacheCall]
  cases startStep_move taken with
  | begins atPhase => simp only [atPhase]
  | calls atPhase call replies =>
    obtain rfl := replies.effect
    cases call with
    | kvStart =>
      simp only [atPhase, StartTask.treeCall]
      cases task.parentId <;> simp only [holding] <;> split <;> rfl
    | rollbackKv =>
      simp only [atPhase, holding]
      split <;> rfl
    | kvExtend | waitReady => simp only [atPhase, holding, ite_self]
    | sandboxSpawn | rollbackSandbox =>
      simp only [atPhase]
      split <;> rfl
  | goesLive atPhase | forgets atPhase =>
    simp only [atPhase]
    exact write_kv _ _
  | staysForking atPhase _ quiet | staysRecorded atPhase _ quiet =>
    simp only [atPhase]
    exact congrArg World.kv quiet.world
  | ends atPhase =>
    simp only [atPhase]
    rfl

theorem killStep_kv {task : KillTask} {phase : KillPhase} (clock : Nat)
    (taken : killStep config env shared task = some (after, phase)) :
    after.kv = (Task.kill task).heldAfter clock env shared.kv := by
  simp only [Task.heldAfter, Task.cacheCall]
  cases killStep_move taken with
  | calls atPhase call replies =>
    obtain rfl := replies.effect
    cases call with
    | sandboxKill =>
      simp only [atPhase]
      split <;> rfl
    | kvKill =>
      simp only [atPhase, holding]
      split <;> rfl
  | admitted atPhase | forgets atPhase =>
    simp only [atPhase]
    exact write_kv _ _
  | refused atPhase _ quiet | staysRecorded atPhase _ quiet =>
    simp only [atPhase]
    exact congrArg World.kv quiet.world
  | fails atPhase =>
    simp only [atPhase]
    rfl

theorem Task.step_kv {task next : Task} (clock : Nat) (stepped : task.step config env shared = some (after, next)) :
    after.kv = task.heldAfter clock env shared.kv := by
  cases task with
  | start task =>
    obtain ⟨⟨_, phase⟩, taken, equal⟩ := Option.map_eq_some_iff.1 stepped
    cases equal
    exact startStep_kv clock taken
  | kill task =>
    obtain ⟨⟨_, phase⟩, taken, equal⟩ := Option.map_eq_some_iff.1 stepped
    cases equal
    exact killStep_kv clock taken

end Tasks

/-! ## The branches in the cache -/

/-- The cache agrees with a model whose branches are those that `kv` lists. -/
structure CacheHolds (cache : TreeKVCache Nat) (kv : Finset BranchId) (model : PrefixModel Nat) : Prop where
  agrees : Agrees cache model
  held : ∀ branchId, branchId ∈ model.live ↔ branchId ∈ kv

section Cache

variable {cache after : TreeKVCache Nat} {model : PrefixModel Nat} {kv : Finset BranchId} {op : Kv.Op Nat} {env : Env}
  {entered : Bool}

theorem mem_next (holds : CacheHolds cache kv model) (named : op.named = true) {value : Kv.Value}
    (succeeded : (cache.apply op).1 = .ok value) (branchId : BranchId) :
    branchId ∈ (model.next op (.ok value)).live ↔ branchId ∈ holding op kv := by
  cases op with
  | createTree treeId =>
    simp only [PrefixModel.next, holding, Dict.mem_insert, Finset.mem_insert, holds.held]
  | forkBranch parentId childId =>
    obtain ⟨child, rfl, nonempty⟩ := Op.named_fork named
    obtain ⟨parent, _, _, equal⟩ := holds.agrees.forkBranch_ok nonempty succeeded
    simp only [equal, holding, Dict.mem_insert, Finset.mem_insert, holds.held]
  | extend now treeId tokens =>
    simp only [PrefixModel.next, holding]
    cases live : model.live.get? treeId with
    | none => exact holds.held branchId
    | some branch =>
      simp only [Dict.mem_insert, holds.held]
      refine ⟨?_, .inr⟩
      rintro (rfl | held)
      · exact (holds.held branchId).1 (Dict.mem_of_get? live)
      · exact held
  | kill treeId => simp only [PrefixModel.next, holding, Dict.mem_erase, Finset.mem_erase, holds.held]
  | matchPrefix | matchTreePrefix => exact holds.held branchId

/-- The model after a cache call of a task. -/
def modelAfter (cache : TreeKVCache Nat) (op : Kv.Op Nat) (env : Env) (model : PrefixModel Nat) : PrefixModel Nat :=
  if env.reply.effect then model.next op (cache.apply op).1 else model

theorem cacheStep_cases (stepped : cacheStep cache op env entered = some after) :
    (env.reply.effect = true ∧ (∃ value, (cache.apply op).1 = .ok value) ∧ after = cache.perform op) ∨
      env.reply.effect = false ∧ (after = cache ∨ after = cache.perform op ∧ ∃ error, (cache.apply op).1 = .error error) := by
  unfold cacheStep at stepped
  unfold TreeKVCache.perform
  split at stepped
  next value performed replied applied =>
    split at stepped <;> cases stepped
    exact .inl ⟨by rw [replied]; rfl, ⟨value, by rw [applied]⟩, by rw [applied]⟩
  next fault value performed replied applied =>
    cases stepped
    exact .inl ⟨by rw [replied]; rfl, ⟨value, by rw [applied]⟩, by rw [applied]⟩
  next replied _ =>
    cases stepped
    exact .inr ⟨by rw [replied]; rfl, .inl rfl⟩
  next fault error performed replied applied =>
    cases stepped
    refine .inr ⟨by rw [replied]; rfl, ?_⟩
    split
    · exact .inr ⟨by rw [applied], error, by rw [applied]⟩
    · exact .inl rfl
  next => cases stepped

/-- A cache call does not take effect and go on. -/
theorem cacheStep_not_working (stepped : cacheStep cache op env entered = some after) : env.reply ≠ .working := by
  intro working
  unfold cacheStep at stepped
  rw [working] at stepped
  cases stepped

theorem cacheStep_holds (holds : CacheHolds cache kv model) (named : op.named = true)
    (free : Tracked.NamespaceFree ⟨cache, PrefixModel.init⟩ op)
    (stepped : cacheStep cache op env entered = some after) :
    CacheHolds after (if env.reply.effect then holding op kv else kv) (modelAfter cache op env model) ∧
      after.limits = cache.limits := by
  have allowed := @Tracked.unused_of_free Nat _ ⟨cache, model⟩ holds.agrees op (by cases op <;> exact free)
  have performed := holds.agrees.perform op allowed
  unfold modelAfter
  obtain ⟨effect, ⟨value, succeeded⟩, rfl⟩ | ⟨noEffect, rfl | ⟨rfl, error, failed⟩⟩ := cacheStep_cases stepped
  · rw [if_pos effect, if_pos effect]
    rw [succeeded] at performed ⊢
    exact ⟨⟨performed, mem_next holds named succeeded⟩, holds.agrees.limits_perform op⟩
  · rw [if_neg (by simp [noEffect]), if_neg (by simp [noEffect])]
    exact ⟨holds, rfl⟩
  · rw [if_neg (by simp [noEffect]), if_neg (by simp [noEffect])]
    have unchanged : model.next op (.error error) = model := by cases op <;> rfl
    rw [failed, unchanged] at performed
    exact ⟨⟨performed, holds.held⟩, holds.agrees.limits_perform op⟩

end Cache

/-! ## Steps of one call -/

namespace Managed

/-- The cache after a step of a task that is in the given cache call, if in any. -/
def Calls (cache : TreeKVCache Nat) (env : Env) (entered : Bool) (after : TreeKVCache Nat) : Option (Kv.Op Nat) → Prop
  | none => after = cache
  | some op => cacheStep cache op env entered = some after

/-- What a call can do by itself. -/
inductive Own (config : Config) (managed : Managed) (c : Nat) (call : Call) : ManagedAction → Managed → Prop where
  | item {i clock : Nat} {env : Env} {entered : Bool} {task next : Task} {shared : Shared} {cache : TreeKVCache Nat}
    (atItem : call.items[i]? = some task) (running : call.isOver = false)
    (allowed : task.queued = true → call.mayStart config i = true)
    (stepped : task.step config env managed.state.shared = some (shared, next))
    (called : Calls managed.cache env entered cache (task.cacheCall clock)) :
    Own config managed c call (.take (.item c i env) clock entered)
      ⟨⟨shared, managed.state.calls.set c { call with items := call.items.set i next }⟩, cache⟩
  | advance {clock : Nat} {entered : Bool} {shared : Shared} {next : Call}
    (advanced : call.advance config managed.state.shared = some (shared, next)) :
    Own config managed c call (.take (.advance c) clock entered)
      ⟨⟨shared, managed.state.calls.set c next⟩, managed.cache⟩

variable {config : Config} {managed after : Managed} {action : ManagedAction} {c : Nat} {call : Call}

theorem Step.own (taken : managed.Step config action after) (own : action.isOf c = true)
    (atCall : managed.state.calls[c]? = some call) : managed.Own config c call action after := by
  cases action with
  | extend => cases own
  | take action clock entered =>
    obtain ⟨state, moved, taken⟩ := Option.bind_eq_some_iff.1 taken
    cases State.Step.move moved with
    | journal | invoke => cases own
    | @item c i env other task next shared atOther atItem running allowed stepped =>
      obtain rfl := of_decide_eq_true own
      have isCall := atCall.symm.trans atOther
      cases isCall
      have found : managed.state.task? (_, i) = some task := (taskAt_of_call atCall i).trans atItem
      simp only [cacheCall, found, Option.bind_some] at taken
      cases isCall : task.cacheCall clock with
      | none =>
        simp only [isCall, Option.map_none] at taken
        cases taken
        exact .item atItem running allowed stepped (by rw [isCall]; rfl)
      | some op =>
        simp only [isCall, Option.map_some] at taken
        obtain ⟨cache, performed, rfl⟩ := Option.map_eq_some_iff.1 taken
        exact .item atItem running allowed stepped (by rw [isCall]; exact performed)
    | advance atOther _ _ _ advanced =>
      obtain rfl := of_decide_eq_true own
      have isCall := atCall.symm.trans atOther
      cases isCall
      cases taken
      exact .advance advanced

theorem cacheCall_item (clock : Nat) {i : Nat} {env : Env} {task : Task} (atCall : managed.state.calls[c]? = some call)
    (atItem : call.items[i]? = some task) :
    managed.cacheCall clock (.item c i env) = (task.cacheCall clock).map fun op => (op, env) := by
  have found : managed.state.task? (c, i) = some task := (taskAt_of_call atCall i).trans atItem
  simp only [cacheCall, found, Option.bind_some]

end Managed

/-! ## The invariant -/

namespace Managed

/-- The cache holds the branches that the registry's world lists for it, and what
the backends hold this process has loaded or journaled. -/
structure Sound (config : Config) (origin : Finset BranchId) (managed : Managed) : Prop where
  disciplined : Disciplined config origin managed.state
  holds : ∃ model, CacheHolds managed.cache managed.state.shared.kv model
  mine : ∀ branchId, branchId ∈ managed.state.shared.kv ∨ branchId ∈ managed.state.shared.sandbox →
    (managed.state.shared.view origin branchId).owned

namespace Sound

variable {config : Config} {origin : Finset BranchId} {managed after : Managed} {action : ManagedAction}

/-- A held branch is recorded. -/
theorem recorded (sound : Sound config origin managed) {branchId : BranchId}
    (held : branchId ∈ managed.state.shared.kv ∨ branchId ∈ managed.state.shared.sandbox) :
    branchId ∈ managed.state.shared.branches :=
  sound.disciplined.recorded_of_held (sound.mine branchId held) held

theorem boot {world : World} {shared : Shared} {capacity : Int} {budget : Option Int} {cache : TreeKVCache Nat}
    (booted : Shared.boot config world = .ok shared) (noCache : world.kv = ∅)
    (recorded : ∀ branchId ∈ world.sandbox, ∃ branch ∈ world.file, branch.branchId = branchId)
    (created : TreeKVCache.new capacity budget = .ok cache) :
    Sound config shared.loaded ⟨State.fresh shared, cache⟩ := by
  have disciplined := Disciplined.boot booted
  unfold Shared.boot at booted
  simp only at booted
  split at booted
  · cases booted
  · cases booted
    refine ⟨disciplined, ⟨PrefixModel.init, Agrees.of_new created, fun branchId => ?_⟩, fun branchId held => ?_⟩
    · simp [State.fresh, noCache, PrefixModel.init]
    · simp only [State.fresh, noCache, Finset.notMem_empty, false_or] at held
      refine .inr ?_
      rw [List.mem_toFinset, Dict.mem_keys]
      exact mem_ofRecords.2 (recorded branchId held)

/-- What a task adds to the backends is its own id. -/
theorem mine_item {env : Env} {shared : Shared} {task next : Task} {index : Nat × Nat}
    (sound : Sound config origin managed) (found : managed.state.task? index = some task)
    (stepped : task.step config env managed.state.shared = some (shared, next)) :
    ∀ branchId, branchId ∈ shared.kv ∨ branchId ∈ shared.sandbox → (shared.view origin branchId).owned := by
  intro branchId held
  have moves := Task.step_moves (sound.disciplined.recorded task.branchId) stepped
  have started : shared.started = managed.state.shared.started := (Task.step_marks stepped).1
  have of_before : (managed.state.shared.view origin branchId).owned → (shared.view origin branchId).owned := by
    simp only [view, started]
    exact id
  have of_same : shared.view origin branchId = managed.state.shared.view origin branchId →
      (shared.view origin branchId).owned := by
    intro same
    refine of_before (sound.mine branchId (held.imp ?_ ?_))
    · exact (iff_of_eq (congrArg View.kv same)).1
    · exact (iff_of_eq (congrArg View.sandbox same)).1
  by_cases here : branchId = task.branchId
  · subst here
    cases wasActive : task.active with
    | true =>
      refine of_before ?_
      have owns := sound.disciplined.owned.owns index task found wasActive
      cases task with
      | start task => exact StartOwns.owned owns
      | kill task => exact KillOwns.owned owns
    | false =>
      cases isActive : next.active with
      | true =>
        have owns := (moves.enters wasActive isActive).2.2
        cases next with
        | start next => exact StartOwns.owned owns
        | kill next => exact KillOwns.owned owns
      | false => exact of_same (moves.refuses wasActive isActive)
  · exact of_same (moves.onlyAt branchId here)

/-- A change that the backends do not see. -/
theorem quiet {state : State} (sound : Sound config origin managed) (disciplined : Disciplined config origin state)
    (kv : state.shared.kv = managed.state.shared.kv) (sandbox : state.shared.sandbox = managed.state.shared.sandbox)
    (started : ∀ branchId ∈ managed.state.shared.started, branchId ∈ state.shared.started) :
    Sound config origin ⟨state, managed.cache⟩ := by
  refine ⟨disciplined, ?_, fun branchId held => ?_⟩
  · rw [kv]
    exact sound.holds
  · rw [kv, sandbox] at held
    exact (sound.mine branchId held).imp_left (started branchId)

theorem step (sound : Sound config origin managed) (orderly : managed.Orderly config action)
    (taken : managed.Step config action after) : Sound config origin after := by
  unfold Step Managed.step at taken
  cases action with
  | extend clock branchId tokens =>
    cases taken
    obtain ⟨model, holds⟩ := sound.holds
    refine ⟨sound.disciplined, ⟨_, holds.agrees.perform _ nofun, fun other => ?_⟩, sound.mine⟩
    cases outcome : (managed.cache.apply (.extend clock branchId tokens)).1 with
    | error error => exact holds.held other
    | ok value => exact mem_next holds rfl outcome other
  | take action clock entered =>
    obtain ⟨unmarked, named⟩ := orderly
    obtain ⟨state, moved, taken⟩ := Option.bind_eq_some_iff.1 taken
    have disciplined := sound.disciplined.step unmarked moved
    cases State.Step.move moved with
    | @item c i env call task next shared atCall atItem _ _ stepped =>
      have found : managed.state.task? (c, i) = some task := (taskAt_of_call atCall i).trans atItem
      have mine := sound.mine_item found stepped
      have kv := Task.step_kv clock stepped
      unfold Task.heldAfter at kv
      obtain ⟨model, holds⟩ := sound.holds
      simp only [cacheCall, found, Option.bind_some] at taken named
      cases isCall : task.cacheCall clock with
      | none =>
        simp only [isCall, Option.map_none] at taken kv
        cases taken
        exact ⟨disciplined, ⟨model, kv ▸ holds⟩, mine⟩
      | some op =>
        simp only [isCall, Option.map_some] at taken kv
        obtain ⟨cache, performed, rfl⟩ := Option.map_eq_some_iff.1 taken
        obtain ⟨isNamed, free⟩ := named (op, env) (by rw [isCall]; rfl)
        exact ⟨disciplined, ⟨_, kv ▸ (cacheStep_holds holds isNamed free performed).1⟩, mine⟩
    | journal journaled _ _ _ _ =>
      cases taken
      refine sound.quiet disciplined journaled.kv journaled.sandbox fun branchId member => ?_
      rw [journaled.started]
      exact List.mem_append_left _ member
    | invoke silent _ _ | advance _ silent _ _ _ =>
      cases taken
      exact sound.quiet disciplined silent.kv silent.sandbox fun branchId member => silent.started ▸ member

end Sound

theorem sound_of_reachable {config : Config} {origin : Finset BranchId} {start managed : Managed}
    (initial : Sound config origin start)
    (reached : Reachable (Managed.Step config) (Managed.Orderly config) start managed) :
    Sound config origin managed :=
  reached.invariant initial fun _ _ _ sound orderly taken => sound.step orderly taken

end Managed

end Agentfork.Orchestrator

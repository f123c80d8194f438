import Agentfork.Orchestrator.Lifecycle

/-! # What the locked sections do

Every section either raises and changes nothing that matters, or does one thing
to the records of the branches it is about and writes the file. `Quiet` is the
first case; the second one has a lemma for each section. -/

namespace Agentfork.Orchestrator

namespace Shared

/-! ## Records of a list of branches -/

theorem get?_insertAll {children : List Branch} (distinct : (children.map Branch.branchId).Nodup)
    (branches : Dict BranchId Branch) (branchId : BranchId) : (insertAll children branches).get? branchId =
      (children.find? fun branch => branch.branchId = branchId).or (branches.get? branchId) := by
  induction children generalizing branches with
  | nil => rfl
  | cons child children inductionHypothesis =>
    obtain ⟨notLater, distinct⟩ := List.nodup_cons.1 distinct
    change (insertAll children (branches.insert child.branchId child)).get? branchId = _
    rw [inductionHypothesis distinct, Dict.get?_insert, List.find?_cons]
    by_cases here : child.branchId = branchId
    · have absent : (children.find? fun branch => branch.branchId = branchId) = none := by
        rw [List.find?_eq_none]
        intro branch member same
        exact notLater (List.mem_map.2 ⟨branch, member, (of_decide_eq_true same).trans here.symm⟩)
      simp [here, absent]
    · simp [here, Ne.symm here]

theorem find?_of_mem {children : List Branch} (distinct : (children.map Branch.branchId).Nodup) {child : Branch}
    (member : child ∈ children) : (children.find? fun other => other.branchId = child.branchId) = some child := by
  cases found : children.find? fun other => other.branchId = child.branchId with
  | none =>
    rw [List.find?_eq_none] at found
    exact absurd (decide_eq_true rfl) (found child member)
  | some other =>
    have same : other.branchId = child.branchId := by simpa using List.find?_some found
    rw [List.inj_on_of_nodup_map distinct (List.mem_of_find?_eq_some found) member same]

theorem find?_of_notMem {children : List Branch} {branchId : BranchId}
    (notMember : branchId ∉ children.map Branch.branchId) :
    (children.find? fun child => child.branchId = branchId) = none := by
  rw [List.find?_eq_none]
  intro child member same
  exact notMember (List.mem_map.2 ⟨child, member, of_decide_eq_true same⟩)

theorem get?_eraseAll (children : List Branch) (branches : Dict BranchId Branch) (branchId : BranchId) :
    (eraseAll children branches).get? branchId =
      if branchId ∈ children.map Branch.branchId then none else branches.get? branchId := by
  induction children generalizing branches with
  | nil => simp [eraseAll]
  | cons child children inductionHypothesis =>
    change (eraseAll children (branches.erase child.branchId)).get? branchId = _
    rw [inductionHypothesis, Dict.get?_erase]
    by_cases here : branchId = child.branchId <;> simp [here]

/-! ## Memory and file -/

/-- The records are under their own ids. -/
def Keyed (branches : Dict BranchId Branch) : Prop :=
  ∀ branchId branch, branches.get? branchId = some branch → branch.branchId = branchId

structure Synced (config : Config) (shared : Shared) : Prop where
  keyed : Keyed shared.branches
  file : config.registry = true →
    ∀ branchId, (ofRecords shared.file).get? branchId = shared.branches.get? branchId

theorem keyed_insertAll {children : List Branch} {branches : Dict BranchId Branch}
    (keyed : Keyed branches) : Keyed (insertAll children branches) := by
  induction children generalizing branches with
  | nil => exact keyed
  | cons child children inductionHypothesis =>
    refine inductionHypothesis fun branchId branch found => ?_
    rw [Dict.get?_insert] at found
    split at found
    · next same => cases found; exact same.symm
    · exact keyed branchId branch found

theorem keyed_empty : Keyed .empty := fun _ _ found => by cases found

theorem get?_ofRecords_values {branches : Dict BranchId Branch} (keyed : Keyed branches)
    (branchId : BranchId) : (ofRecords branches.values).get? branchId = branches.get? branchId := by
  have ids : branches.values.map Branch.branchId = branches.keys := by
    rw [Dict.values, Dict.keys, List.map_map]
    refine List.map_congr_left fun entry member => ?_
    exact keyed entry.1 entry.2 (Dict.mem_entries.1 member)
  rw [ofRecords, get?_insertAll (ids ▸ branches.keys_nodup), Dict.get?_empty, Option.or_none]
  cases found : branches.get? branchId with
  | none =>
    rw [List.find?_eq_none]
    intro branch member same
    obtain ⟨key, stored⟩ := Dict.mem_values.1 member
    rw [← (keyed key branch stored).symm.trans (of_decide_eq_true same), stored] at found
    cases found
  | some branch =>
    have member : branch ∈ branches.values := Dict.mem_values.2 ⟨branchId, found⟩
    cases located : branches.values.find? fun branch => branch.branchId = branchId with
    | none =>
      rw [List.find?_eq_none] at located
      exact absurd (decide_eq_true (keyed branchId branch found)) (located branch member)
    | some other =>
      have same : other.branchId = branchId := by simpa using List.find?_some located
      obtain ⟨key, stored⟩ := Dict.mem_values.1 (List.mem_of_find?_eq_some located)
      rw [(keyed key other stored).symm.trans same, found] at stored
      exact stored.symm

/-- The state after a registry write that does not fail. -/
def write (config : Config) (shared : Shared) : Shared :=
  if config.registry then { shared with file := shared.branches.values } else shared

theorem persist_cases (config : Config) (failure : Option Fault) (shared : Shared) :
    (∃ fault, persist config failure shared = (.error fault, shared)) ∨
      persist config failure shared = (.ok (), write config shared) := by
  unfold persist write
  split
  · cases failure with
    | none => exact .inr rfl
    | some fault => exact .inl ⟨fault, rfl⟩
  · exact .inr rfl

theorem synced_write {config : Config} {shared : Shared} (keyed : Keyed shared.branches) :
    Synced config (write config shared) := by
  unfold write
  split
  · exact ⟨keyed, fun _ => get?_ofRecords_values keyed⟩
  · next noRegistry => exact ⟨keyed, fun registry => absurd registry noRegistry⟩

@[simp] theorem write_branches (config : Config) (shared : Shared) :
    (write config shared).branches = shared.branches := by unfold write; split <;> rfl

@[simp] theorem write_kv (config : Config) (shared : Shared) :
    (write config shared).kv = shared.kv := by unfold write; split <;> rfl

@[simp] theorem write_sandbox (config : Config) (shared : Shared) :
    (write config shared).sandbox = shared.sandbox := by unfold write; split <;> rfl

@[simp] theorem write_spawning (config : Config) (shared : Shared) :
    (write config shared).spawning = shared.spawning := by unfold write; split <;> rfl

@[simp] theorem write_killing (config : Config) (shared : Shared) :
    (write config shared).killing = shared.killing := by unfold write; split <;> rfl

@[simp] theorem write_loaded (config : Config) (shared : Shared) :
    (write config shared).loaded = shared.loaded := by unfold write; split <;> rfl

@[simp] theorem write_started (config : Config) (shared : Shared) :
    (write config shared).started = shared.started := by unfold write; split <;> rfl

@[simp] theorem write_metrics (config : Config) (shared : Shared) :
    (write config shared).metrics = shared.metrics := by unfold write; split <;> rfl

/-! ## Sections that raise -/

/-- The two states differ at most in the order of the records, the counters and
the closing flags. -/
structure Quiet (before after : Shared) : Prop where
  world : after.toWorld = before.toWorld
  branches : ∀ branchId, after.branches.get? branchId = before.branches.get? branchId
  loaded : after.loaded = before.loaded
  spawning : after.spawning = before.spawning
  killing : after.killing = before.killing
  started : after.started = before.started

namespace Quiet

variable {before middle after : Shared}

theorem refl (shared : Shared) : Quiet shared shared := ⟨rfl, fun _ => rfl, rfl, rfl, rfl, rfl⟩

theorem trans (first : Quiet before middle) (second : Quiet middle after) : Quiet before after where
  world := second.world.trans first.world
  branches branchId := (second.branches branchId).trans (first.branches branchId)
  loaded := second.loaded.trans first.loaded
  spawning := second.spawning.trans first.spawning
  killing := second.killing.trans first.killing
  started := second.started.trans first.started

theorem synced {config : Config} (quiet : Quiet before after) (synced : Synced config before) :
    Synced config after where
  keyed branchId branch found := synced.keyed branchId branch (quiet.branches branchId ▸ found)
  file registry branchId := by
    rw [quiet.branches, ← synced.file registry, quiet.world]

end Quiet

/-! ## The single updates -/

theorem record_cases (config : Config) (failure : Option Fault) (branch : Branch) (shared : Shared) :
    (∃ fault after, record config failure branch shared = (.error fault, after) ∧ Quiet shared after) ∨
      record config failure branch shared = (.ok (), write config { shared with
        branches := shared.branches.insert branch.branchId branch }) := by
  unfold record
  obtain ⟨fault, failed⟩ | written := persist_cases config failure { shared with
    branches := shared.branches.insert branch.branchId branch }
  · simp only [failed]
    refine .inl ⟨fault, _, rfl, rfl, fun branchId => ?_, rfl, rfl, rfl, rfl⟩
    cases previous : shared.branches.get? branch.branchId with
    | none =>
      simp only [Dict.get?_erase, Dict.get?_insert]
      split
      · next same => rw [same, previous]
      · rfl
    | some old =>
      simp only [Dict.get?_insert]
      split
      · next same => rw [same, previous]
      · rfl
  · exact .inr (by simp only [written])

theorem forget_cases (config : Config) (failure : Option Fault) (branchId : BranchId) (shared : Shared) :
    (∃ fault after, forget config failure branchId shared = (.error fault, after) ∧ Quiet shared after) ∨
      forget config failure branchId shared = (.ok (), { write config { shared with
        branches := shared.branches.erase branchId } with loaded := shared.loaded.erase branchId }) := by
  unfold forget
  obtain ⟨fault, failed⟩ | written := persist_cases config failure { shared with
    branches := shared.branches.erase branchId }
  · simp only [failed]
    refine .inl ⟨fault, _, rfl, rfl, fun other => ?_, rfl, rfl, rfl, rfl⟩
    cases previous : shared.branches.get? branchId with
    | none =>
      simp only [Dict.get?_erase]
      split
      · next same => rw [same, previous]
      · rfl
    | some old =>
      simp only [Dict.get?_insert, Dict.get?_erase]
      split
      · next same => rw [same, previous]
      · rfl
  · exact .inr (by simp only [written, write_loaded])

theorem replaceBranch_cases (config : Config) (failure : Option Fault) (branchId : BranchId)
    (change : Branch → Branch) (shared : Shared) :
    (∃ fault after, replaceBranch config failure branchId change shared = (.error fault, after) ∧
      Quiet shared after) ∨
    ∃ previous, shared.branches.get? branchId = some previous ∧
      replaceBranch config failure branchId change shared = (.ok (change previous),
        write config { shared with branches := shared.branches.insert branchId (change previous) }) := by
  unfold replaceBranch
  cases found : shared.branches.get? branchId with
  | none => exact .inl ⟨_, shared, rfl, Quiet.refl shared⟩
  | some previous =>
    obtain ⟨fault, failed⟩ | written := persist_cases config failure { shared with
      branches := shared.branches.insert branchId (change previous) }
    · simp only [failed]
      refine .inl ⟨fault, _, rfl, rfl, fun other => ?_, rfl, rfl, rfl, rfl⟩
      simp only [Dict.get?_insert]
      split
      · next same => rw [same, found]
      · rfl
    · exact .inr ⟨previous, rfl, by simp only [written]⟩

theorem renewLease_cases (config : Config) (failure : Option Fault) (now : Int) (branchId : BranchId)
    (lease : Int) (shared : Shared) :
    (∃ fault after, renewLease config failure now branchId lease shared = (.error fault, after) ∧
      Quiet shared after) ∨
    ∃ previous, shared.branches.get? branchId = some previous ∧
      renewLease config failure now branchId lease shared =
        (.ok { previous with leaseExpiresAt := some (now + lease) }, write config { shared with
          branches := shared.branches.insert branchId
            { previous with leaseExpiresAt := some (now + lease) } }) := by
  unfold renewLease
  cases ensureOpen false shared with
  | error fault => exact .inl ⟨fault, shared, rfl, Quiet.refl shared⟩
  | ok =>
    simp only
    split
    · exact .inl ⟨_, shared, rfl, Quiet.refl shared⟩
    · split
      · exact .inl ⟨_, shared, rfl, Quiet.refl shared⟩
      · exact replaceBranch_cases config failure branchId
          (fun branch => { branch with leaseExpiresAt := some (now + lease) }) shared

/-! ## The sections that journal new branches -/

/-- The children of `after` are new, journaled and marked. -/
structure Journaled (config : Config) (before : Shared) (children : List Branch) (after : Shared) :
    Prop where
  distinct : (children.map Branch.branchId).Nodup
  absent : ∀ child ∈ children, child.branchId ∉ before.branches
  forking : ∀ child ∈ children, child.state = .forking
  branches : ∀ branchId, after.branches.get? branchId =
    (children.find? fun child => child.branchId = branchId).or (before.branches.get? branchId)
  kv : after.kv = before.kv
  sandbox : after.sandbox = before.sandbox
  loaded : after.loaded = before.loaded
  killing : after.killing = before.killing
  spawning : after.spawning = before.spawning ∪ (children.map Branch.branchId).toFinset
  started : after.started = before.started ++ children.map Branch.branchId
  synced : Keyed before.branches → Synced config after

theorem admitParent_cases (config : Config) (failure : Option Fault) (now : Int) (branchId : BranchId)
    (tokens : List Nat) (lease : Option Int) (shared : Shared) :
    (∃ fault after, admitParent config failure now branchId tokens lease shared = (.error fault, after) ∧
      Quiet shared after) ∨
    ∃ branch after, admitParent config failure now branchId tokens lease shared = (.ok branch, after) ∧
      branch.branchId = branchId ∧ branch.parentId = none ∧ Journaled config shared [branch] after := by
  unfold admitParent
  cases ensureOpen false shared with
  | error fault => exact .inl ⟨fault, shared, rfl, Quiet.refl shared⟩
  | ok =>
    simp only
    split
    · exact .inl ⟨_, shared, rfl, Quiet.refl shared⟩
    · split
      · exact .inl ⟨_, shared, rfl, Quiet.refl shared⟩
      · next absent =>
        cases leaseExpiry config now lease with
        | error fault => exact .inl ⟨fault, shared, rfl, Quiet.refl shared⟩
        | ok expiry =>
          obtain ⟨fault, after, failed, quiet⟩ | written :=
            record_cases config failure ⟨branchId, none, .forking, now, expiry⟩ shared
          · exact .inl ⟨fault, after, by simp only [failed], quiet⟩
          · refine .inr ⟨⟨branchId, none, .forking, now, expiry⟩, _, by simp only [written]; rfl, rfl, rfl, ?_⟩
            have keyedAfter : Keyed shared.branches →
                Keyed (shared.branches.insert branchId ⟨branchId, none, .forking, now, expiry⟩) :=
              @keyed_insertAll [⟨branchId, none, .forking, now, expiry⟩] shared.branches
            refine ⟨by simp, by simpa using absent, by simp, fun other => ?_, by simp, by simp, by simp,
              by simp, ?_, by simp, fun keyed => ?_⟩
            · simp only [write_branches, Dict.get?_insert, List.find?_cons, List.find?_nil]
              by_cases here : branchId = other
              · simp [here]
              · simp [here, Ne.symm here]
            · ext other
              simp
            · have written : Synced config (write config { shared with
                  branches := shared.branches.insert branchId ⟨branchId, none, .forking, now, expiry⟩ }) :=
                synced_write (keyedAfter keyed)
              exact ⟨written.keyed, written.file⟩

theorem chooseId_quiet (parentId : BranchId) (shared : Shared) (given : Option BranchId) :
    Quiet shared (chooseId parentId shared given).2 ∧
      (chooseId parentId shared given).2.branches = shared.branches := by
  cases given with
  | some childId => exact ⟨Quiet.refl shared, rfl⟩
  | none => exact ⟨⟨rfl, fun _ => rfl, rfl, rfl, rfl, rfl⟩, rfl⟩

/-- What `fork` decides before it journals anything. -/
theorem planChildren_ok {config : Config} {now : Int} {parentId : BranchId} {lease : Option Int}
    {asked : List (Option BranchId)} {children planned : List Branch} {shared after : Shared}
    (result : planChildren config now parentId lease asked children shared = (.ok planned, after))
    (distinct : (children.map Branch.branchId).Nodup)
    (absent : ∀ child ∈ children, child.branchId ∉ shared.branches)
    (forking : ∀ child ∈ children, child.state = .forking ∧ child.parentId = some parentId) :
    Quiet shared after ∧ after.branches = shared.branches ∧ (planned.map Branch.branchId).Nodup ∧
      (∀ child ∈ planned, child.branchId ∉ shared.branches) ∧
      ∀ child ∈ planned, child.state = .forking ∧ child.parentId = some parentId := by
  induction asked generalizing children shared with
  | nil =>
    cases result
    exact ⟨Quiet.refl _, rfl, distinct, absent, forking⟩
  | cons given asked inductionHypothesis =>
    simp only [planChildren] at result
    obtain ⟨quiet, sameBranches⟩ := chooseId_quiet parentId shared given
    generalize chooseId parentId shared given = choice at result quiet sameBranches
    obtain ⟨childId, next⟩ := choice
    simp only at result quiet sameBranches
    split at result
    · cases result
    · next free =>
      rw [not_or, sameBranches] at free
      cases expiryResult : leaseExpiry config now lease with
      | error fault => rw [expiryResult] at result; cases result
      | ok expiry =>
        rw [expiryResult] at result
        obtain ⟨later, laterBranches, rest⟩ := inductionHypothesis result
          (by
            rw [List.map_append, List.nodup_append]
            refine ⟨distinct, by simp, ?_⟩
            intro first firstMember second secondMember same
            rw [List.map_singleton, List.mem_singleton] at secondMember
            subst secondMember same
            exact free.2 firstMember)
          (by
            intro child member
            rw [sameBranches]
            obtain member | member := List.mem_append.1 member
            · exact absent child member
            · rw [List.mem_singleton.1 member]
              exact free.1)
          (by
            intro child member
            obtain member | member := List.mem_append.1 member
            · exact forking child member
            · rw [List.mem_singleton.1 member]
              exact ⟨rfl, rfl⟩)
        rw [sameBranches] at laterBranches rest
        exact ⟨quiet.trans later, laterBranches, rest⟩

/-- The children have the ids asked for, and where none is asked for a numbered one. -/
theorem planChildren_ids {config : Config} {now : Int} {parentId : BranchId} {lease : Option Int}
    {asked : List (Option BranchId)} {children planned : List Branch} {shared after : Shared}
    (result : planChildren config now parentId lease asked children shared = (.ok planned, after)) :
    ∃ more, planned = children ++ more ∧ List.Forall₂ (fun given child => match given with
      | some childId => child.branchId = childId
      | none => ∃ seq, child.branchId = childId parentId seq) asked more := by
  induction asked generalizing children shared with
  | nil =>
    cases result
    exact ⟨[], (List.append_nil _).symm, .nil⟩
  | cons given asked inductionHypothesis =>
    simp only [planChildren] at result
    split at result
    · cases result
    · cases expiryResult : leaseExpiry config now lease with
      | error fault => rw [expiryResult] at result; cases result
      | ok expiry =>
        rw [expiryResult] at result
        obtain ⟨more, rfl, matching⟩ := inductionHypothesis result
        refine ⟨_ :: more, by rw [List.append_assoc, List.singleton_append], .cons ?_ matching⟩
        cases given with
        | some childId => rfl
        | none => exact ⟨_, rfl⟩

theorem planChildren_error {config : Config} {now : Int} {parentId : BranchId} {lease : Option Int}
    {asked : List (Option BranchId)} {children : List Branch} {shared after : Shared} {fault : Fault}
    (result : planChildren config now parentId lease asked children shared = (.error fault, after)) :
    Quiet shared after := by
  induction asked generalizing children shared with
  | nil => cases result
  | cons given asked inductionHypothesis =>
    simp only [planChildren] at result
    have quiet := (chooseId_quiet parentId shared given).1
    generalize chooseId parentId shared given = choice at result quiet
    obtain ⟨childId, next⟩ := choice
    simp only at result quiet
    split at result
    · cases result; exact quiet
    · cases expiryResult : leaseExpiry config now lease with
      | error fault => rw [expiryResult] at result; cases result; exact quiet
      | ok expiry =>
        rw [expiryResult] at result
        exact quiet.trans (inductionHypothesis result)

theorem admitFork_cases (config : Config) (failure : Option Fault) (now : Int) (parentId : BranchId)
    (n : Int) (childIds : Option (List BranchId)) (lease : Option Int) (shared : Shared) :
    (∃ fault after, admitFork config failure now parentId n childIds lease shared = (.error fault, after) ∧
      Quiet shared after) ∨
    ∃ children after, admitFork config failure now parentId n childIds lease shared = (.ok children, after) ∧
      shared.isLive parentId = true ∧ (∀ child ∈ children, child.parentId = some parentId) ∧
      Journaled config shared children after := by
  unfold admitFork
  cases ensureOpen false shared with
  | error fault => exact .inl ⟨fault, shared, rfl, Quiet.refl shared⟩
  | ok =>
    simp only
    split
    · exact .inl ⟨_, shared, rfl, Quiet.refl shared⟩
    · next parentLive =>
      split
      · exact .inl ⟨_, shared, rfl, Quiet.refl shared⟩
      · cases planResult : planChildren config now parentId lease (requested n childIds) [] shared with
        | mk outcome planned =>
          cases outcome with
          | error fault => exact .inl ⟨fault, planned, rfl, planChildren_error planResult⟩
          | ok children =>
            obtain ⟨quiet, sameBranches, distinct, absent, forking⟩ :=
              planChildren_ok planResult List.nodup_nil (by simp) (by simp)
            obtain ⟨fault, failed⟩ | written := persist_cases config failure
              { planned with branches := insertAll children planned.branches }
            · simp only [failed]
              refine .inl ⟨fault, _, rfl, quiet.trans ⟨rfl, fun branchId => ?_, rfl, rfl, rfl, rfl⟩⟩
              rw [get?_eraseAll, get?_insertAll distinct]
              split
              · next member =>
                obtain ⟨child, isChild, rfl⟩ := List.mem_map.1 member
                rw [sameBranches, Dict.get?_eq_none.2 (absent child isChild)]
              · next notMember =>
                rw [find?_of_notMem notMember, Option.none_or]
            · simp only [written]
              refine .inr ⟨children, _, rfl, by simpa using parentLive, fun child member =>
                (forking child member).2, distinct, absent, fun child member => (forking child member).1,
                fun branchId => ?_, ?_, ?_, ?_, ?_, ?_, ?_, fun keyed => ?_⟩
              · rw [write_branches, get?_insertAll distinct, sameBranches]
              · rw [write_kv, quiet.world]
              · rw [write_sandbox, quiet.world]
              · rw [write_loaded, quiet.loaded]
              · rw [write_killing, quiet.killing]
              · rw [write_spawning, quiet.spawning]
              · rw [write_started, quiet.started]
              · rw [← sameBranches] at keyed
                have written : Synced config (write config { planned with
                    branches := insertAll children planned.branches }) := synced_write (keyed_insertAll keyed)
                exact ⟨written.keyed, written.file⟩

/-- A fork that is admitted has one child for each id asked for. -/
theorem admitFork_ids {config : Config} {failure : Option Fault} {now : Int} {parentId : BranchId} {n : Int}
    {childIds : Option (List BranchId)} {lease : Option Int} {shared after : Shared} {children : List Branch}
    (admits : admitFork config failure now parentId n childIds lease shared = (.ok children, after)) :
    List.Forall₂ (fun given child => match given with
      | some childId => child.branchId = childId
      | none => ∃ seq, child.branchId = childId parentId seq) (requested n childIds) children := by
  unfold admitFork at admits
  split at admits
  · cases admits
  · split at admits
    · cases admits
    · split at admits
      · cases admits
      · cases planned : planChildren config now parentId lease (requested n childIds) [] shared with
        | mk outcome middle =>
          rw [planned] at admits
          cases outcome with
          | error fault => cases admits
          | ok found =>
            obtain ⟨more, isMore, matching⟩ := planChildren_ids planned
            simp only at admits
            split at admits
            · cases admits
            · cases admits
              rw [isMore]
              exact matching

theorem childId_ne_empty (parentId : BranchId) (seq : Nat) : childId parentId seq ≠ "" := by
  intro empty
  have length := congrArg String.length empty
  unfold childId at length
  simp at length

theorem admitFork_named {config : Config} {failure : Option Fault} {now : Int} {parentId : BranchId} {n : Int}
    {childIds : Option (List BranchId)} {lease : Option Int} {shared after : Shared} {children : List Branch}
    (named : ∀ ids, childIds = some ids → "" ∉ ids)
    (admits : admitFork config failure now parentId n childIds lease shared = (.ok children, after)) :
    ∀ child ∈ children, child.branchId ≠ "" := by
  intro child member
  obtain ⟨i, inside, rfl⟩ := List.mem_iff_getElem.1 member
  have matching := admitFork_ids admits
  have given := List.forall₂_iff_get.1 matching
  have asked := given.2 i (given.1 ▸ inside) inside
  simp only [List.get_eq_getElem] at asked
  split at asked
  · next childId isGiven =>
    rw [asked]
    rintro rfl
    have listed := List.getElem_mem (given.1 ▸ inside : i < (requested n childIds).length)
    rw [isGiven] at listed
    unfold requested at listed
    split at listed
    · next ids =>
      obtain ⟨id, isListed, same⟩ := List.mem_map.1 listed
      cases same
      exact named ids rfl isListed
    · cases List.eq_of_mem_replicate listed
  · obtain ⟨seq, isNumbered⟩ := asked
    rw [isNumbered]
    exact childId_ne_empty parentId seq

end Shared

end Agentfork.Orchestrator

import Agentfork.Library.Digits
import Agentfork.Orchestrator.Control
import Agentfork.Orchestrator.Journal

/-! # Loading a registry

The file holds the records in memory, so a constructor that gets through loads
them. Before that it reads the last segment of every id as a number to go on
counting children, and `isdigit` lets digits pass that `int` does not convert. -/

namespace Agentfork.Orchestrator

open Transition

namespace Shared

variable {config successor : Config} {shared after loaded : Shared} {branchId parentId : BranchId}

/-! ## Numbers of children -/

/-- `str.isdigit` and `int` are those of CPython. -/
structure Config.Python (config : Config) : Prop where
  isDigit : config.isDigit = Digits.isDigit
  parseInt : config.parseInt = fun text => (Digits.parse text).mapError .valueError

/-- The last segment of the id, if it is one of digits, is one that `int` converts. -/
def Loadable (branchId : BranchId) : Prop :=
  '/' ∈ branchId.toList → Digits.isDigit (suffix branchId) = true → Digits.Convertible (suffix branchId)

instance (branchId : BranchId) : Decidable (Loadable branchId) :=
  inferInstanceAs (Decidable (_ → _ → _))

theorem parseInt_ok_iff (python : Config.Python config) {text : String} (digits : Digits.isDigit text = true) :
    (∃ number, config.parseInt text = .ok number) ↔ Digits.Convertible text := by
  rw [python.parseInt, ← Digits.parse_ok_iff digits]
  simp only
  cases Digits.parse text with
  | ok number => exact iff_of_true ⟨number, rfl⟩ ⟨number, rfl⟩
  | error message =>
    refine iff_of_false ?_ ?_
    · intro parsed
      obtain ⟨number, impossible⟩ := parsed
      cases impossible
    · intro parsed
      obtain ⟨number, impossible⟩ := parsed
      cases impossible

theorem numericSuffixes_ok_iff (python : Config.Python config) (branchIds : List BranchId) :
    (∃ numbers, numericSuffixes config branchIds = .ok numbers) ↔ ∀ branchId ∈ branchIds, Loadable branchId := by
  induction branchIds with
  | nil => exact ⟨fun _ _ member => absurd member List.not_mem_nil, fun _ => ⟨[], rfl⟩⟩
  | cons branchId rest inductionHypothesis =>
    rw [List.forall_mem_cons, ← inductionHypothesis, numericSuffixes]
    by_cases numbered : '/' ∈ branchId.toList ∧ config.isDigit (suffix branchId) = true
    · rw [if_pos numbered]
      have digits : Digits.isDigit (suffix branchId) = true := python.isDigit ▸ numbered.2
      have convertible : Loadable branchId ↔ ∃ number, config.parseInt (suffix branchId) = .ok number := by
        rw [parseInt_ok_iff python digits]
        exact ⟨fun loadable => loadable numbered.1 digits, fun convertible _ _ => convertible⟩
      rw [convertible]
      cases config.parseInt (suffix branchId) <;> cases numericSuffixes config rest <;> simp
    · rw [if_neg numbered]
      have loadable : Loadable branchId := fun slash digits =>
        absurd ⟨slash, python.isDigit ▸ digits⟩ numbered
      exact ⟨fun loads => ⟨loadable, loads⟩, fun loads => loads.2⟩

/-- The numbers of all ids with one are among the suffixes. -/
theorem mem_numericSuffixes {branchIds : List BranchId} {numbers : List Nat}
    (loads : numericSuffixes config branchIds = .ok numbers) (member : branchId ∈ branchIds)
    (slash : '/' ∈ branchId.toList) (digits : config.isDigit (suffix branchId) = true) :
    ∃ number ∈ numbers, config.parseInt (suffix branchId) = .ok number := by
  induction branchIds generalizing numbers with
  | nil => exact absurd member List.not_mem_nil
  | cons first rest inductionHypothesis =>
    rw [numericSuffixes] at loads
    by_cases numbered : '/' ∈ first.toList ∧ config.isDigit (suffix first) = true
    · rw [if_pos numbered] at loads
      cases parsed : config.parseInt (suffix first) with
      | error fault => rw [parsed] at loads; cases loads
      | ok number =>
        cases others : numericSuffixes config rest with
        | error fault => rw [parsed, others] at loads; cases loads
        | ok otherNumbers =>
          rw [parsed, others] at loads
          cases loads
          obtain rfl | later := List.mem_cons.1 member
          · exact ⟨number, List.mem_cons_self, parsed⟩
          · obtain ⟨found, isFound, isNumber⟩ := inductionHypothesis others later
            exact ⟨found, List.mem_cons_of_mem _ isFound, isNumber⟩
    · rw [if_neg numbered] at loads
      obtain rfl | later := List.mem_cons.1 member
      · exact absurd ⟨slash, digits⟩ numbered
      · exact inductionHypothesis loads later

theorem le_foldl_max {numbers : List Nat} {number : Nat} (member : number ∈ numbers) (start : Nat) :
    number ≤ numbers.foldl max start := by
  induction numbers generalizing start with
  | nil => exact absurd member List.not_mem_nil
  | cons first rest inductionHypothesis =>
    have grows : ∀ (numbers : List Nat) (start : Nat), start ≤ numbers.foldl max start := by
      intro numbers
      induction numbers with
      | nil => exact fun start => le_refl start
      | cons first rest inductionHypothesis =>
        exact fun start => (le_max_left start first).trans (inductionHypothesis _)
    obtain rfl | later := List.mem_cons.1 member
    · exact (le_max_right start number).trans (grows rest _)
    · exact inductionHypothesis later _

theorem toList_childId (parentId : BranchId) (seq : Nat) :
    (childId parentId seq).toList = parentId.toList ++ '/' :: (toString seq).toList := by
  have spelled : childId parentId seq = parentId ++ "/" ++ toString seq := rfl
  rw [spelled, String.toList_append, String.toList_append, List.append_assoc]
  rfl

/-- The last segment of the id of a child is its number. -/
theorem suffix_childId (parentId : BranchId) (seq : Nat) : suffix (childId parentId seq) = toString seq := by
  have notSlash : ∀ c ∈ (toString seq).toList.reverse, decide (c ≠ '/') = true := by
    intro c member
    refine decide_eq_true fun slash => ?_
    have digit := Digits.digits_of_repr seq c (List.mem_reverse.1 member)
    rw [slash] at digit
    exact absurd digit (by decide)
  have segments : (childId parentId seq).toList.reverse =
      (toString seq).toList.reverse ++ '/' :: parentId.toList.reverse := by
    rw [toList_childId, List.reverse_append, List.reverse_cons, List.append_assoc]
    rfl
  rw [suffix, segments, List.takeWhile_append_of_pos notSlash, List.takeWhile_cons_of_neg (by decide),
    List.append_nil, List.reverse_reverse, String.ofList_toList]

theorem slash_childId (parentId : BranchId) (seq : Nat) : '/' ∈ (childId parentId seq).toList := by
  rw [toList_childId]
  exact List.mem_append_right _ List.mem_cons_self

/-- A loaded id is no child with a number that is still to come. -/
theorem childId_not_loaded (python : Config.Python config) {world : World} (booted : boot config world = .ok loaded)
    {seq : Nat} (later : loaded.seq < seq) : childId parentId seq ∉ loaded.branches := by
  intro isLoaded
  unfold boot at booted
  simp only at booted
  split at booted
  · cases booted
  · next numbers loads =>
    cases booted
    have digits : config.isDigit (suffix (childId parentId seq)) = true := by
      rw [python.isDigit, suffix_childId, Digits.isDigit_toString]
    obtain ⟨number, member, parsed⟩ := mem_numericSuffixes loads isLoaded (slash_childId parentId seq) digits
    rw [python.parseInt, suffix_childId] at parsed
    simp only at parsed
    cases isParsed : Digits.parse (toString seq) with
    | error message => rw [isParsed] at parsed; cases parsed
    | ok value =>
      rw [isParsed] at parsed
      obtain rfl : value = number := Except.ok.inj parsed
      obtain rfl : value = seq := Digits.parse_toString isParsed
      exact absurd (le_foldl_max member 0) (Nat.not_le.2 later)

/-- The children that a fork numbers itself. -/
theorem planChildren_numbers {now : Int} {lease : Option Int} {count base : Nat} {children planned : List Branch}
    (result : planChildren config now parentId lease (List.replicate count none) children shared = (.ok planned, after))
    (reached : base ≤ shared.seq) (numbered : ∀ child ∈ children, ∃ seq, base < seq ∧ child.branchId = childId parentId seq) :
    ∀ child ∈ planned, ∃ seq, base < seq ∧ child.branchId = childId parentId seq := by
  induction count generalizing children shared with
  | zero =>
    cases result
    exact numbered
  | succ count inductionHypothesis =>
    have later : base < nextSeq shared.branches parentId shared.branches.entries.length shared.seq :=
      lt_of_le_of_lt reached (nextSeq_gt _ _ _ _)
    rw [List.replicate_succ, planChildren, chooseId, nextChildId] at result
    simp only at result
    split at result
    · cases result
    · split at result
      · cases result
      · refine inductionHypothesis result later.le fun child member => ?_
        obtain old | new := List.mem_append.1 member
        · exact numbered child old
        · rw [List.mem_singleton.1 new]
          exact ⟨_, later, rfl⟩

theorem admitFork_numbers {failure : Option Fault} {now n : Int} {lease : Option Int} {children : List Branch}
    (result : admitFork config failure now parentId n none lease shared = (.ok children, after)) :
    ∀ child ∈ children, ∃ seq, shared.seq < seq ∧ child.branchId = childId parentId seq := by
  unfold admitFork at result
  split at result
  · cases result
  · split at result
    · cases result
    · split at result
      · cases result
      · split at result
        · cases result
        · next planned _ plan =>
          split at result
          · cases result
          · cases result
            exact planChildren_numbers plan (le_refl _) fun child member => absurd member List.not_mem_nil

end Shared

variable {config successor : Config} {env : Env} {shared after loaded : Shared} {state later : State}

/-! ## Memory and file -/

theorem State.Step.synced {before after : State} {action : Action} (synced : Shared.Synced config before.shared)
    (taken : before.Step config action after) : Shared.Synced config after.shared := by
  cases State.Step.move taken with
  | item _ _ _ _ stepped => exact Task.step_synced synced stepped
  | journal journaled _ _ _ _ => exact journaled.synced synced.keyed
  | invoke silent _ _ => exact silent.synced synced
  | advance _ silent _ _ _ => exact silent.synced synced

theorem synced_of_reachable {world : World} (booted : Shared.boot config world = .ok shared)
    (reached : Reachable (State.Step config) always (State.fresh shared) state) :
    Shared.Synced config state.shared :=
  reached.invariant (Disciplined.boot booted).synced fun _ _ _ synced _ taken => taken.synced synced

/-! ## Loading what was written -/

/-- A new process gets the records that are in memory from the file, and mints no
child with one of the ids it has loaded. -/
def Reloads (successor : Config) (shared : Shared) : Prop :=
  ∃ loaded, Shared.boot successor shared.toWorld = .ok loaded ∧
    (∀ branchId, loaded.branches.get? branchId = shared.branches.get? branchId) ∧
    ∀ later, Reachable (State.Step successor) always (State.fresh loaded) later →
      ∀ env parentId n lease after call,
        invoke successor env later.shared (.fork parentId n none lease) = some (after, call) →
        ∀ task ∈ call.items, task.branchId ∉ loaded.branches

theorem boot_ok_iff {world : World} :
    (∃ loaded, Shared.boot config world = .ok loaded) ↔
      ∃ numbers, Shared.numericSuffixes config (Shared.ofRecords world.file).keys = .ok numbers := by
  unfold Shared.boot
  simp only
  cases Shared.numericSuffixes config (Shared.ofRecords world.file).keys with
  | ok numbers => exact iff_of_true ⟨_, rfl⟩ ⟨numbers, rfl⟩
  | error fault =>
    refine iff_of_false ?_ ?_
    · intro booted
      obtain ⟨loaded, impossible⟩ := booted
      cases impossible
    · intro loads
      obtain ⟨numbers, impossible⟩ := loads
      cases impossible

theorem boot_branches {world : World} (booted : Shared.boot config world = .ok loaded) :
    loaded.branches = Shared.ofRecords world.file := by
  unfold Shared.boot at booted
  simp only at booted
  split at booted <;> cases booted
  rfl

theorem seq_of_reachable (reached : Reachable (State.Step config) always (State.fresh shared) state) :
    shared.seq ≤ state.shared.seq := by
  induction reached with
  | refl => exact le_refl _
  | tail _ _ taken inductionHypothesis => exact inductionHypothesis.trans (State.Step.seq taken)

/-- A fork of a process that has loaded a registry mints new ids only. -/
theorem forked_not_loaded {world : World} (python : Shared.Config.Python config)
    (booted : Shared.boot config world = .ok loaded)
    (reached : Reachable (State.Step config) always (State.fresh loaded) later)
    {parentId : BranchId} {n : Int} {lease : Option Int} {call : Call}
    (invoked : invoke config env later.shared (.fork parentId n none lease) = some (after, call))
    {task : Task} (member : task ∈ call.items) : task.branchId ∉ loaded.branches := by
  cases invoke_move invoked with
  | refused => exact absurd member List.not_mem_nil
  | kills listed => cases listed
  | fork admits =>
    obtain ⟨child, isChild, rfl⟩ := List.mem_map.1 member
    obtain ⟨seq, isNew, isNamed⟩ := Shared.admitFork_numbers admits child isChild
    have ofChild : (startTask .queued [] child).branchId = child.branchId := rfl
    rw [ofChild, isNamed]
    exact Shared.childId_not_loaded python booted ((seq_of_reachable reached).trans_lt isNew)

/-- In every state of every run the registry loads if and only if every id
recorded is one whose digits, if its last segment is made of them, `int` converts. -/
theorem reloads_iff {world : World} (registry : config.registry = true) (python : Shared.Config.Python successor)
    (booted : Shared.boot config world = .ok shared)
    (reached : Reachable (State.Step config) always (State.fresh shared) state) :
    Reloads successor state.shared ↔ ∀ branchId ∈ state.shared.branches, Shared.Loadable branchId := by
  have synced := synced_of_reachable booted reached
  have loads : (∃ loaded, Shared.boot successor state.shared.toWorld = .ok loaded) ↔
      ∀ branchId ∈ state.shared.branches, Shared.Loadable branchId := by
    rw [boot_ok_iff, Shared.numericSuffixes_ok_iff python]
    refine forall_congr' fun branchId => ?_
    rw [Dict.mem_keys, Dict.mem_iff_get?, Dict.mem_iff_get?, synced.file registry]
  rw [← loads]
  constructor
  · intro reloads
    obtain ⟨loaded, boots, _⟩ := reloads
    exact ⟨loaded, boots⟩
  · intro boots
    obtain ⟨loaded, boots⟩ := boots
    refine ⟨loaded, boots, fun branchId => ?_, ?_⟩
    · rw [boot_branches boots]
      exact synced.file registry branchId
    · intro later reachedLater env parentId n lease after call invoked task member
      exact forked_not_loaded python boots reachedLater invoked member

/-- The serial orchestrator, reading digits as CPython does. -/
def pythonConfig : Config := { serialConfig with
  isDigit := Digits.isDigit
  parseInt := fun text => (Digits.parse text).mapError .valueError }

def pythonRun (actions : List Action) : State :=
  runFrom (State.step pythonConfig) (State.fresh blank) actions

/-- A root and its first child are recorded. -/
def familyRun : List Action :=
  [.invoke (.createParent "p" [] none) returns, .item 0 0 returns, .item 0 0 returns, .item 0 0 returns,
    .item 0 0 returns, .advance 0, .invoke (.fork "p" 1 none none) returns]

theorem familyRun_reloads :
    (pythonRun familyRun).shared.branches.keys = ["p", "p/1"] ∧ Reloads pythonConfig (pythonRun familyRun).shared :=
  ⟨by decide, (reloads_iff rfl ⟨rfl, rfl⟩ (show Shared.boot pythonConfig ⟨[], ∅, ∅⟩ = .ok blank from rfl)
    (reachable_runFrom (by decide) meets_always)).2 (by decide)⟩

/-- A superscript two passes `isdigit`. -/
def superscriptRun : List Action := [.invoke (.createParent "p/²" [] none) returns]

theorem superscript_not_reloaded :
    ¬ ∀ state, Reachable (State.Step pythonConfig) always (State.fresh blank) state →
      Reloads pythonConfig state.shared := by
  intro everywhere
  obtain ⟨loaded, boots, _⟩ := everywhere (pythonRun superscriptRun)
    (reachable_runFrom (by decide) meets_always)
  have raised : (Shared.boot pythonConfig (pythonRun superscriptRun).shared.toWorld).toOption.isNone = true := by
    decide
  rw [boots] at raised
  cases raised

end Agentfork.Orchestrator

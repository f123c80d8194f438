import Agentfork.Library.ReferenceNetwork
import Agentfork.Firecracker.Wiring

/-! # Many branches on one host

The calls of `setup` and `teardown` of any number of branches run at once. The pool is
behind a lock; the commands of different calls come in any order, and each of them may
fail. A branch that is up has its wiring whatever the others do, and a branch that could
not be set up, or has been torn down, leaves nothing behind. -/

namespace Agentfork.Firecracker

open Transition HostNetwork

/-- Where the call of a branch is. -/
inductive WirePhase where
  /-- in `setup`, after this many of its commands -/
  | building (ran : Nat)
  | up
  /-- in `teardown`, after this many of its commands -/
  | unwinding (ran : Nat)
  deriving DecidableEq, Repr

structure Wire where
  branchId : BranchId
  phase : WirePhase
  deriving DecidableEq, Repr

/-- The manager and the network of its host. -/
structure Wiring where
  pool : IndexPool
  net : Network
  /-- the branches that are up and those with a call under way, under their indices -/
  wires : Dict Nat Wire

/-- How a call of the runner ends: with an exit status, or with an exception when the command may have run or not. -/
inductive RunOutcome where
  | returned
  | raised (ran : Bool)
  deriving DecidableEq, Repr

inductive WiringAction where
  | setup (branchId : BranchId)
  | proceed (index : Nat) (outcome : RunOutcome)
  | teardown (index : Nat)
  deriving DecidableEq, Repr

/-- The network after a command, whatever its exit status. -/
def afterCmd (exec : Network → Command → Option Network) (net : Network) (command : Command) : Network :=
  (exec net command).getD net

namespace Wiring

def start (net : Network) : Wiring := ⟨.empty, net, Dict.empty⟩

section Steps

variable (exec : Network → Command → Option Network)

/-- One command of `setup`, or the return from it. -/
def build (config : NetworkConfig) (state : Wiring) (index : Nat) (branchId : BranchId) (ran : Nat)
    (outcome : RunOutcome) : Wiring :=
  match (setupCmds config branchId index)[ran]?, outcome with
  | none, _ => { state with wires := state.wires.insert index ⟨branchId, .up⟩ }
  | some command, .returned =>
    match exec state.net command with
    | some net => { state with net := net, wires := state.wires.insert index ⟨branchId, .building (ran + 1)⟩ }
    -- `check=True` turns the exit status into a `CalledProcessError`
    | none => { state with wires := state.wires.insert index ⟨branchId, .unwinding 0⟩ }
  | some command, .raised ran =>
    { state with
      net := if ran then afterCmd exec state.net command else state.net
      wires := state.wires.insert index ⟨branchId, .unwinding 0⟩ }

/-- One command of `teardown`, or the `release` after them. -/
def unwind (config : NetworkConfig) (state : Wiring) (index : Nat) (branchId : BranchId) (ran : Nat)
    (outcome : RunOutcome) : Wiring :=
  match (teardownCmds config branchId index)[ran]? with
  | none => { state with pool := state.pool.release index, wires := state.wires.erase index }
  | some command =>
    { state with
      net := if outcome = .raised false then state.net else afterCmd exec state.net command
      wires := state.wires.insert index ⟨branchId, .unwinding (ran + 1)⟩ }

def step (config : NetworkConfig) (state : Wiring) : WiringAction → Option Wiring
  | .setup branchId =>
    match state.pool.allocate config.capacity with
    -- a `RuntimeError`, before there is anything to take down
    | none => some state
    | some (index, pool) => some { state with pool := pool, wires := state.wires.insert index ⟨branchId, .building 0⟩ }
  | .proceed index outcome =>
    match state.wires.get? index with
    | some ⟨branchId, .building ran⟩ => some (build exec config state index branchId ran outcome)
    | some ⟨branchId, .unwinding ran⟩ => some (unwind exec config state index branchId ran outcome)
    | _ => none
  | .teardown index =>
    match state.wires.get? index with
    | some ⟨branchId, .up⟩ => some { state with wires := state.wires.insert index ⟨branchId, .unwinding 0⟩ }
    | _ => none

end Steps

/-- No other branch has the namespace, and the runner does run what `teardown` gives it. -/
def orderly (state : Wiring) : WiringAction → Prop
  | .setup branchId => ∀ entry ∈ state.wires.entries, netnsOf entry.2.branchId ≠ netnsOf branchId
  | .proceed index outcome =>
    match state.wires.get? index with
    | some ⟨_, .unwinding _⟩ => outcome ≠ .raised false
    | _ => True
  | .teardown _ => True

end Wiring

/-- All names, devices and rules that branches can have. -/
def managed (config : NetworkConfig) : Scope where
  namespaces ns := "af-".toList.isPrefixOf ns.toList
  devices name := (List.range config.capacity).any fun index => name = hostVeth index || name = netnsVeth index
  rules rule := (List.range config.capacity).any fun index => rule ∈ branchRules config index
  gateway := false

variable {config : NetworkConfig} {branchId other : BranchId} {index : Nat} {exec : Network → Command → Option Network}
  {base net : Network} {state next : Wiring}

theorem hostVeth_inj {index other : Nat} (same : hostVeth index = hostVeth other) : index = other :=
  Digits.append_toString_inj same

theorem netnsVeth_inj {index other : Nat} (same : netnsVeth index = netnsVeth other) : index = other :=
  Digits.append_toString_inj same

theorem wireScope_sub_managed (inside : index < config.capacity) : (wireScope config branchId index).Sub (managed config) where
  namespaces ns isNs := by
    have isNs : ns = netnsOf branchId := of_decide_eq_true isNs
    simp [managed, isNs, netnsOf, netnsName]
  devices name isName := by
    simp only [managed, List.any_eq_true, List.mem_range]
    exact ⟨index, inside, isName⟩
  rules rule isRule := by
    simp only [managed, List.any_eq_true, List.mem_range]
    exact ⟨index, inside, isRule⟩
  gateway isGateway := by cases isGateway

theorem managed_device {name : String} :
    (managed config).devices name = true ↔ ∃ index < config.capacity, name = hostVeth index ∨ name = netnsVeth index := by
  simp [managed, List.any_eq_true, List.mem_range]

theorem managed_rule {rule : Rule} :
    (managed config).rules rule = true ↔ ∃ index < config.capacity, rule ∈ branchRules config index := by
  simp [managed, List.any_eq_true, List.mem_range]

theorem branchRules_apart {first second : Nat} {rule : Rule} (isFirst : rule ∈ branchRules config first)
    (isSecond : rule ∈ branchRules config second) : first = second := by
  simp only [branchRules, List.mem_cons, List.not_mem_nil, or_false] at isFirst isSecond
  rcases isFirst with rfl | rfl | rfl <;> rcases isSecond with same | same | same <;>
    simp only [Rule.masquerade.injEq, Rule.accept.injEq, Option.some.injEq, NetworkConfig.vethNet, Cidr.mk.injEq,
      reduceCtorEq, and_false, and_true, true_and, Bool.false_eq_true, Bool.true_eq_false] at same
  · omega
  · exact hostVeth_inj same
  · exact hostVeth_inj same

theorem device_apart {first second : Nat} (differ : first ≠ second) {name : String}
    (isName : name = hostVeth first ∨ name = netnsVeth first) :
    (wireScope config branchId second).compl.devices name = true := by
  rcases isName with rfl | rfl
  · have hosts : hostVeth first ≠ hostVeth second := fun same => differ (hostVeth_inj same)
    simp [wireScope, Scope.compl, hosts, veths_differ]
  · have guests : netnsVeth first ≠ netnsVeth second := fun same => differ (netnsVeth_inj same)
    simp [wireScope, Scope.compl, guests, (veths_differ second first).symm]

theorem rule_apart {first second : Nat} (differ : first ≠ second) {rule : Rule} (isRule : rule ∈ branchRules config first) :
    (wireScope config branchId second).compl.rules rule = true := by
  have apart : rule ∉ branchRules config second := fun here => differ (branchRules_apart isRule here)
  simp [wireScope, Scope.compl, apart]

/-- Branches with different indices and namespaces have nothing in common. -/
theorem wireScope_apart {first second : Nat} (differ : first ≠ second) (names : netnsOf branchId ≠ netnsOf other) :
    (wireScope config branchId first).Sub (wireScope config other second).compl where
  namespaces ns isNs := by
    have isNs : ns = netnsOf branchId := of_decide_eq_true isNs
    simp [wireScope, Scope.compl, isNs, names]
  devices name isName := device_apart differ (by simpa [wireScope] using isName)
  rules rule isRule := rule_apart differ (of_decide_eq_true isRule)
  gateway isGateway := by cases isGateway

/-! ## The part of every branch -/

/-- What the part of a branch looks like while its call is there. -/
def WirePhase.Holds (exec : Network → Command → Option Network) (config : NetworkConfig) (branchId : BranchId) (index : Nat)
    (part : Network) : WirePhase → Prop
  | .building ran => Built exec config branchId index ran part
  | .up => Wired exec config branchId index part
  | .unwinding ran => Unwound config branchId index ran part

theorem WirePhase.Holds.paired {phase : WirePhase} {part : Network} (laws : Laws exec)
    (holds : phase.Holds exec config branchId index part) : Paired branchId index part := by
  cases phase with
  | building ran => exact Built.paired laws holds
  | up => exact (Wired.built holds).paired laws
  | unwinding ran => exact Unwound.paired holds

structure Wiring.Sound (exec : Network → Command → Option Network) (config : NetworkConfig) (base : Network)
    (state : Wiring) : Prop where
  pool : state.pool.WellFormed config.capacity
  held : ∀ index, state.pool.Held index ↔ index ∈ state.wires
  names : ∀ first second wire other, state.wires.get? first = some wire → state.wires.get? second = some other →
    netnsOf wire.branchId = netnsOf other.branchId → first = second
  parts : ∀ index wire, state.wires.get? index = some wire →
    wire.phase.Holds exec config wire.branchId index (state.net.restrict (wireScope config wire.branchId index))
  namespaces : ∀ ns, (managed config).namespaces ns = true → state.net.namespaces ns ≠ none →
    ∃ index wire, state.wires.get? index = some wire ∧ ns = netnsOf wire.branchId
  devices : ∀ index < config.capacity, ∀ name, name = hostVeth index ∨ name = netnsVeth index →
    state.net.root.devices name ≠ none → index ∈ state.wires
  rules : ∀ index < config.capacity, ∀ rule ∈ branchRules config index, rule ∈ state.net.root.rules → index ∈ state.wires
  outside : state.net.restrict (managed config).compl = base.restrict (managed config).compl

namespace Wiring.Sound

theorem start (clean : base.restrict (managed config) = .bare) : (start base).Sound exec config base := by
  obtain ⟨namespaces, devices, rules, _⟩ := restrict_eq_bare.1 clean
  refine ⟨IndexPool.wellFormed_empty _, fun index => ?_, fun _ _ _ _ found => ?_, fun _ _ found => ?_,
    fun ns inside found => absurd (namespaces ns inside) found, fun index inside name isName found => ?_,
    fun index inside rule isRule found => ?_, rfl⟩
  · exact iff_of_false (IndexPool.not_held_empty index) (Dict.not_mem_empty index)
  · cases found
  · cases found
  · exact absurd (devices name (managed_device.2 ⟨index, inside, isName⟩)) found
  · exact absurd found (rules rule (managed_rule.2 ⟨index, inside, isRule⟩))

/-- Where there is no branch there is nothing. -/
theorem absent (sound : state.Sound exec config base) (inside : index < config.capacity) (noIndex : index ∉ state.wires)
    (noName : ∀ other wire, state.wires.get? other = some wire → netnsOf wire.branchId ≠ netnsOf branchId) :
    state.net.restrict (wireScope config branchId index) = .bare := by
  refine restrict_eq_bare.2 ⟨fun ns isNs => ?_, fun name isName => ?_, fun rule isRule member => ?_, fun isGateway => by cases isGateway⟩
  · refine Classical.byContradiction fun found => ?_
    obtain ⟨other, wire, isWire, same⟩ := sound.namespaces ns ((wireScope_sub_managed inside).namespaces ns isNs) found
    have isNs : ns = netnsOf branchId := of_decide_eq_true isNs
    exact noName other wire isWire (same.symm.trans isNs)
  · refine Classical.byContradiction fun found => noIndex (sound.devices index inside name ?_ found)
    simpa [wireScope] using isName
  · exact noIndex (sound.rules index inside rule (of_decide_eq_true isRule) member)

theorem below (sound : state.Sound exec config base) (found : index ∈ state.wires) : index < config.capacity :=
  Nat.lt_of_lt_of_le ((sound.held index).2 found).1 sound.pool.bounded

/-- Whatever has a name that branches use is of a branch that is there. -/
theorem owner (sound : state.Sound exec config base) {place : Option String} {name : String} {kind : Kind}
    (has : (managed config).Has place name) (found : state.net.kindAt place name = some kind) :
    ∃ index wire, state.wires.get? index = some wire ∧ (wireScope config wire.branchId index).Has place name := by
  cases place with
  | none =>
    obtain ⟨index, inside, isName⟩ := managed_device.1 has
    have isThere : index ∈ state.wires := by
      refine sound.devices index inside name isName fun nothing => ?_
      rw [kindAt_root, nothing] at found
      cases found
    obtain ⟨wire, isWire⟩ := Dict.mem_iff_get?.1 isThere
    exact ⟨index, wire, isWire, by simpa [Scope.Has, wireScope] using isName⟩
  | some ns =>
    obtain ⟨index, wire, isWire, isNs⟩ := sound.namespaces ns has fun nothing => by
      rw [kindAt_ns, nothing] at found
      cases found
    exact ⟨index, wire, isWire, by simpa [Scope.Has, wireScope] using isNs⟩

theorem paired_has (paired : Paired branchId index net) {place : Option String} {name : String} {other : Option String}
    {peer : String} (found : net.otherEnd place name = some (other, peer)) :
    (wireScope config branchId index).Has other peer := by
  rcases paired.ends _ _ _ _ found with ⟨_, _, rfl, rfl | rfl⟩ | ⟨_, _, rfl, rfl⟩ <;> simp [Scope.Has, wireScope]

/-- The pair of a branch is its own, and no other device reaches into its namespace. -/
theorem closed (laws : Laws exec) (sound : state.Sound exec config base) (baseClosed : Closed (managed config) base)
    {wire : Wire} (isWire : state.wires.get? index = some wire) :
    Closed (wireScope config wire.branchId index) state.net := by
  have sub : (wireScope config wire.branchId index).Sub (managed config) :=
    wireScope_sub_managed (sound.below (Dict.mem_of_get? isWire))
  refine ⟨fun place name other peer found => ?_, fun ns name inside found => ?_⟩
  case refine_2 =>
    have has : (wireScope config wire.branchId index).Has (some ns) name := inside
    exact ((sound.parts index wire isWire).paired laws).virtual ns name ((restrict_kindAt has _).trans found)
  by_cases has : (managed config).Has place name
  · obtain ⟨owned, ofOther, isOther, inOther⟩ := sound.owner has (kindAt_of_otherEnd found)
    have otherHas : (wireScope config ofOther.branchId owned).Has other peer :=
      paired_has ((sound.parts owned ofOther isOther).paired laws) ((restrict_otherEnd inOther _).trans found)
    by_cases same : owned = index
    · subst same
      rw [isWire] at isOther
      cases isOther
      exact iff_of_true inOther otherHas
    · have apart : (wireScope config ofOther.branchId owned).Sub (wireScope config wire.branchId index).compl :=
        wireScope_apart same fun names => same (sound.names _ _ _ _ isOther isWire names)
      exact iff_of_false (Scope.has_compl.1 (apart.has inOther)) (Scope.has_compl.1 (apart.has otherHas))
  · have inBase : base.otherEnd place name = some (other, peer) := by
      rw [← restrict_otherEnd (Scope.has_compl.2 has), ← sound.outside, restrict_otherEnd (Scope.has_compl.2 has), found]
    have notOther := mt (baseClosed.pairs _ _ _ _ inBase).2 has
    exact iff_of_false (fun inScope => has (sub.has inScope)) fun inScope => notOther (sub.has inScope)

/-- A call has moved on, in its own part. -/
theorem put (sound : state.Sound exec config base) {pool : IndexPool} (wellFormed : pool.WellFormed config.capacity)
    (held : ∀ other, pool.Held other ↔ other = index ∨ state.pool.Held other) (inside : index < config.capacity)
    (onlyHere : ∀ other wire, state.wires.get? other = some wire → netnsOf wire.branchId = netnsOf branchId → other = index)
    (sameId : ∀ wire, state.wires.get? index = some wire → wire.branchId = branchId)
    (rest : net.restrict (wireScope config branchId index).compl = state.net.restrict (wireScope config branchId index).compl)
    {phase : WirePhase} (holds : phase.Holds exec config branchId index (net.restrict (wireScope config branchId index))) :
    Wiring.Sound exec config base ⟨pool, net, state.wires.insert index ⟨branchId, phase⟩⟩ := by
  obtain ⟨sameNs, sameDevice, sameRule⟩ := agree_of_restrict rest
  have stays : ∀ {other}, other ∈ state.wires → other ∈ state.wires.insert index ⟨branchId, phase⟩ :=
    fun isThere => Dict.mem_insert.2 (.inr isThere)
  -- the others are as they were, and this one has kept its id
  have isOld : ∀ {other wire}, (state.wires.insert index ⟨branchId, phase⟩).get? other = some wire →
      other = index ∧ wire.branchId = branchId ∨ other ≠ index ∧ state.wires.get? other = some wire := by
    intro other wire isWire
    rw [Dict.get?_insert] at isWire
    split at isWire
    · next here =>
      cases isWire
      exact .inl ⟨here, rfl⟩
    · next differ => exact .inr ⟨differ, isWire⟩
  refine ⟨wellFormed, fun other => ?_, fun first second wire other isFirst isSecond same => ?_, fun other wire isWire => ?_,
    fun ns isManaged found => ?_, fun other below name isName found => ?_, fun other below rule isRule member => ?_, ?_⟩
  · rw [Dict.mem_insert, held, sound.held]
  · rcases isOld isFirst with ⟨rfl, isId⟩ | ⟨_, isFirst⟩ <;> rcases isOld isSecond with ⟨here, isId'⟩ | ⟨_, isSecond⟩
    · exact here.symm
    · exact (onlyHere second other isSecond (same.symm.trans (congrArg netnsOf isId))).symm
    · rw [here]
      exact onlyHere first wire isFirst (same.trans (congrArg netnsOf isId'))
    · exact sound.names first second wire other isFirst isSecond same
  · rcases isOld isWire with ⟨rfl, _⟩ | ⟨differ, isWire'⟩
    · rw [Dict.get?_insert, if_pos rfl] at isWire
      cases isWire
      exact holds
    · have apart : (wireScope config wire.branchId other).Sub (wireScope config branchId index).compl :=
        wireScope_apart differ fun names => differ (onlyHere other wire isWire' names)
      rw [restrict_congr apart rest]
      exact sound.parts other wire isWire'
  · by_cases isNs : ns = netnsOf branchId
    · exact ⟨index, ⟨branchId, phase⟩, by rw [Dict.get?_insert, if_pos rfl], isNs⟩
    · rw [sameNs ns (by simp [Scope.compl, wireScope, isNs])] at found
      obtain ⟨other, wire, isWire, owns⟩ := sound.namespaces ns isManaged found
      have differ : other ≠ index := by
        rintro rfl
        exact isNs (owns.trans (congrArg netnsOf (sameId wire isWire)))
      exact ⟨other, wire, by rw [Dict.get?_insert, if_neg differ, isWire], owns⟩
  · by_cases differ : other = index
    · exact Dict.mem_insert.2 (.inl differ)
    · rw [sameDevice name (device_apart differ isName)] at found
      exact stays (sound.devices other below name isName found)
  · by_cases differ : other = index
    · exact Dict.mem_insert.2 (.inl differ)
    · rw [sameRule rule (rule_apart differ isRule)] at member
      exact stays (sound.rules other below rule isRule member)
  · rw [← sound.outside]
    exact restrict_congr (wireScope_sub_managed inside).compl rest

/-- A call of a branch that is there has moved on. -/
theorem go (sound : state.Sound exec config base) {wire : Wire} (isWire : state.wires.get? index = some wire)
    (rest : net.restrict (wireScope config wire.branchId index).compl =
      state.net.restrict (wireScope config wire.branchId index).compl)
    {phase : WirePhase} (holds : phase.Holds exec config wire.branchId index (net.restrict (wireScope config wire.branchId index))) :
    Wiring.Sound exec config base { state with net := net, wires := state.wires.insert index ⟨wire.branchId, phase⟩ } := by
  have isHeld := (sound.held index).2 (Dict.mem_of_get? isWire)
  refine sound.put sound.pool (fun other => ?_) (sound.below (Dict.mem_of_get? isWire))
    (fun other wire' isOther same => sound.names _ _ _ _ isOther isWire same) (fun wire' isWire' => ?_) rest holds
  · exact ⟨.inr, fun held => held.elim (fun here => here ▸ isHeld) id⟩
  · rw [isWire] at isWire'
    cases isWire'
    rfl

/-- The last of a branch is gone, and its index is free. -/
theorem drop (sound : state.Sound exec config base) {wire : Wire} (isWire : state.wires.get? index = some wire)
    (bare : state.net.restrict (wireScope config wire.branchId index) = .bare) :
    Wiring.Sound exec config base { state with pool := state.pool.release index, wires := state.wires.erase index } := by
  obtain ⟨wellFormed, held⟩ := IndexPool.release_spec sound.pool ((sound.held index).2 (Dict.mem_of_get? isWire))
  obtain ⟨noNs, noDevice, noRule, _⟩ := restrict_eq_bare.1 bare
  have isOld : ∀ {other wire}, (state.wires.erase index).get? other = some wire → state.wires.get? other = some wire := by
    intro other wire isOther
    rw [Dict.get?_erase] at isOther
    split at isOther
    · cases isOther
    · exact isOther
  refine ⟨wellFormed, fun other => ?_, fun first second wire other isFirst isSecond same =>
    sound.names _ _ _ _ (isOld isFirst) (isOld isSecond) same, fun other wire isOther => sound.parts other wire (isOld isOther),
    fun ns isManaged found => ?_, fun other below name isName found => ?_, fun other below rule isRule member => ?_, sound.outside⟩
  · rw [held, Dict.mem_erase, sound.held]
    exact and_comm
  · obtain ⟨other, ofOther, isOther, isNs⟩ := sound.namespaces ns isManaged found
    have differ : other ≠ index := by
      rintro rfl
      rw [isWire] at isOther
      cases isOther
      exact found (noNs ns (by simp [wireScope, isNs]))
    exact ⟨other, ofOther, by rw [Dict.get?_erase, if_neg differ, isOther], isNs⟩
  · refine Dict.mem_erase.2 ⟨?_, sound.devices other below name isName found⟩
    rintro rfl
    exact found (noDevice name (by simpa [wireScope] using isName))
  · refine Dict.mem_erase.2 ⟨?_, sound.rules other below rule isRule member⟩
    rintro rfl
    exact noRule rule (decide_eq_true isRule) member

/-- What a command does to the part of its branch, and that it leaves the rest alone. -/
theorem command (laws : Laws exec) (sound : state.Sound exec config base) (baseClosed : Closed (managed config) base)
    {wire : Wire} (isWire : state.wires.get? index = some wire) {command : Command}
    (wires : Wires config wire.branchId index command) :
    (afterCmd exec state.net command).restrict (wireScope config wire.branchId index) =
        afterCmd exec (state.net.restrict (wireScope config wire.branchId index)) command ∧
      (afterCmd exec state.net command).restrict (wireScope config wire.branchId index).compl =
        state.net.restrict (wireScope config wire.branchId index).compl := by
  have closed := sound.closed laws baseClosed isWire
  have inPart := laws.inside wires.within closed
  unfold afterCmd
  rw [inPart]
  cases executed : exec state.net command with
  | none => exact ⟨rfl, rfl⟩
  | some after => exact ⟨rfl, laws.outside wires.within closed executed⟩

theorem build (laws : Laws exec) (sound : state.Sound exec config base) (baseClosed : Closed (managed config) base)
    {ran : Nat} (isWire : state.wires.get? index = some ⟨branchId, .building ran⟩) (outcome : RunOutcome) :
    (Wiring.build exec config state index branchId ran outcome).Sound exec config base := by
  have built : Built exec config branchId index ran (state.net.restrict (wireScope config branchId index)) :=
    sound.parts index _ isWire
  unfold Wiring.build
  cases isCommand : (setupCmds config branchId index)[ran]? with
  | none =>
    simp only
    exact sound.go isWire rfl (built.wired laws isCommand)
  | some command =>
    obtain ⟨inPart, rest⟩ := sound.command laws baseClosed isWire (wires_of_setup (List.mem_of_getElem? isCommand))
    have closed := sound.closed laws baseClosed isWire
    have executes := laws.inside (wires_of_setup (List.mem_of_getElem? isCommand)).within closed
    cases outcome with
    | returned =>
      simp only
      cases executed : exec state.net command with
      | none => exact sound.go isWire rfl (Built.unwound laws built)
      | some after =>
        have isAfter : afterCmd exec state.net command = after := by rw [afterCmd, executed, Option.getD_some]
        rw [isAfter] at rest
        refine sound.go isWire rest (built.step isCommand ?_)
        rw [executes, executed, Option.map_some]
    | raised effect =>
      simp only
      cases effect with
      | false => exact sound.go isWire rfl (Built.unwound laws built)
      | true =>
        simp only [if_true]
        refine sound.go isWire rest ?_
        rw [inPart]
        unfold afterCmd
        cases executed : exec (state.net.restrict (wireScope config branchId index)) command with
        | none => exact built.unwound laws
        | some after => exact (built.step isCommand executed).unwound laws

theorem unwind (laws : Laws exec) (sound : state.Sound exec config base) (baseClosed : Closed (managed config) base)
    {ran : Nat} (isWire : state.wires.get? index = some ⟨branchId, .unwinding ran⟩) {outcome : RunOutcome}
    (runs : outcome ≠ .raised false) : (Wiring.unwind exec config state index branchId ran outcome).Sound exec config base := by
  have unwound : Unwound config branchId index ran (state.net.restrict (wireScope config branchId index)) :=
    sound.parts index _ isWire
  have confined : ∀ net : Network, (net.restrict (wireScope config branchId index)).restrict (wireScope config branchId index) =
      net.restrict (wireScope config branchId index) := fun net => restrict_restrict net
  unfold Wiring.unwind
  cases isCommand : (teardownCmds config branchId index)[ran]? with
  | none => exact sound.drop isWire (unwound.bare isCommand (confined _))
  | some command =>
    obtain ⟨inPart, rest⟩ := sound.command laws baseClosed isWire (wires_of_teardown (List.mem_of_getElem? isCommand))
    simp only [if_neg runs]
    refine sound.go isWire rest ?_
    rw [inPart]
    exact unwound.step laws isCommand

theorem step (laws : Laws exec) (sound : state.Sound exec config base) (baseClosed : Closed (managed config) base)
    {action : WiringAction} (orderly : state.orderly action) (taken : Wiring.step exec config state action = some next) :
    next.Sound exec config base := by
  cases action with
  | setup branchId =>
    simp only [Wiring.step] at taken
    cases allocated : state.pool.allocate config.capacity with
    | none =>
      rw [allocated] at taken
      cases taken
      exact sound
    | some pair =>
      obtain ⟨index, pool⟩ := pair
      rw [allocated] at taken
      cases taken
      obtain ⟨wellFormed, inside, free, held⟩ := IndexPool.allocate_some sound.pool allocated
      have noIndex : index ∉ state.wires := fun isThere => free ((sound.held index).2 isThere)
      have noName : ∀ other wire, state.wires.get? other = some wire → netnsOf wire.branchId ≠ netnsOf branchId :=
        fun other wire isWire => orderly (other, wire) (Dict.mem_entries.2 isWire)
      refine sound.put wellFormed held inside (fun other wire isWire same => absurd same (noName other wire isWire))
        (fun wire isWire => absurd (Dict.mem_of_get? isWire) noIndex) rfl ?_
      exact congrArg some (sound.absent inside noIndex noName).symm
  | proceed index outcome =>
    simp only [Wiring.step] at taken
    split at taken
    · next branchId ran isWire =>
      cases taken
      exact sound.build laws baseClosed isWire outcome
    · next branchId ran isWire =>
      cases taken
      refine sound.unwind laws baseClosed isWire ?_
      simpa only [Wiring.orderly, isWire] using orderly
    · cases taken
  | teardown index =>
    simp only [Wiring.step] at taken
    split at taken
    · next branchId isWire =>
      cases taken
      have isWired : Wired exec config branchId index (state.net.restrict (wireScope config branchId index)) :=
        sound.parts index _ isWire
      exact sound.go isWire rfl (isWired.built.unwound laws)
    · cases taken

end Wiring.Sound

/-- On a host that had nothing of this kind, as far as `ip` and `iptables` obey the laws,
whatever calls are made and however their commands come in turn and fail: an index is
held for the branches that are there; a branch that is up has its whole wiring; where
there is no branch there is nothing; the rest of the host is as it was; and once no
branch is there, so is all of it. -/
theorem branches_stay_apart (laws : Laws exec) (clean : base.restrict (managed config) = .bare)
    (baseClosed : Closed (managed config) base)
    (reached : Reachable (fun before action after => Wiring.step exec config before action = some after) Wiring.orderly
      (Wiring.start base) state) :
    (∀ index, state.pool.Held index ↔ index ∈ state.wires) ∧
    (∀ index branchId, state.wires.get? index = some ⟨branchId, .up⟩ →
      Wired exec config branchId index (state.net.restrict (wireScope config branchId index))) ∧
    (∀ index < config.capacity, index ∉ state.wires → ∀ branchId,
      (∀ other wire, state.wires.get? other = some wire → netnsOf wire.branchId ≠ netnsOf branchId) →
      state.net.restrict (wireScope config branchId index) = .bare) ∧
    state.net.restrict (managed config).compl = base.restrict (managed config).compl ∧
    ((∀ index, index ∉ state.wires) → state.net = base) := by
  have sound : state.Sound exec config base := reached.invariant (.start clean)
    fun _ _ _ sound orderly taken => sound.step laws baseClosed orderly taken
  refine ⟨sound.held, fun index branchId isWire => sound.parts index _ isWire,
    fun index inside noIndex branchId noName => sound.absent inside noIndex noName, sound.outside, fun gone => ?_⟩
  refine eq_of_restrict (restrict_eq_bare.2 ⟨fun ns isNs => ?_, fun name isName => ?_, fun rule isRule member => ?_,
    fun isGateway => by cases isGateway⟩) clean sound.outside
  · refine Classical.byContradiction fun found => ?_
    obtain ⟨index, wire, isWire, _⟩ := sound.namespaces ns isNs found
    exact gone index (Dict.mem_of_get? isWire)
  · obtain ⟨index, inside, isName⟩ := managed_device.1 isName
    exact Classical.byContradiction fun found => gone index (sound.devices index inside name isName found)
  · obtain ⟨index, inside, isRule⟩ := managed_rule.1 isRule
    exact gone index (sound.rules index inside rule isRule member)

instance (state : Wiring) (action : WiringAction) : Decidable (state.orderly action) :=
  match action with
  | .setup branchId => inferInstanceAs (Decidable (∀ entry ∈ state.wires.entries, netnsOf entry.2.branchId ≠ netnsOf branchId))
  | .proceed index outcome =>
    match isWire : state.wires.get? index with
    | some ⟨_, .unwinding _⟩ => decidable_of_iff (outcome ≠ .raised false) (by simp only [Wiring.orderly, isWire])
    | some ⟨_, .building _⟩ | some ⟨_, .up⟩ | none => isTrue (by simp only [Wiring.orderly, isWire])
  | .teardown _ => isTrue trivial

/-- What `setup` makes in the reference network. -/
def wired (config : NetworkConfig) (branchId : BranchId) (index : Nat) : Network where
  root :=
    { devices := fun name =>
        if name = hostVeth index then
          some ⟨.veth (some (netnsOf branchId)) (netnsVeth index), [⟨(config.vethNet index).address + 1, 30⟩], true⟩
        else none
      gateway := none
      rules := branchRules config index }
  namespaces ns :=
    if ns = netnsOf branchId then
      some
        { devices := fun name =>
            if name = "lo" then some ⟨.loopback, [], true⟩
            else if name = tapDev then some ⟨.tap, [guestGateway], true⟩
            else if name = netnsVeth index then
              some ⟨.veth none (hostVeth index), [⟨(config.vethNet index).address + 2, 30⟩], true⟩
            else none
          gateway := some ((config.vethNet index).address + 1)
          rules := [.masquerade none (netnsVeth index)] }
    else none

theorem netnsVeth_reserved (index : Nat) : netnsVeth index ≠ "lo" ∧ netnsVeth index ≠ tapDev := by
  constructor <;>
  · intro same
    have chars := congrArg String.toList same
    simp [netnsVeth, tapDev] at chars

theorem execAll_setup : execAll Network.reference .bare (setupCmds config branchId index) =
    some (wired config branchId index) := by
  have pair := veths_differ index index
  obtain ⟨notLo, notTap⟩ := netnsVeth_reserved index
  have loTap : ("lo" : String) ≠ tapDev := by decide
  simp [execAll, setupCmds, branchRules, vethPair, Network.reference, Stack.apply, Network.setNs, Network.bare, Stack.bare,
    Stack.fresh, Stack.setDevice, Stack.repoint, Network.edit, pair, notLo, notTap, notLo.symm, loTap, loTap.symm]
  refine Network.ext (Stack.ext (funext fun name => ?_) rfl rfl) (funext fun ns => ?_)
  · by_cases isHost : name = hostVeth index
    · simp [wired, isHost]
    · simp [wired, isHost]
  · by_cases isNs : ns = netnsOf branchId
    · simp only [wired, isNs, if_true, Option.some.injEq]
      refine Stack.ext (funext fun name => ?_) rfl rfl
      by_cases isVeth : name = netnsVeth index
      · simp [isVeth, notLo, notTap]
      · by_cases isTap : name = tapDev
        · simp [isTap, notTap.symm, loTap.symm]
        · by_cases isLo : name = "lo"
          · simp [isLo]
          · simp [isTap, isVeth, isLo]
    · simp [wired, isNs]

/-- Room for two branches, 10.0.0.0/29. -/
def smallSubnet : NetworkConfig := ⟨"eth0", ⟨10 * 256 ^ 3, 29⟩⟩

def uplinkHost : Network where
  root := ⟨fun name => if name = "eth0" then some ⟨.physical, [⟨167837954, 24⟩], true⟩ else none, some 167837953,
    [.accept "docker0" "eth0" false]⟩
  namespaces ns := if ns = "vpn" then some .fresh else none

/-- The first branch comes up while the setup of the second one is broken off in its sixth command. -/
def brokenOff : List WiringAction :=
  .setup "a" :: List.replicate 9 (.proceed 0 .returned) ++ .setup "b" :: List.replicate 5 (.proceed 1 .returned) ++
    .proceed 0 .returned :: .proceed 1 (.raised true) :: List.replicate 6 (.proceed 1 .returned) ++
    List.replicate 7 (.proceed 0 .returned)

def tornDown : List WiringAction := .teardown 0 :: List.replicate 6 (.proceed 0 .returned)

def wiringRun (actions : List WiringAction) : Wiring :=
  runFrom (Wiring.step Network.reference smallSubnet) (Wiring.start uplinkHost) actions

theorem uplinkHost_clean : uplinkHost.restrict (managed smallSubnet) = .bare := by
  refine restrict_eq_bare.2 ⟨fun ns isNs => ?_, fun name isName => ?_, fun rule isRule member => ?_, fun isGateway => by cases isGateway⟩
  · refine if_neg fun isVpn => ?_
    subst isVpn
    exact absurd isNs (by decide)
  · refine if_neg fun isUplink => ?_
    subst isUplink
    exact absurd isName (by decide)
  · rw [List.mem_singleton.1 member] at isRule
    exact absurd isRule (by decide)

theorem uplinkHost_closed : Closed (managed smallSubnet) uplinkHost where
  pairs place name other peer found := by
    replace found := kindAt_of_otherEnd found
    cases place with
    | none =>
      simp only [kindAt_root, uplinkHost] at found
      split at found <;> cases found
    | some ns =>
      simp only [kindAt_ns, uplinkHost] at found
      split at found
      · simp only [Stack.fresh, Option.bind_some] at found
        split at found <;> cases found
      · cases found
  virtual ns name _ found := by
    simp only [kindAt_ns, uplinkHost] at found
    split at found
    · simp only [Stack.fresh, Option.bind_some] at found
      split at found <;> cases found
    · cases found

theorem smallSubnet_stays_apart :
    (wiringRun brokenOff).net.restrict (wireScope smallSubnet "a" 0) = wired smallSubnet "a" 0 ∧
      (wiringRun brokenOff).net.restrict (wireScope smallSubnet "b" 1) = .bare ∧
      (wiringRun (brokenOff ++ tornDown)).net = uplinkHost := by
  obtain ⟨_, up, absent, _, _⟩ := branches_stay_apart reference_laws uplinkHost_clean uplinkHost_closed
    (show Reachable _ _ _ (wiringRun brokenOff) from reachable_runFrom (by decide) (by decide))
  obtain ⟨_, _, _, _, cleared⟩ := branches_stay_apart reference_laws uplinkHost_clean uplinkHost_closed
    (show Reachable _ _ _ (wiringRun (brokenOff ++ tornDown)) from reachable_runFrom (by decide) (by decide))
  have one : (wiringRun brokenOff).wires.entries = [(0, ⟨"a", .up⟩)] := by decide
  have none : (wiringRun (brokenOff ++ tornDown)).wires.entries = [] := by decide
  have isUp := up 0 "a" (Dict.mem_entries.1 (by rw [one]; exact List.mem_singleton.2 rfl))
  refine ⟨Option.some.inj (isUp.made.symm.trans execAll_setup),
    absent 1 (by decide) (by decide) "b" fun other wire isWire => ?_, cleared fun index isThere => ?_⟩
  · have isA := Dict.mem_entries.2 isWire
    rw [one, List.mem_singleton] at isA
    cases isA
    decide
  · obtain ⟨wire, isWire⟩ := Dict.mem_iff_get?.1 isThere
    have member := Dict.mem_entries.2 isWire
    rw [none] at member
    exact List.not_mem_nil member

end Agentfork.Firecracker

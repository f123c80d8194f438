import Mathlib.Data.List.Basic
import Mathlib.Logic.Function.Basic

/-! # The network of a host

What `ip` and `iptables` show of a host: its network namespaces with their devices,
default routes and packet filter rules. The commands are names; what they do is a
parameter, of which `Laws` says what the development relies on.

A scope names a part of the network. What a command does to its part depends on that
part alone, and it leaves the rest as it was: the frame rule that separate users of
one host rely on. -/

namespace Agentfork.HostNetwork

/-- An IPv4 address with a prefix length. -/
structure Cidr where
  address : Nat
  length : Nat
  deriving DecidableEq, Repr

inductive Kind where
  /-- one that outlives its namespace and goes back to the root -/
  | physical
  | loopback
  | tap
  /-- one end of a pair; the other one has a name in a namespace, `none` for the root -/
  | veth (place : Option String) (peer : String)
  deriving DecidableEq, Repr

structure Device where
  kind : Kind
  addresses : List Cidr
  up : Bool
  deriving DecidableEq, Repr

inductive Rule where
  /-- of the chain `POSTROUTING` of the table `nat` -/
  | masquerade (source : Option Cidr) (output : String)
  /-- of the chain `FORWARD`, for established connections only or for all -/
  | accept (input output : String) (established : Bool)
  deriving DecidableEq, Repr

/-- One network namespace. -/
@[ext]
structure Stack where
  devices : String → Option Device
  /-- the default route -/
  gateway : Option Nat
  /-- of both chains in one list, where those of one chain stand in their order -/
  rules : List Rule

@[ext]
structure Network where
  root : Stack
  namespaces : String → Option Stack

/-- Commands inside one namespace. -/
inductive Change where
  | tapAdd (device : String)
  | addrAdd (address : Cidr) (device : String)
  | linkUp (device : String)
  | gatewayAdd (via : Nat)
  | append (rule : Rule)
  | remove (rule : Rule)
  deriving DecidableEq, Repr

inductive Command where
  | netnsAdd (ns : String)
  | netnsDel (ns : String)
  /-- `ip netns exec` -/
  | netnsExec (ns : String) (change : Change)
  | inRoot (change : Change)
  | vethAdd (device peer : String)
  | linkMove (device ns : String)
  | linkDel (device : String)
  deriving DecidableEq, Repr

def Stack.bare : Stack := ⟨fun _ => none, none, []⟩

namespace Network

def bare : Network := ⟨.bare, fun _ => none⟩

/-- The stack of a place. -/
def stackAt (net : Network) : Option String → Option Stack
  | none => some net.root
  | some ns => net.namespaces ns

/-- What kind of device stands at a place under a name. -/
def kindAt (net : Network) (place : Option String) (name : String) : Option Kind :=
  (net.stackAt place).bind fun stack => (stack.devices name).map Device.kind

end Network

/-- Where the other end of a pair is, and its name there. -/
def Kind.otherEnd : Kind → Option (Option String × String)
  | .veth place peer => some (place, peer)
  | _ => none

def Network.otherEnd (net : Network) (place : Option String) (name : String) : Option (Option String × String) :=
  (net.kindAt place name).bind Kind.otherEnd

theorem kindAt_root (net : Network) (name : String) : net.kindAt none name = (net.root.devices name).map Device.kind := rfl

theorem kindAt_ns (net : Network) (ns name : String) :
    net.kindAt (some ns) name = (net.namespaces ns).bind fun stack => (stack.devices name).map Device.kind := rfl

theorem kindAt_of_otherEnd {net : Network} {place other : Option String} {name peer : String}
    (found : net.otherEnd place name = some (other, peer)) : net.kindAt place name = some (.veth other peer) := by
  obtain ⟨kind, isKind, found⟩ := Option.bind_eq_some_iff.1 found
  cases kind <;> cases found
  exact isKind

theorem otherEnd_of_kindAt {net : Network} {place other : Option String} {name peer : String}
    (found : net.kindAt place name = some (.veth other peer)) : net.otherEnd place name = some (other, peer) := by
  rw [Network.otherEnd, found]
  rfl

/-! ## Parts of the network -/

structure Scope where
  namespaces : String → Bool
  devices : String → Bool
  rules : Rule → Bool
  gateway : Bool

/-- The rest. -/
def Scope.compl (scope : Scope) : Scope :=
  ⟨fun ns => !scope.namespaces ns, fun name => !scope.devices name, fun rule => !scope.rules rule, !scope.gateway⟩

def Stack.restrict (scope : Scope) (stack : Stack) : Stack where
  devices name := if scope.devices name then stack.devices name else none
  gateway := if scope.gateway then stack.gateway else none
  rules := stack.rules.filter scope.rules

def Network.restrict (scope : Scope) (net : Network) : Network where
  root := net.root.restrict scope
  namespaces ns := if scope.namespaces ns then net.namespaces ns else none

def Change.Within (scope : Scope) : Change → Prop
  | .tapAdd name | .addrAdd _ name | .linkUp name => scope.devices name = true
  | .gatewayAdd _ => scope.gateway = true
  | .append rule | .remove rule => scope.rules rule = true

def Command.Within (scope : Scope) : Command → Prop
  | .netnsAdd ns | .netnsDel ns | .netnsExec ns _ => scope.namespaces ns = true
  | .inRoot change => change.Within scope
  | .vethAdd name peer => scope.devices name = true ∧ scope.devices peer = true
  | .linkMove name ns => scope.devices name = true ∧ scope.namespaces ns = true
  | .linkDel name => scope.devices name = true

/-- A place and a name there belong to the scope. -/
def Scope.Has (scope : Scope) : Option String → String → Prop
  | none, name => scope.devices name = true
  | some ns, _ => scope.namespaces ns = true

/-- No pair has one end in the scope only, and none of its namespaces has a device that outlives it. -/
structure Closed (scope : Scope) (net : Network) : Prop where
  pairs : ∀ place name other peer, net.otherEnd place name = some (other, peer) →
    (scope.Has place name ↔ scope.Has other peer)
  virtual : ∀ ns name, scope.namespaces ns = true → net.kindAt (some ns) name ≠ some .physical

variable {scope : Scope} {net next : Network} {command : Command}

theorem Stack.restrict_devices {name : String} (inside : scope.devices name = true) (stack : Stack) :
    (stack.restrict scope).devices name = stack.devices name := if_pos inside

theorem Network.restrict_namespaces {ns : String} (inside : scope.namespaces ns = true) (net : Network) :
    (net.restrict scope).namespaces ns = net.namespaces ns := if_pos inside

theorem restrict_kindAt {place : Option String} {name : String} (has : scope.Has place name) (net : Network) :
    (net.restrict scope).kindAt place name = net.kindAt place name := by
  cases place with
  | none => rw [kindAt_root, kindAt_root, ← Stack.restrict_devices has net.root]; rfl
  | some ns => rw [kindAt_ns, kindAt_ns, Network.restrict_namespaces has net]

theorem restrict_otherEnd {place : Option String} {name : String} (has : scope.Has place name) (net : Network) :
    (net.restrict scope).otherEnd place name = net.otherEnd place name := by
  rw [Network.otherEnd, Network.otherEnd, restrict_kindAt has]

theorem Scope.has_compl {place : Option String} {name : String} : scope.compl.Has place name ↔ ¬ scope.Has place name := by
  cases place <;> simp [Scope.Has, Scope.compl]

structure Scope.Sub (small large : Scope) : Prop where
  namespaces : ∀ ns, small.namespaces ns = true → large.namespaces ns = true
  devices : ∀ name, small.devices name = true → large.devices name = true
  rules : ∀ rule, small.rules rule = true → large.rules rule = true
  gateway : small.gateway = true → large.gateway = true

theorem Scope.Sub.has {small large : Scope} (sub : small.Sub large) {place : Option String} {name : String}
    (has : small.Has place name) : large.Has place name := by
  cases place with
  | none => exact sub.devices name has
  | some ns => exact sub.namespaces ns has

theorem restrict_of_sub {small large : Scope} (sub : small.Sub large) (net : Network) :
    (net.restrict large).restrict small = net.restrict small := by
  refine Network.ext (Stack.ext (funext fun name => ?_) ?_ ?_) (funext fun ns => ?_)
  · simp only [Network.restrict, Stack.restrict]
    cases inside : small.devices name with
    | false => rfl
    | true => simp [sub.devices name inside]
  · simp only [Network.restrict, Stack.restrict]
    cases inside : small.gateway with
    | false => rfl
    | true => simp [sub.gateway inside]
  · simp only [Network.restrict, Stack.restrict, List.filter_filter]
    refine List.filter_congr fun rule _ => ?_
    cases inside : small.rules rule with
    | false => rfl
    | true => rw [sub.rules rule inside, Bool.and_true]
  · simp only [Network.restrict]
    cases inside : small.namespaces ns with
    | false => rfl
    | true => simp [sub.namespaces ns inside]

theorem restrict_restrict (net : Network) : (net.restrict scope).restrict scope = net.restrict scope :=
  restrict_of_sub ⟨fun _ => id, fun _ => id, fun _ => id, id⟩ net

/-- What agrees on a part agrees on every part of it. -/
theorem restrict_congr {small large : Scope} (sub : small.Sub large) (same : next.restrict large = net.restrict large) :
    next.restrict small = net.restrict small := by
  rw [← restrict_of_sub sub next, same, restrict_of_sub sub]

theorem Scope.Sub.compl {small large : Scope} (sub : small.Sub large) : large.compl.Sub small.compl where
  namespaces ns outside := by
    simp only [Scope.compl, Bool.not_eq_true'] at outside ⊢
    exact Bool.eq_false_iff.2 fun inside => by simp [sub.namespaces ns inside] at outside
  devices name outside := by
    simp only [Scope.compl, Bool.not_eq_true'] at outside ⊢
    exact Bool.eq_false_iff.2 fun inside => by simp [sub.devices name inside] at outside
  rules rule outside := by
    simp only [Scope.compl, Bool.not_eq_true'] at outside ⊢
    exact Bool.eq_false_iff.2 fun inside => by simp [sub.rules rule inside] at outside
  gateway outside := by
    simp only [Scope.compl, Bool.not_eq_true'] at outside ⊢
    exact Bool.eq_false_iff.2 fun inside => by simp [sub.gateway inside] at outside

/-- What two networks that agree on a part have in common. -/
theorem agree_of_restrict (same : next.restrict scope = net.restrict scope) :
    (∀ ns, scope.namespaces ns = true → next.namespaces ns = net.namespaces ns) ∧
      (∀ name, scope.devices name = true → next.root.devices name = net.root.devices name) ∧
      ∀ rule, scope.rules rule = true → (rule ∈ next.root.rules ↔ rule ∈ net.root.rules) := by
  have root := congrArg Network.root same
  refine ⟨fun ns inside => ?_, fun name inside => ?_, fun rule inside => ?_⟩
  · have point := congrFun (congrArg Network.namespaces same) ns
    exact (Network.restrict_namespaces inside next).symm.trans (point.trans (Network.restrict_namespaces inside net))
  · have point := congrFun (congrArg Stack.devices root) name
    exact (Stack.restrict_devices inside next.root).symm.trans (point.trans (Stack.restrict_devices inside net.root))
  · have kept : ∀ whole : Network, rule ∈ (whole.restrict scope).root.rules ↔ rule ∈ whole.root.rules := by
      intro whole
      simp [Network.restrict, Stack.restrict, inside]
    rw [← kept next, root, kept]

/-- A part is bare where none of it is there. -/
theorem restrict_eq_bare : net.restrict scope = .bare ↔
    (∀ ns, scope.namespaces ns = true → net.namespaces ns = none) ∧
      (∀ name, scope.devices name = true → net.root.devices name = none) ∧
      (∀ rule, scope.rules rule = true → rule ∉ net.root.rules) ∧ (scope.gateway = true → net.root.gateway = none) := by
  constructor
  · intro bare
    have root := congrArg Network.root bare
    refine ⟨fun ns inside => ?_, fun name inside => ?_, fun rule inside member => ?_, fun inside => ?_⟩
    · exact (Network.restrict_namespaces inside net).symm.trans (congrFun (congrArg Network.namespaces bare) ns)
    · exact (Stack.restrict_devices inside net.root).symm.trans (congrFun (congrArg Stack.devices root) name)
    · have kept : rule ∈ net.root.rules.filter scope.rules := List.mem_filter.2 ⟨member, inside⟩
      rw [show net.root.rules.filter scope.rules = [] from congrArg Stack.rules root] at kept
      exact List.not_mem_nil kept
    · have gateway : (net.root.restrict scope).gateway = none := congrArg Stack.gateway root
      exact (if_pos inside).symm.trans gateway
  · rintro ⟨namespaces, devices, rules, gateway⟩
    refine Network.ext (Stack.ext (funext fun name => ?_) ?_ ?_) (funext fun ns => ?_)
    · simp only [Network.restrict, Stack.restrict]
      split
      · next inside => exact devices name inside
      · rfl
    · simp only [Network.restrict, Stack.restrict]
      split
      · next inside => exact gateway inside
      · rfl
    · exact List.filter_eq_nil_iff.2 fun rule member inside => rules rule inside member
    · simp only [Network.restrict]
      split
      · next inside => exact namespaces ns inside
      · rfl

/-- Without anything in a part, the rest is all there is. -/
theorem eq_of_restrict {base : Network} (bare : net.restrict scope = .bare) (baseBare : base.restrict scope = .bare)
    (rest : net.restrict scope.compl = base.restrict scope.compl) : net = base := by
  obtain ⟨namespaces, devices, rules, gateway⟩ := restrict_eq_bare.1 bare
  obtain ⟨baseNamespaces, baseDevices, baseRules, baseGateway⟩ := restrict_eq_bare.1 baseBare
  have root := congrArg Network.root rest
  refine Network.ext (Stack.ext (funext fun name => ?_) ?_ ?_) (funext fun ns => ?_)
  · cases inside : scope.devices name with
    | true => rw [devices name inside, baseDevices name inside]
    | false =>
      exact (agree_of_restrict rest).2.1 name (by simp [Scope.compl, inside])
  · cases inside : scope.gateway with
    | true => rw [gateway inside, baseGateway inside]
    | false => simpa [Network.restrict, Stack.restrict, Scope.compl, inside] using congrArg Stack.gateway root
  · have all : ∀ {whole : Network}, (∀ rule, scope.rules rule = true → rule ∉ whole.root.rules) →
        whole.root.rules.filter scope.compl.rules = whole.root.rules := by
      intro whole absent
      refine List.filter_eq_self.2 fun rule member => ?_
      simp only [Scope.compl, Bool.not_eq_true']
      exact Bool.eq_false_iff.2 fun inside => absent rule inside member
    have same : net.root.rules.filter scope.compl.rules = base.root.rules.filter scope.compl.rules :=
      congrArg Stack.rules root
    rwa [all rules, all baseRules] at same
  · cases inside : scope.namespaces ns with
    | true => rw [namespaces ns inside, baseNamespaces ns inside]
    | false =>
      exact (agree_of_restrict rest).1 ns (by simp [Scope.compl, inside])

/-! ## What the commands do -/

/-- The rules of the root after a command. -/
def Command.rewrites (rules : List Rule) : Command → List Rule
  | .inRoot (.append rule) => rules ++ [rule]
  | .inRoot (.remove rule) => rules.erase rule
  | _ => rules

/-- The command makes a device of the name in the root. -/
def Command.Adds (name : String) : Command → Prop
  | .inRoot (.tapAdd device) => name = device
  | .vethAdd device peer => name = device ∨ name = peer
  | _ => False

/-- The command leaves the pairs as they are. -/
def Command.keepsPairs : Command → Bool
  | .netnsAdd _ | .netnsExec _ _ | .inRoot _ => true
  | _ => false

/-- What is known of `ip` and `iptables`. `none` stands for an exit status that is not
zero; a command that ends so has changed nothing. -/
structure Laws (exec : Network → Command → Option Network) : Prop where
  /-- What a command does to its part of the network depends on that part alone. -/
  inside : ∀ {scope net command}, command.Within scope → Closed scope net →
    exec (net.restrict scope) command = (exec net command).map (Network.restrict scope)
  /-- And it leaves the rest as it was. -/
  outside : ∀ {scope net next command}, command.Within scope → Closed scope net → exec net command = some next →
    next.restrict scope.compl = net.restrict scope.compl
  /-- `-A` appends a rule, `-D` removes the first one that is equal to it. -/
  rules : ∀ {net next command}, exec net command = some next → next.root.rules = command.rewrites net.root.rules
  remove : ∀ {net rule}, rule ∈ net.root.rules → exec net (.inRoot (.remove rule)) ≠ none
  /-- Devices come into the root by the commands that make them there, or out of a
  namespace that is deleted. -/
  added : ∀ {net next command name}, exec net command = some next →
    (∀ ns other, command = .netnsDel ns → net.kindAt (some ns) other ≠ some .physical) →
    next.kindAt none name ≠ none → net.kindAt none name ≠ none ∨ command.Adds name
  /-- A physical device comes into a namespace from the root. -/
  physical : ∀ {net next command ns name}, exec net command = some next → next.kindAt (some ns) name = some .physical →
    net.kindAt (some ns) name = some .physical ∨ net.kindAt none name = some .physical
  /-- An end of a pair is one as long as it is there. -/
  lasting : ∀ {net next command place name}, exec net command = some next → net.otherEnd place name ≠ none →
    next.otherEnd place name = none → next.kindAt place name = none
  keepsPairs : ∀ {net next command place name}, exec net command = some next → command.keepsPairs = true →
    next.otherEnd place name = net.otherEnd place name
  vethAdd : ∀ {net next device peer place name}, exec net (.vethAdd device peer) = some next →
    next.otherEnd place name =
      if place = none ∧ name = peer then some (none, device)
      else if place = none ∧ name = device then some (none, peer)
      else net.otherEnd place name
  linkMove_finds : ∀ {net next device ns}, exec net (.linkMove device ns) = some next → net.kindAt none device ≠ none
  /-- One end of a pair goes into a namespace, the other one stays. -/
  linkMove : ∀ {net next device peer ns place name}, exec net (.linkMove device ns) = some next →
    net.otherEnd none device = some (none, peer) → net.otherEnd none peer = some (none, device) →
    next.otherEnd place name =
      if place = none ∧ name = device then none
      else if place = some ns ∧ name = device then some (none, peer)
      else if place = none ∧ name = peer then some (some ns, device)
      else net.otherEnd place name
  linkDel_finds : ∀ {net next device}, exec net (.linkDel device) = some next → net.kindAt none device ≠ none
  /-- The end of a pair can be deleted, and the other end goes with it. -/
  linkDel_pair : ∀ {net device}, net.otherEnd none device ≠ none → exec net (.linkDel device) ≠ none
  linkDel : ∀ {net next device other peer place name}, exec net (.linkDel device) = some next →
    net.otherEnd none device = some (other, peer) →
    next.otherEnd place name =
      if place = none ∧ name = device ∨ place = other ∧ name = peer then none else net.otherEnd place name
  /-- A namespace that is there can be deleted, and the ends of pairs in it go with their other ends. -/
  netnsDel_there : ∀ {net ns}, net.namespaces ns ≠ none → exec net (.netnsDel ns) ≠ none
  netnsDel_gone : ∀ {net next ns}, exec net (.netnsDel ns) = some next → next.namespaces ns = none
  netnsDel : ∀ {net next ns place name}, exec net (.netnsDel ns) = some next →
    next.otherEnd place name =
      if place = some ns then none else (net.otherEnd place name).filter fun ends => ends.1 ≠ some ns

/-! ## Several commands -/

variable {exec : Network → Command → Option Network}

/-- The commands in their order; `none` once one of them fails. -/
def execAll (exec : Network → Command → Option Network) (net : Network) (commands : List Command) : Option Network :=
  commands.foldlM exec net

/-- A property that each of the commands keeps. -/
theorem execAll_invariant {motive : Network → Prop} {commands : List Command} (holds : motive net)
    (keeps : ∀ command ∈ commands, ∀ before after, motive before → exec before command = some after → motive after)
    (ran : execAll exec net commands = some next) : motive next := by
  induction commands generalizing net with
  | nil =>
    cases ran
    exact holds
  | cons command commands inductionHypothesis =>
    obtain ⟨middle, first, ran⟩ := Option.bind_eq_some_iff.1 ran
    exact inductionHypothesis (keeps command List.mem_cons_self net middle holds first)
      (fun other member => keeps other (List.mem_cons_of_mem command member)) ran

theorem execAll_append (net : Network) (first rest : List Command) :
    execAll exec net (first ++ rest) = (execAll exec net first).bind fun middle => execAll exec middle rest := by
  unfold execAll
  exact List.foldlM_append

theorem execAll_rules (laws : Laws exec) {commands : List Command} (ran : execAll exec net commands = some next) :
    next.root.rules = commands.foldl (fun rules command => command.rewrites rules) net.root.rules := by
  induction commands generalizing net with
  | nil =>
    cases ran
    rfl
  | cons command commands inductionHypothesis =>
    obtain ⟨middle, first, ran⟩ := Option.bind_eq_some_iff.1 ran
    rw [inductionHypothesis ran, laws.rules first]
    rfl

theorem foldl_quiet {commands : List Command} (quiet : ∀ command ∈ commands, ∀ rules, command.rewrites rules = rules)
    (rules : List Rule) : commands.foldl (fun rules command => command.rewrites rules) rules = rules := by
  induction commands with
  | nil => rfl
  | cons command commands inductionHypothesis =>
    rw [List.foldl_cons, quiet command List.mem_cons_self,
      inductionHypothesis fun other member => quiet other (List.mem_cons_of_mem command member)]

theorem foldl_appends (added rules : List Rule) :
    (added.map fun rule => Command.inRoot (.append rule)).foldl (fun rules command => command.rewrites rules) rules =
      rules ++ added := by
  induction added generalizing rules with
  | nil => simp
  | cons rule added inductionHypothesis =>
    rw [List.map_cons, List.foldl_cons, inductionHypothesis]
    simp [Command.rewrites]

end Agentfork.HostNetwork

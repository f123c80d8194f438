import Agentfork.Library.Digits
import Agentfork.Library.HostNetwork
import Agentfork.Firecracker.HostNames
import Agentfork.Firecracker.NetnsIndex

/-! # The wiring of a branch

`NetnsManager` gives every branch of a networked sandbox a namespace with a tap, a pair
of devices that joins it to the host, and rules that translate its addresses. What `ip`
and `iptables` do is a parameter: its `Laws` give what a part of `setup` has built, and
that `teardown` takes all of it down. -/

namespace Agentfork.Firecracker

open Transition HostNetwork

/-- `NetworkConfig`, with the fields that the commands use -/
structure NetworkConfig where
  uplink : String
  hostSubnet : Cidr

def tapDev : String := "tap0"

/-- `GUEST_GW` and `GUEST_MASK`: 172.16.0.1/30 -/
def guestGateway : Cidr := ⟨((172 * 256 + 16) * 256 + 0) * 256 + 1, 30⟩

namespace NetworkConfig

/-- The number of /30 networks. -/
def capacity (config : NetworkConfig) : Nat := subnetCapacity config.hostSubnet.length

/-- `_veth_net` -/
def vethNet (config : NetworkConfig) (index : Nat) : Cidr := ⟨config.hostSubnet.address + 4 * index, 30⟩

end NetworkConfig

def hostVeth (index : Nat) : String := "afh" ++ toString index

def netnsVeth (index : Nat) : String := "afg" ++ toString index

/-- `_veth_pair` -/
def vethPair (config : NetworkConfig) (index : Nat) : String × String × Cidr × Cidr :=
  (hostVeth index, netnsVeth index, ⟨(config.vethNet index).address + 1, 30⟩, ⟨(config.vethNet index).address + 2, 30⟩)

/-- The namespace of a branch. -/
def netnsOf (branchId : BranchId) : String := String.ofList (netnsName branchId)

/-- The rules of a branch on the host, in the order in which `setup` appends them. -/
def branchRules (config : NetworkConfig) (index : Nat) : List Rule :=
  [.masquerade (some (config.vethNet index)) config.uplink,
   .accept (hostVeth index) config.uplink false,
   .accept config.uplink (hostVeth index) true]

/-- `setup_cmds` -/
def setupCmds (config : NetworkConfig) (branchId : BranchId) (index : Nat) : List Command :=
  let ns := netnsOf branchId
  let (hVeth, gVeth, hIp, gIp) := vethPair config index
  [.netnsAdd ns,
   .netnsExec ns (.tapAdd tapDev),
   .netnsExec ns (.addrAdd guestGateway tapDev),
   .netnsExec ns (.linkUp tapDev),
   .vethAdd hVeth gVeth,
   .linkMove gVeth ns,
   .inRoot (.addrAdd hIp hVeth),
   .inRoot (.linkUp hVeth),
   .netnsExec ns (.addrAdd gIp gVeth),
   .netnsExec ns (.linkUp gVeth),
   .netnsExec ns (.linkUp "lo"),
   .netnsExec ns (.gatewayAdd hIp.address),
   .netnsExec ns (.append (.masquerade none gVeth))] ++
  (branchRules config index).map fun rule => .inRoot (.append rule)

/-- `teardown_cmds` -/
def teardownCmds (config : NetworkConfig) (branchId : BranchId) (index : Nat) : List Command :=
  ((branchRules config index).reverse.map fun rule => .inRoot (.remove rule)) ++
  [.linkDel (hostVeth index),
   .netnsDel (netnsOf branchId)]

/-! ## The argument lists -/

def dotted (address : Nat) : String :=
  s!"{address / 256 ^ 3 % 256}.{address / 256 ^ 2 % 256}.{address / 256 % 256}.{address % 256}"

def cidrText (cidr : Cidr) : String := dotted cidr.address ++ "/" ++ toString cidr.length

/-- The table, the chain and the match of a rule, after `-A` or `-D`. -/
def ruleArgv (operation : String) : Rule → List String
  | .masquerade source output =>
    ["iptables", "-t", "nat", operation, "POSTROUTING"] ++ (source.map fun cidr => ["-s", cidrText cidr]).getD [] ++
      ["-o", output, "-j", "MASQUERADE"]
  | .accept input output established =>
    ["iptables", operation, "FORWARD", "-i", input, "-o", output] ++
      (if established then ["-m", "state", "--state", "RELATED,ESTABLISHED"] else []) ++ ["-j", "ACCEPT"]

def changeArgv : Change → List String
  | .tapAdd device => ["ip", "tuntap", "add", device, "mode", "tap"]
  | .addrAdd address device => ["ip", "addr", "add", cidrText address, "dev", device]
  | .linkUp device => ["ip", "link", "set", device, "up"]
  | .gatewayAdd via => ["ip", "route", "add", "default", "via", dotted via]
  | .append rule => ruleArgv "-A" rule
  | .remove rule => ruleArgv "-D" rule

def argv : Command → List String
  | .netnsAdd ns => ["ip", "netns", "add", ns]
  | .netnsDel ns => ["ip", "netns", "del", ns]
  | .netnsExec ns change => ["ip", "netns", "exec", ns] ++ changeArgv change
  | .inRoot change => changeArgv change
  | .vethAdd device peer => ["ip", "link", "add", device, "type", "veth", "peer", "name", peer]
  | .linkMove device ns => ["ip", "link", "set", device, "netns", ns]
  | .linkDel device => ["ip", "link", "del", device]

example : (teardownCmds ⟨"eth0", ⟨10 * 256 ^ 3, 29⟩⟩ "root" 1).map argv =
    [["iptables", "-D", "FORWARD", "-i", "eth0", "-o", "afh1", "-m", "state", "--state", "RELATED,ESTABLISHED", "-j", "ACCEPT"],
     ["iptables", "-D", "FORWARD", "-i", "afh1", "-o", "eth0", "-j", "ACCEPT"],
     ["iptables", "-t", "nat", "-D", "POSTROUTING", "-s", "10.0.0.4/30", "-o", "eth0", "-j", "MASQUERADE"],
     ["ip", "link", "del", "afh1"],
     ["ip", "netns", "del", "af-root"]] := by decide

/-! ## The part of a branch -/

variable {config : NetworkConfig} {branchId : BranchId} {index : Nat} {exec : Network → Command → Option Network}
  {net next : Network} {command : Command}

/-- All that the commands of a branch touch. -/
def wireScope (config : NetworkConfig) (branchId : BranchId) (index : Nat) : Scope where
  namespaces ns := ns = netnsOf branchId
  devices name := name = hostVeth index || name = netnsVeth index
  rules rule := rule ∈ branchRules config index
  gateway := false

/-- A command of the shape that `setup` or `teardown` runs. -/
inductive Wires (config : NetworkConfig) (branchId : BranchId) (index : Nat) : Command → Prop where
  | netnsAdd : Wires config branchId index (.netnsAdd (netnsOf branchId))
  | netnsDel : Wires config branchId index (.netnsDel (netnsOf branchId))
  | inside (change : Change) : Wires config branchId index (.netnsExec (netnsOf branchId) change)
  | inRoot (change : Change) (within : change.Within (wireScope config branchId index))
      (noTap : ∀ device, change ≠ .tapAdd device) : Wires config branchId index (.inRoot change)
  | vethAdd : Wires config branchId index (.vethAdd (hostVeth index) (netnsVeth index))
  | linkMove : Wires config branchId index (.linkMove (netnsVeth index) (netnsOf branchId))
  | linkDel : Wires config branchId index (.linkDel (hostVeth index))

theorem branchRules_within {rule : Rule} (isRule : rule ∈ branchRules config index) :
    (wireScope config branchId index).rules rule = true := decide_eq_true isRule

theorem wires_of_setup (isCommand : command ∈ setupCmds config branchId index) : Wires config branchId index command := by
  have hostSide : (wireScope config branchId index).devices (hostVeth index) = true := by simp [wireScope]
  rcases List.mem_append.1 isCommand with first | last
  · simp only [List.mem_cons, List.not_mem_nil, or_false] at first
    rcases first with rfl | rfl | rfl | rfl | rfl | rfl | rfl | rfl | rfl | rfl | rfl | rfl | rfl
    · exact .netnsAdd
    · exact .inside _
    · exact .inside _
    · exact .inside _
    · exact .vethAdd
    · exact .linkMove
    · exact .inRoot _ hostSide fun _ equal => by cases equal
    · exact .inRoot _ hostSide fun _ equal => by cases equal
    · exact .inside _
    · exact .inside _
    · exact .inside _
    · exact .inside _
    · exact .inside _
  · obtain ⟨rule, isRule, rfl⟩ := List.mem_map.1 last
    exact .inRoot _ (branchRules_within isRule) fun _ equal => by cases equal

theorem wires_of_teardown (isCommand : command ∈ teardownCmds config branchId index) :
    Wires config branchId index command := by
  rcases List.mem_append.1 isCommand with first | last
  · obtain ⟨rule, isRule, rfl⟩ := List.mem_map.1 first
    exact .inRoot _ (branchRules_within (List.mem_reverse.1 isRule)) fun _ equal => by cases equal
  · simp only [List.mem_cons, List.not_mem_nil, or_false] at last
    rcases last with rfl | rfl
    · exact .linkDel
    · exact .netnsDel

theorem Wires.within (wires : Wires config branchId index command) : command.Within (wireScope config branchId index) := by
  have hostSide : (wireScope config branchId index).devices (hostVeth index) = true := by simp [wireScope]
  have netnsSide : (wireScope config branchId index).devices (netnsVeth index) = true := by simp [wireScope]
  have inNs : (wireScope config branchId index).namespaces (netnsOf branchId) = true := by simp [wireScope]
  cases wires with
  | netnsAdd => exact inNs
  | netnsDel => exact inNs
  | inside => exact inNs
  | inRoot _ within => exact within
  | vethAdd => exact ⟨hostSide, netnsSide⟩
  | linkMove => exact ⟨netnsSide, inNs⟩
  | linkDel => exact hostSide

theorem veths_differ (index other : Nat) : hostVeth index ≠ netnsVeth other := by
  intro same
  have chars := congrArg String.toList same
  simp [hostVeth, netnsVeth] at chars

/-- Where the pair of a branch can be: the host end in the root, and the other end there or in the namespace. -/
structure Paired (branchId : BranchId) (index : Nat) (net : Network) : Prop where
  ends : ∀ place name other peer, net.otherEnd place name = some (other, peer) →
    place = none ∧ name = hostVeth index ∧ peer = netnsVeth index ∧ (other = none ∨ other = some (netnsOf branchId)) ∨
    name = netnsVeth index ∧ (place = none ∨ place = some (netnsOf branchId)) ∧ other = none ∧ peer = hostVeth index
  /-- nothing else is in the root -/
  pairs : ∀ name, net.kindAt none name ≠ none → net.otherEnd none name ≠ none
  joined : net.otherEnd none (netnsVeth index) ≠ none → net.otherEnd none (hostVeth index) = some (none, netnsVeth index)
  virtual : ∀ ns name, net.kindAt (some ns) name ≠ some .physical

theorem paired_bare : Paired branchId index .bare where
  ends place name other peer found := by cases place <;> cases found
  pairs name found := absurd rfl found
  joined found := absurd rfl found
  virtual ns name found := by cases found

namespace Paired

/-- The other end is still in the root as long as the end of the branch is. -/
theorem of_netnsVeth (paired : Paired branchId index net) (found : net.otherEnd none (netnsVeth index) ≠ none) :
    net.otherEnd none (netnsVeth index) = some (none, hostVeth index) := by
  obtain ⟨⟨other, peer⟩, isPair⟩ := Option.ne_none_iff_exists'.1 found
  rcases paired.ends _ _ _ _ isPair with ⟨_, same, _⟩ | ⟨_, _, rfl, rfl⟩
  · exact absurd same.symm (veths_differ index index)
  · exact isPair

/-- The ends of the pair are all that a command can have changed. -/
theorem of_ran (paired : Paired branchId index net) (laws : Laws exec) (ran : exec net command = some next)
    (ends : ∀ place name other peer, next.otherEnd place name = some (other, peer) →
      place = none ∧ name = hostVeth index ∧ peer = netnsVeth index ∧ (other = none ∨ other = some (netnsOf branchId)) ∨
      name = netnsVeth index ∧ (place = none ∨ place = some (netnsOf branchId)) ∧ other = none ∧ peer = hostVeth index)
    (made : ∀ name, command.Adds name → next.otherEnd none name ≠ none)
    (joined : next.otherEnd none (netnsVeth index) ≠ none →
      next.otherEnd none (hostVeth index) = some (none, netnsVeth index)) : Paired branchId index next where
  ends := ends
  joined := joined
  pairs name found noEnd := by
    rcases laws.added ran (fun ns other _ => paired.virtual ns other) found with was | adds
    · exact found (laws.lasting ran (paired.pairs name was) noEnd)
    · exact made name adds noEnd
  virtual ns name found := by
    rcases laws.physical ran found with was | inRoot
    · exact paired.virtual ns name was
    · have isPair := paired.pairs name (by rw [inRoot]; exact Option.some_ne_none _)
      rw [Network.otherEnd, inRoot] at isPair
      exact isPair rfl

/-- Most commands leave the pair as it is. -/
theorem of_keepsPairs (paired : Paired branchId index net) (laws : Laws exec) (ran : exec net command = some next)
    (keeps : command.keepsPairs = true) (noTap : ∀ name, ¬ command.Adds name) : Paired branchId index next := by
  have same : ∀ place name, next.otherEnd place name = net.otherEnd place name := fun _ _ => laws.keepsPairs ran keeps
  refine paired.of_ran laws ran (fun place name other peer found => ?_) (fun name adds => absurd adds (noTap name)) fun found => ?_
  · rw [same] at found
    exact paired.ends place name other peer found
  · rw [same] at found ⊢
    exact paired.joined found

theorem vethAdd (paired : Paired branchId index net) (laws : Laws exec)
    (ran : exec net (.vethAdd (hostVeth index) (netnsVeth index)) = some next) : Paired branchId index next := by
  have isEnd : ∀ place name, next.otherEnd place name =
      if place = none ∧ name = netnsVeth index then some (none, hostVeth index)
      else if place = none ∧ name = hostVeth index then some (none, netnsVeth index)
      else net.otherEnd place name := fun _ _ => laws.vethAdd ran
  have host : next.otherEnd none (hostVeth index) = some (none, netnsVeth index) := by
    rw [isEnd, if_neg fun same => veths_differ index index same.2, if_pos ⟨rfl, rfl⟩]
  refine paired.of_ran laws ran (fun place name other peer found => ?_) (fun name adds => ?_) fun _ => host
  · rw [isEnd] at found
    split at found
    · next here =>
      cases found
      exact .inr ⟨here.2, .inl here.1, rfl, rfl⟩
    · split at found
      · next here =>
        cases found
        exact .inl ⟨here.1, here.2, rfl, .inl rfl⟩
      · exact paired.ends place name other peer found
  · rcases adds with rfl | rfl
    · rw [host]
      exact Option.some_ne_none _
    · rw [isEnd, if_pos ⟨rfl, rfl⟩]
      exact Option.some_ne_none _

/-- Where the ends are once the end of the branch has gone into its namespace. -/
theorem moved (paired : Paired branchId index net) (laws : Laws exec)
    (ran : exec net (.linkMove (netnsVeth index) (netnsOf branchId)) = some next) (place : Option String) (name : String) :
    next.otherEnd place name =
      if place = none ∧ name = netnsVeth index then none
      else if place = some (netnsOf branchId) ∧ name = netnsVeth index then some (none, hostVeth index)
      else if place = none ∧ name = hostVeth index then some (some (netnsOf branchId), netnsVeth index)
      else net.otherEnd place name := by
  have found := paired.pairs _ (laws.linkMove_finds ran)
  exact laws.linkMove ran (paired.of_netnsVeth found) (paired.joined found)

theorem linkMove (paired : Paired branchId index net) (laws : Laws exec)
    (ran : exec net (.linkMove (netnsVeth index) (netnsOf branchId)) = some next) : Paired branchId index next := by
  refine paired.of_ran laws ran (fun place name other peer found => ?_) (fun name adds => adds.elim) fun found => ?_
  · rw [paired.moved laws ran] at found
    split at found
    · cases found
    · split at found
      · next here =>
        cases found
        exact .inr ⟨here.2, .inr here.1, rfl, rfl⟩
      · split at found
        · next here =>
          cases found
          exact .inl ⟨here.1, here.2, rfl, .inr rfl⟩
        · exact paired.ends place name other peer found
  · rw [paired.moved laws ran, if_pos ⟨rfl, rfl⟩] at found
    exact absurd rfl found

/-- Without the host end there is nothing in the root. -/
theorem unlinked (paired : Paired branchId index net) (noHost : net.otherEnd none (hostVeth index) = none) (name : String) :
    net.kindAt none name = none := by
  refine Classical.byContradiction fun found => ?_
  obtain ⟨⟨other, peer⟩, isPair⟩ := Option.ne_none_iff_exists'.1 (paired.pairs name found)
  rcases paired.ends _ _ _ _ isPair with ⟨_, isName, _⟩ | ⟨isName, _⟩
  · rw [isName, noHost] at isPair
    cases isPair
  · have isHost := paired.joined (by rw [← isName, isPair]; exact Option.some_ne_none _)
    rw [noHost] at isHost
    cases isHost

/-- Both ends are gone from the root once the host end is taken down. -/
theorem linkDel (paired : Paired branchId index net) (laws : Laws exec)
    (ran : exec net (.linkDel (hostVeth index)) = some next) :
    Paired branchId index next ∧ ∀ name, next.kindAt none name = none := by
  obtain ⟨⟨other, peer⟩, isPair⟩ := Option.ne_none_iff_exists'.1 (paired.pairs _ (laws.linkDel_finds ran))
  have isEnd : ∀ place name, next.otherEnd place name =
      if place = none ∧ name = hostVeth index ∨ place = other ∧ name = peer then none else net.otherEnd place name :=
    fun _ _ => laws.linkDel ran isPair
  have noHost : next.otherEnd none (hostVeth index) = none := by rw [isEnd, if_pos (.inl ⟨rfl, rfl⟩)]
  have noOther : next.otherEnd none (netnsVeth index) = none := by
    rw [isEnd]
    split
    · rfl
    · next apart =>
      refine Classical.byContradiction fun found => apart (.inr ?_)
      rw [paired.joined found] at isPair
      cases isPair
      exact ⟨rfl, rfl⟩
  have after : Paired branchId index next := by
    refine paired.of_ran laws ran (fun place name away last found => ?_) (fun name adds => adds.elim)
      fun found => absurd noOther found
    rw [isEnd] at found
    split at found
    · cases found
    · exact paired.ends place name away last found
  exact ⟨after, after.unlinked noHost⟩

theorem netnsDel (paired : Paired branchId index net) (laws : Laws exec) {ns : String}
    (ran : exec net (.netnsDel ns) = some next) : Paired branchId index next := by
  have isEnd : ∀ place name, next.otherEnd place name =
      if place = some ns then none else (net.otherEnd place name).filter fun ends => ends.1 ≠ some ns :=
    fun _ _ => laws.netnsDel ran
  have was : ∀ {place name ends}, next.otherEnd place name = some ends → net.otherEnd place name = some ends := by
    intro place name ends found
    rw [isEnd] at found
    split at found
    · cases found
    · exact (Option.filter_eq_some_iff.1 found).1
  refine paired.of_ran laws ran (fun place name other peer found => paired.ends place name other peer (was found))
    (fun name adds => adds.elim) fun found => ?_
  obtain ⟨ends, isPair⟩ := Option.ne_none_iff_exists'.1 found
  -- an end that is still in the root has its peer there, so neither reaches the namespace
  have host := paired.joined (by rw [was isPair]; exact Option.some_ne_none _)
  rw [isEnd, if_neg nofun, host]
  simp

theorem after (paired : Paired branchId index net) (laws : Laws exec) (wires : Wires config branchId index command)
    (ran : exec net command = some next) : Paired branchId index next := by
  cases wires with
  | netnsAdd | inside => exact paired.of_keepsPairs laws ran rfl fun _ adds => adds
  | inRoot change within noTap =>
    refine paired.of_keepsPairs laws ran rfl fun name adds => ?_
    cases change with
    | tapAdd device => exact noTap device rfl
    | _ => exact adds
  | vethAdd => exact paired.vethAdd laws ran
  | linkMove => exact paired.linkMove laws ran
  | linkDel => exact (paired.linkDel laws ran).1
  | netnsDel => exact paired.netnsDel laws ran

end Paired

/-! ## What `setup` builds -/

/-- The part after the first commands of `setup`. -/
def Built (exec : Network → Command → Option Network) (config : NetworkConfig) (branchId : BranchId) (index ran : Nat)
    (part : Network) : Prop :=
  execAll exec .bare ((setupCmds config branchId index).take ran) = some part

theorem Built.paired {ran : Nat} {part : Network} (laws : Laws exec) (built : Built exec config branchId index ran part) :
    Paired branchId index part :=
  execAll_invariant paired_bare (fun _ member _ _ before executed =>
    before.after laws (wires_of_setup (List.mem_of_mem_take member)) executed) built

theorem Built.rules {ran : Nat} {part : Network} (laws : Laws exec) (built : Built exec config branchId index ran part) :
    part.root.rules = (branchRules config index).take (ran - 13) := by
  have isRules := execAll_rules laws built
  unfold setupCmds at isRules
  rw [List.take_append, List.foldl_append, ← List.map_take, foldl_appends, foldl_quiet] at isRules
  · exact isRules
  · intro command member rules
    have isFirst := List.mem_of_mem_take member
    simp only [List.mem_cons, List.not_mem_nil, or_false] at isFirst
    rcases isFirst with rfl | rfl | rfl | rfl | rfl | rfl | rfl | rfl | rfl | rfl | rfl | rfl | rfl <;> rfl

theorem Built.step {ran : Nat} {part after : Network} (built : Built exec config branchId index ran part)
    (isCommand : (setupCmds config branchId index)[ran]? = some command) (executed : exec part command = some after) :
    Built exec config branchId index (ran + 1) after := by
  unfold Built at built ⊢
  rw [List.take_add_one, isCommand, Option.toList_some, execAll_append, built, Option.bind_some]
  simp [execAll, executed]

/-- The part of a branch whose `setup` has returned: all that its commands make where
there was nothing, the rules in their order, and the pair from the root to the namespace. -/
structure Wired (exec : Network → Command → Option Network) (config : NetworkConfig) (branchId : BranchId) (index : Nat)
    (part : Network) : Prop where
  made : execAll exec .bare (setupCmds config branchId index) = some part
  rules : part.root.rules = branchRules config index
  hostEnd : part.otherEnd none (hostVeth index) = some (some (netnsOf branchId), netnsVeth index)
  netnsEnd : part.otherEnd (some (netnsOf branchId)) (netnsVeth index) = some (none, hostVeth index)

theorem Built.joined {part : Network} (laws : Laws exec)
    (made : execAll exec .bare (setupCmds config branchId index) = some part) :
    part.otherEnd none (hostVeth index) = some (some (netnsOf branchId), netnsVeth index) ∧
      part.otherEnd (some (netnsOf branchId)) (netnsVeth index) = some (none, hostVeth index) := by
  have parts : setupCmds config branchId index = (setupCmds config branchId index).take 5 ++
      ([.linkMove (netnsVeth index) (netnsOf branchId)] ++ (setupCmds config branchId index).drop 6) := rfl
  rw [parts, execAll_append] at made
  obtain ⟨middle, first, made⟩ := Option.bind_eq_some_iff.1 made
  rw [execAll_append] at made
  obtain ⟨moved, ran, made⟩ := Option.bind_eq_some_iff.1 made
  have ran : exec middle (.linkMove (netnsVeth index) (netnsOf branchId)) = some moved := by simpa [execAll] using ran
  have isEnd := (Built.paired laws first).moved laws ran
  -- the end has gone into the namespace, and no later command touches the pair
  refine execAll_invariant (motive := fun net =>
    net.otherEnd none (hostVeth index) = some (some (netnsOf branchId), netnsVeth index) ∧
      net.otherEnd (some (netnsOf branchId)) (netnsVeth index) = some (none, hostVeth index)) ⟨?_, ?_⟩
    (fun command member before after ends executed => ?_) made
  · simp [isEnd, veths_differ]
  · simp [isEnd]
  · have keeps : command.keepsPairs = true := by
      simp only [setupCmds, branchRules, vethPair, List.map_cons, List.map_nil, List.cons_append, List.nil_append,
        List.drop_succ_cons, List.drop_zero, List.mem_cons, List.not_mem_nil, or_false] at member
      rcases member with rfl | rfl | rfl | rfl | rfl | rfl | rfl | rfl | rfl | rfl <;> rfl
    exact ⟨(laws.keepsPairs executed keeps).trans ends.1, (laws.keepsPairs executed keeps).trans ends.2⟩

theorem built_setup {part : Network} : Built exec config branchId index (setupCmds config branchId index).length part ↔
    execAll exec .bare (setupCmds config branchId index) = some part := by
  unfold Built
  rw [List.take_length]

theorem Built.wired {ran : Nat} {part : Network} (laws : Laws exec) (built : Built exec config branchId index ran part)
    (last : (setupCmds config branchId index)[ran]? = none) : Wired exec config branchId index part := by
  have made := built
  unfold Built at made
  rw [List.take_of_length_le (List.getElem?_eq_none_iff.1 last)] at made
  obtain ⟨hostEnd, netnsEnd⟩ := Built.joined laws made
  refine ⟨made, ?_, hostEnd, netnsEnd⟩
  have isRules := (built_setup.2 made).rules laws
  exact isRules

theorem Wired.built {part : Network} (wired : Wired exec config branchId index part) :
    Built exec config branchId index (setupCmds config branchId index).length part := built_setup.2 wired.made

/-! ## What `teardown` takes down -/

/-- The part after the first commands of `teardown`. -/
structure Unwound (config : NetworkConfig) (branchId : BranchId) (index ran : Nat) (part : Network) : Prop where
  paired : Paired branchId index part
  rules : ∃ left ≤ 3 - ran, part.root.rules = (branchRules config index).take left
  links : 3 < ran → ∀ name, part.kindAt none name = none
  netns : 4 < ran → part.namespaces (netnsOf branchId) = none

/-- `teardown` may begin after any number of the commands of `setup`. -/
theorem Built.unwound {ran : Nat} {part : Network} (laws : Laws exec) (built : Built exec config branchId index ran part) :
    Unwound config branchId index 0 part where
  paired := built.paired laws
  rules := by
    refine ⟨min (ran - 13) 3, Nat.min_le_right _ _, ?_⟩
    rw [built.rules laws, List.take_eq_take_iff]
    simp only [branchRules, List.length_cons, List.length_nil]
    omega
  links late := by omega
  netns late := by omega

theorem remove_rules (laws : Laws exec) (rule : Rule) (part : Network) :
    ((exec part (.inRoot (.remove rule))).getD part).root.rules = part.root.rules.erase rule := by
  cases executed : exec part (.inRoot (.remove rule)) with
  | some after => exact laws.rules executed
  | none =>
    have absent : rule ∉ part.root.rules := fun member => laws.remove member executed
    exact (List.erase_of_not_mem absent).symm

/-- `teardown` removes the rules from the last one that was appended. -/
theorem erase_last {left ran : Nat} (below : ran < 3) (atMost : left ≤ 3 - ran) {rule : Rule}
    (isRule : (branchRules config index).reverse[ran]? = some rule) :
    ∃ fewer ≤ 3 - (ran + 1), ((branchRules config index).take left).erase rule = (branchRules config index).take fewer := by
  refine ⟨min left (2 - ran), by omega, ?_⟩
  obtain rfl | rfl | rfl : ran = 0 ∨ ran = 1 ∨ ran = 2 := by omega
  all_goals
    obtain rfl | rfl | rfl | rfl : left = 0 ∨ left = 1 ∨ left = 2 ∨ left = 3 := by omega
    all_goals
      cases isRule
      simp [branchRules] at atMost ⊢

theorem Unwound.step {ran : Nat} {part : Network} (laws : Laws exec) (unwound : Unwound config branchId index ran part)
    (isCommand : (teardownCmds config branchId index)[ran]? = some command) :
    Unwound config branchId index (ran + 1) ((exec part command).getD part) := by
  have paired : Paired branchId index ((exec part command).getD part) := by
    cases executed : exec part command with
    | none => exact unwound.paired
    | some after => exact unwound.paired.after laws (wires_of_teardown (List.mem_of_getElem? isCommand)) executed
  obtain ⟨left, atMost, isRules⟩ := unwound.rules
  obtain below | late := Nat.lt_or_ge ran 3
  · rw [teardownCmds, List.getElem?_append_left below, List.getElem?_map, Option.map_eq_some_iff] at isCommand
    obtain ⟨rule, isRule, rfl⟩ := isCommand
    obtain ⟨fewer, less, isErased⟩ := erase_last below atMost isRule
    refine ⟨paired, ⟨fewer, less, ?_⟩, fun late => by omega, fun late => by omega⟩
    rw [remove_rules laws, isRules, isErased]
  · have empty : part.root.rules = [] := by
      have none : left = 0 := by omega
      rw [isRules, none, List.take_zero]
    rw [teardownCmds, List.getElem?_append_right late] at isCommand
    obtain ⟨rest, rfl⟩ := Nat.exists_eq_add_of_le late
    have isLast : 3 + rest - ((branchRules config index).reverse.map fun rule => Command.inRoot (.remove rule)).length = rest := by
      simp [branchRules]
    rw [isLast] at isCommand
    match rest with
    | 0 =>
      cases isCommand
      cases executed : exec part (.linkDel (hostVeth index)) with
      | some after =>
        refine ⟨executed ▸ paired, ⟨0, by omega, ?_⟩, fun _ => (unwound.paired.linkDel laws executed).2, fun late => by omega⟩
        exact (laws.rules executed).trans empty
      | none =>
        refine ⟨unwound.paired, ⟨0, by omega, empty⟩, fun _ => unwound.paired.unlinked ?_, fun late => by omega⟩
        exact Classical.byContradiction fun found => laws.linkDel_pair found executed
    | 1 =>
      cases isCommand
      have links := unwound.links (by omega)
      cases executed : exec part (.netnsDel (netnsOf branchId)) with
      | some after =>
        refine ⟨executed ▸ paired, ⟨0, by omega, (laws.rules executed).trans empty⟩, fun _ name => ?_,
          fun _ => laws.netnsDel_gone executed⟩
        refine Classical.byContradiction fun found => ?_
        rcases laws.added executed (fun ns other _ => unwound.paired.virtual ns other) found with was | adds
        · exact was (links name)
        · exact adds
      | none =>
        refine ⟨unwound.paired, ⟨0, by omega, empty⟩, fun _ => links, fun _ => ?_⟩
        exact Classical.byContradiction fun there => laws.netnsDel_there there executed

/-- All of the part is gone in the end. -/
theorem Unwound.bare {ran : Nat} {part : Network} (unwound : Unwound config branchId index ran part)
    (last : (teardownCmds config branchId index)[ran]? = none)
    (confined : part.restrict (wireScope config branchId index) = part) : part = .bare := by
  have length : 5 ≤ ran := by simpa [teardownCmds, branchRules] using last
  obtain ⟨left, atMost, isRules⟩ := unwound.rules
  refine Network.ext (Stack.ext (funext fun name => ?_) ?_ ?_) (funext fun ns => ?_)
  · exact Option.map_eq_none_iff.1 (unwound.links (by omega) name)
  · rw [← confined]
    rfl
  · have none : left = 0 := by omega
    rw [isRules, none]
    rfl
  · rw [← confined]
    simp only [Network.restrict]
    split
    · next here =>
      have isNs : ns = netnsOf branchId := of_decide_eq_true here
      rw [isNs]
      exact unwound.netns (by omega)
    · rfl

end Agentfork.Firecracker

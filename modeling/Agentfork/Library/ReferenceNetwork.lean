import Agentfork.Library.HostNetwork

/-! # A network that obeys the laws

The commands carried out on the description of a host: the smallest network in which
`Laws` hold, for runs on concrete hosts. -/

namespace Agentfork.HostNetwork

/-! ## The commands -/

namespace Stack

/-- A namespace begins with its loopback device. -/
def fresh : Stack := ⟨fun name => if name = "lo" then some ⟨.loopback, [], false⟩ else none, none, []⟩

def setDevice (name : String) (device : Option Device) (stack : Stack) : Stack :=
  { stack with devices := fun other => if other = name then device else stack.devices other }

/-- Two chains are kept in one list: the rules of one chain stand in it in their order. -/
def apply (stack : Stack) : Change → Option Stack
  | .tapAdd name =>
    if (stack.devices name).isSome then none else some (stack.setDevice name (some ⟨.tap, [], false⟩))
  | .addrAdd address name => (stack.devices name).bind fun device =>
      if address ∈ device.addresses then none
      else some (stack.setDevice name (some { device with addresses := device.addresses ++ [address] }))
  | .linkUp name => (stack.devices name).map fun device => stack.setDevice name (some { device with up := true })
  | .gatewayAdd via => if stack.gateway.isSome then none else some { stack with gateway := some via }
  | .append rule => some { stack with rules := stack.rules ++ [rule] }
  | .remove rule => if rule ∈ stack.rules then some { stack with rules := stack.rules.erase rule } else none

/-- The other end of a pair is now at `place`, or nowhere. -/
def repoint (name : String) (place : Option String) (peer : String) (stack : Stack) : Stack :=
  match stack.devices name with
  | some device => stack.setDevice name (some { device with kind := .veth place peer })
  | none => stack

end Stack

/-- The device is the end of a pair whose other end is in the namespace. -/
def Device.reaches (ns : String) (device : Device) : Bool :=
  match device.kind with
  | .veth (some place) _ => place = ns
  | _ => false

def Stack.without (ns : String) (stack : Stack) : Stack :=
  { stack with devices := fun name => (stack.devices name).filter fun device => !device.reaches ns }

namespace Network

def setNs (ns : String) (stack : Option Stack) (net : Network) : Network :=
  { net with namespaces := fun other => if other = ns then stack else net.namespaces other }

/-- The stack of a place is changed. -/
def edit (place : Option String) (change : Stack → Stack) (net : Network) : Network :=
  match place with
  | none => { net with root := change net.root }
  | some ns => { net with namespaces := fun other => if other = ns then (net.namespaces ns).map change else net.namespaces other }

def reference (net : Network) : Command → Option Network
  | .netnsAdd ns => if (net.namespaces ns).isSome then none else some (net.setNs ns (some .fresh))
  | .netnsDel ns =>
    if (net.namespaces ns).isNone then none
    else
      -- a device goes with its namespace, and the other end of a pair with it
      some ⟨net.root.without ns, fun other => if other = ns then none else (net.namespaces other).map (Stack.without ns)⟩
  | .netnsExec ns change => (net.namespaces ns).bind fun stack =>
      (stack.apply change).map fun stack => net.setNs ns (some stack)
  | .inRoot change => (net.root.apply change).map fun root => { net with root := root }
  | .vethAdd name peer =>
    if (net.root.devices name).isSome || (net.root.devices peer).isSome || name = peer then none
    else some { net with root :=
      (net.root.setDevice name (some ⟨.veth none peer, [], false⟩)).setDevice peer (some ⟨.veth none name, [], false⟩) }
  | .linkMove name ns =>
    match net.root.devices name, net.namespaces ns with
    | some device, some stack =>
      if (stack.devices name).isSome then none
      else
        let moved := { net with root := net.root.setDevice name none }.setNs ns
          (some (stack.setDevice name (some { device with addresses := [], up := false })))
        match device.kind with
        | .veth place peer => some (moved.edit place (Stack.repoint peer (some ns) name))
        | _ => some moved
    | _, _ => none
  | .linkDel name => (net.root.devices name).map fun device =>
      let net := { net with root := net.root.setDevice name none }
      match device.kind with
      | .veth place peer => net.edit place (Stack.setDevice peer none)
      | _ => net

end Network

variable {scope : Scope} {net next : Network} {stack after : Stack} {change : Change} {command : Command}

/-! ## What a command needs and makes -/

theorem reference_netnsAdd {ns : String} (ran : net.reference (.netnsAdd ns) = some next) :
    net.namespaces ns = none ∧ next = net.setNs ns (some .fresh) := by
  simp only [Network.reference] at ran
  split at ran
  · cases ran
  · next absent => exact ⟨by simpa using absent, (Option.some.inj ran).symm⟩

theorem reference_netnsDel {ns : String} (ran : net.reference (.netnsDel ns) = some next) :
    next = ⟨net.root.without ns, fun other => if other = ns then none else (net.namespaces other).map (Stack.without ns)⟩ := by
  simp only [Network.reference] at ran
  split at ran
  · cases ran
  · exact (Option.some.inj ran).symm

theorem reference_vethAdd {name peer : String} (ran : net.reference (.vethAdd name peer) = some next) :
    next = { net with root :=
      (net.root.setDevice name (some ⟨.veth none peer, [], false⟩)).setDevice peer (some ⟨.veth none name, [], false⟩) } := by
  simp only [Network.reference] at ran
  split at ran
  · cases ran
  · exact (Option.some.inj ran).symm

/-! ## Parts of the network -/

namespace Stack

theorem restrict_setDevice {name : String} (inside : scope.devices name = true) (device : Option Device) (stack : Stack) :
    (stack.setDevice name device).restrict scope = (stack.restrict scope).setDevice name device := by
  ext1
  · funext other
    simp only [restrict, setDevice]
    by_cases here : other = name
    · subst here
      simp only [inside, if_true]
    · simp only [here, if_false]
  · rfl
  · rfl

/-- A device of the part is none of the rest. -/
theorem compl_setDevice {name : String} (inside : scope.devices name = true) (device : Option Device) (stack : Stack) :
    (stack.setDevice name device).restrict scope.compl = stack.restrict scope.compl := by
  ext1
  · funext other
    simp only [restrict, setDevice, Scope.compl]
    by_cases here : other = name
    · subst here
      simp only [inside, Bool.not_true, Bool.false_eq_true, if_false]
    · simp [here]
  · rfl
  · rfl

theorem restrict_repoint {name : String} (inside : scope.devices name = true) (place : Option String) (peer : String)
    (stack : Stack) : (stack.repoint name place peer).restrict scope = (stack.restrict scope).repoint name place peer := by
  unfold repoint
  rw [restrict_devices inside]
  cases stack.devices name with
  | none => rfl
  | some device => exact restrict_setDevice inside _ stack

theorem compl_repoint {name : String} (inside : scope.devices name = true) (place : Option String) (peer : String)
    (stack : Stack) : (stack.repoint name place peer).restrict scope.compl = stack.restrict scope.compl := by
  unfold repoint
  cases stack.devices name with
  | none => rfl
  | some device => exact compl_setDevice inside _ stack

end Stack

theorem filter_erase (holds : Rule → Bool) (rule : Rule) (rules : List Rule) : (rules.erase rule).filter holds =
    if holds rule then (rules.filter holds).erase rule else rules.filter holds := by
  induction rules with
  | nil => simp
  | cons first rules inductionHypothesis =>
    by_cases here : first = rule
    · subst here
      cases isHeld : holds first <;> simp [isHeld]
    · have other : (first == rule) = false := by simpa using here
      rw [List.erase_cons, other]
      simp only [Bool.false_eq_true, if_false, List.filter_cons, inductionHypothesis]
      cases isHeld : holds first <;> cases holdsRule : holds rule <;> simp [other]

/-- What a change does to its part depends on the part alone. -/
theorem apply_restrict (within : change.Within scope) (stack : Stack) :
    (stack.restrict scope).apply change = (stack.apply change).map (Stack.restrict scope) := by
  cases change with
  | tapAdd name =>
    have same := Stack.restrict_devices within stack
    simp only [Stack.apply, same]
    split
    · rfl
    · exact congrArg some (Stack.restrict_setDevice within _ stack).symm
  | addrAdd address name =>
    have same := Stack.restrict_devices within stack
    simp only [Stack.apply, same]
    cases stack.devices name with
    | none => rfl
    | some device =>
      simp only [Option.bind_some]
      split
      · rfl
      · exact congrArg some (Stack.restrict_setDevice within _ stack).symm
  | linkUp name =>
    have same := Stack.restrict_devices within stack
    simp only [Stack.apply, same]
    cases stack.devices name with
    | none => rfl
    | some device => exact congrArg some (Stack.restrict_setDevice within _ stack).symm
  | gatewayAdd via =>
    have isGateway : scope.gateway = true := within
    have same : (stack.restrict scope).gateway = stack.gateway := if_pos isGateway
    simp only [Stack.apply, same]
    split
    · rfl
    · simp only [Option.map_some, Stack.restrict, isGateway, if_true]
  | append rule =>
    have held : scope.rules rule = true := within
    simp only [Stack.apply, Option.map_some, Stack.restrict, List.filter_append, List.filter_cons, held, if_true,
      List.filter_nil]
  | remove rule =>
    have held : scope.rules rule = true := within
    have same : rule ∈ (stack.restrict scope).rules ↔ rule ∈ stack.rules := by simp [Stack.restrict, held]
    simp only [Stack.apply, same]
    split
    · simp only [Option.map_some, Stack.restrict, filter_erase, held, if_true]
    · rfl

/-- And it leaves the rest alone. -/
theorem apply_outside (within : change.Within scope) (applied : stack.apply change = some after) :
    after.restrict scope.compl = stack.restrict scope.compl := by
  cases change with
  | tapAdd name =>
    simp only [Stack.apply] at applied
    split at applied
    · cases applied
    · cases applied
      exact Stack.compl_setDevice within _ stack
  | addrAdd address name =>
    obtain ⟨device, _, applied⟩ := Option.bind_eq_some_iff.1 applied
    split at applied
    · cases applied
    · cases applied
      exact Stack.compl_setDevice within _ stack
  | linkUp name =>
    obtain ⟨device, _, rfl⟩ := Option.map_eq_some_iff.1 applied
    exact Stack.compl_setDevice within _ stack
  | gatewayAdd via =>
    simp only [Stack.apply] at applied
    split at applied
    · cases applied
    · cases applied
      have isGateway : scope.gateway = true := within
      simp [Stack.restrict, Scope.compl, isGateway]
  | append rule =>
    cases applied
    have held : scope.rules rule = true := within
    simp [Stack.restrict, Scope.compl, held]
  | remove rule =>
    simp only [Stack.apply] at applied
    split at applied
    · cases applied
      have held : scope.rules rule = true := within
      simp [Stack.restrict, Scope.compl, filter_erase, held]
    · cases applied

theorem Stack.restrict_without (ns : String) (stack : Stack) :
    (stack.without ns).restrict scope = (stack.restrict scope).without ns := by
  ext1
  · funext name
    simp only [restrict, without]
    cases scope.devices name <;> rfl
  · rfl
  · rfl

theorem Stack.without_devices {ns name : String}
    (apart : ∀ device, stack.devices name = some device → device.reaches ns = false) :
    (stack.without ns).devices name = stack.devices name := by
  simp only [without]
  cases isDevice : stack.devices name with
  | none => rfl
  | some device => simp [apart device isDevice]

namespace Network

theorem restrict_setNs {ns : String} (inside : scope.namespaces ns = true) (stack : Option Stack) (net : Network) :
    (net.setNs ns stack).restrict scope = (net.restrict scope).setNs ns stack := by
  ext1
  · rfl
  · funext other
    simp only [restrict, setNs]
    by_cases here : other = ns
    · subst here
      simp only [inside, if_true]
    · simp only [here, if_false]

theorem compl_setNs {ns : String} (inside : scope.namespaces ns = true) (stack : Option Stack) (net : Network) :
    (net.setNs ns stack).restrict scope.compl = net.restrict scope.compl := by
  ext1
  · rfl
  · funext other
    simp only [restrict, setNs, Scope.compl]
    by_cases here : other = ns
    · subst here
      simp only [inside, Bool.not_true, Bool.false_eq_true, if_false]
    · simp [here]

theorem restrict_edit {place : Option String} {name : String} {change : Stack → Stack} (has : scope.Has place name)
    (commutes : ∀ stack, place = none → (change stack).restrict scope = change (stack.restrict scope)) (net : Network) :
    (net.edit place change).restrict scope = (net.restrict scope).edit place change := by
  cases place with
  | none =>
    ext1
    · exact commutes net.root rfl
    · rfl
  | some ns =>
    have same := restrict_namespaces has net
    have inside : scope.namespaces ns = true := has
    ext1
    · rfl
    · funext other
      simp only [edit, same]
      simp only [restrict]
      by_cases here : other = ns
      · subst here
        simp only [inside, if_true]
      · simp only [here, if_false]

theorem compl_edit {place : Option String} {name : String} {change : Stack → Stack} (has : scope.Has place name)
    (keeps : ∀ stack, place = none → (change stack).restrict scope.compl = stack.restrict scope.compl) (net : Network) :
    (net.edit place change).restrict scope.compl = net.restrict scope.compl := by
  cases place with
  | none =>
    ext1
    · exact keeps net.root rfl
    · rfl
  | some ns =>
    have inside : scope.namespaces ns = true := has
    ext1
    · rfl
    · funext other
      simp only [edit, restrict, Scope.compl]
      by_cases here : other = ns
      · subst here
        simp only [inside, Bool.not_true, Bool.false_eq_true, if_false]
      · simp [here]

end Network

/-- The other end of a pair that stands in the part of the root. -/
theorem Closed.hasOther (closed : Closed scope net) {name peer : String} {device : Device} {other : Option String}
    (isDevice : net.root.devices name = some device) (inside : scope.devices name = true)
    (isPair : device.kind = .veth other peer) : scope.Has other peer :=
  (closed.pairs none name other peer (otherEnd_of_kindAt (by rw [kindAt_root, isDevice, Option.map_some, isPair]))).1 inside

/-- What stands outside is no end of a pair into a namespace of the part. -/
theorem Closed.apart (closed : Closed scope net) {place : Option String} {ns name : String} {device : Device}
    (isStack : net.stackAt place = some stack) (outside : ¬ scope.Has place name) (inside : scope.namespaces ns = true)
    (isDevice : stack.devices name = some device) : device.reaches ns = false := by
  cases isKind : device.kind with
  | veth other peer =>
    simp only [Device.reaches, isKind]
    cases other with
    | none => rfl
    | some reached =>
      have iff := closed.pairs place name (some reached) peer (otherEnd_of_kindAt (by
        rw [Network.kindAt, isStack, Option.bind_some, isDevice, Option.map_some, isKind]))
      have differ : reached ≠ ns := by
        rintro rfl
        exact outside (iff.2 inside)
      simpa using differ
  | _ => simp only [Device.reaches, isKind]

/-- What a command does to its part depends on the part alone. -/
theorem reference_inside (within : command.Within scope) (closed : Closed scope net) :
    (net.restrict scope).reference command = (net.reference command).map (Network.restrict scope) := by
  cases command with
  | netnsAdd ns =>
    have same := Network.restrict_namespaces within net
    simp only [Network.reference, same]
    split
    · rfl
    · exact congrArg some (Network.restrict_setNs within _ net).symm
  | netnsDel ns =>
    have same := Network.restrict_namespaces within net
    simp only [Network.reference, same]
    split
    · rfl
    · refine congrArg some (Network.ext (Stack.restrict_without ns net.root).symm ?_)
      funext other
      simp only [Network.restrict]
      cases scope.namespaces other <;> simp
  | netnsExec ns change =>
    have same := Network.restrict_namespaces within net
    simp only [Network.reference, same]
    cases net.namespaces ns with
    | none => rfl
    | some stack =>
      simp only [Option.bind_some, Option.map_map]
      refine congrArg (fun after => Option.map after (stack.apply change)) (funext fun after => ?_)
      exact (Network.restrict_setNs within _ net).symm
  | inRoot change =>
    have same : (net.restrict scope).root.apply change = (net.root.apply change).map (Stack.restrict scope) :=
      apply_restrict within net.root
    simp only [Network.reference, same, Option.map_map]
    rfl
  | vethAdd name peer =>
    have sameName : (net.restrict scope).root.devices name = net.root.devices name :=
      Stack.restrict_devices within.1 net.root
    have samePeer : (net.restrict scope).root.devices peer = net.root.devices peer :=
      Stack.restrict_devices within.2 net.root
    simp only [Network.reference, sameName, samePeer]
    split
    · rfl
    · refine congrArg some (Network.ext ?_ rfl)
      exact ((Stack.restrict_setDevice within.2 _ _).trans
        (congrArg _ (Stack.restrict_setDevice within.1 _ net.root))).symm
  | linkMove name ns =>
    have sameName : (net.restrict scope).root.devices name = net.root.devices name :=
      Stack.restrict_devices within.1 net.root
    have sameNs := Network.restrict_namespaces within.2 net
    simp only [Network.reference, sameName, sameNs]
    cases isDevice : net.root.devices name with
    | none => rfl
    | some device =>
      cases isStack : net.namespaces ns with
      | none => rfl
      | some stack =>
        simp only
        split
        · rfl
        · have moved : ∀ arrived, ({ net with root := net.root.setDevice name none }.setNs ns (some arrived)).restrict scope =
              { net.restrict scope with root := (net.root.restrict scope).setDevice name none }.setNs ns (some arrived) := by
            intro arrived
            refine (Network.restrict_setNs within.2 _ _).trans (congrArg (Network.setNs ns (some arrived)) (Network.ext ?_ rfl))
            exact Stack.restrict_setDevice within.1 none net.root
          cases isKind : device.kind with
          | veth place peer =>
            -- the other end is in the part as well, and so is the edit that repoints it
            have has := closed.hasOther isDevice within.1 isKind
            simp only [Option.map_some]
            refine congrArg some ?_
            rw [Network.restrict_edit has (by
              rintro stack rfl
              exact Stack.restrict_repoint has (some ns) name stack), moved]
            rfl
          | _ =>
            simp only [Option.map_some]
            exact congrArg some (moved _).symm
  | linkDel name =>
    have sameName : (net.restrict scope).root.devices name = net.root.devices name :=
      Stack.restrict_devices within net.root
    simp only [Network.reference, sameName]
    cases isDevice : net.root.devices name with
    | none => rfl
    | some device =>
      have dropped : ({ net with root := net.root.setDevice name none } : Network).restrict scope =
          { net.restrict scope with root := (net.root.restrict scope).setDevice name none } :=
        Network.ext (Stack.restrict_setDevice within none net.root) rfl
      simp only [Option.map_some]
      refine congrArg some ?_
      cases isKind : device.kind with
      | veth place peer =>
        have has := closed.hasOther isDevice within isKind
        simp only
        rw [Network.restrict_edit has (by
          rintro stack rfl
          exact Stack.restrict_setDevice has none stack), dropped]
        rfl
      | _ => exact dropped.symm

/-- And it leaves the rest as it was. -/
theorem reference_outside (within : command.Within scope) (closed : Closed scope net) (ran : net.reference command = some next) :
    next.restrict scope.compl = net.restrict scope.compl := by
  cases command with
  | netnsAdd ns =>
    obtain ⟨_, rfl⟩ := reference_netnsAdd ran
    exact Network.compl_setNs within _ net
  | netnsDel ns =>
    obtain rfl := reference_netnsDel ran
    have inside : scope.namespaces ns = true := within
    ext1
    · -- a device of the root that reaches into the namespace belongs to the part with it
      refine Stack.ext (funext fun name => ?_) rfl rfl
      simp only [Network.restrict, Stack.restrict, Scope.compl]
      by_cases isOther : scope.devices name = true
      · simp [isOther]
      · rw [Stack.without_devices fun device => Closed.apart closed (rfl : net.stackAt none = some net.root) isOther inside]
    · funext other
      simp only [Network.restrict, Scope.compl]
      by_cases isOther : scope.namespaces other = true
      · simp [isOther]
      · have differ : other ≠ ns := by
          rintro rfl
          exact isOther inside
        rw [if_neg differ]
        cases isStack : net.namespaces other with
        | none => rfl
        | some stack =>
          have same : stack.without ns = stack := Stack.ext (funext fun name =>
            Stack.without_devices fun device => Closed.apart closed (show net.stackAt (some other) = some stack from isStack)
              (by exact isOther) inside) rfl rfl
          simp [same]
  | netnsExec ns change =>
    obtain ⟨stack, _, ran⟩ := Option.bind_eq_some_iff.1 ran
    obtain ⟨after, _, rfl⟩ := Option.map_eq_some_iff.1 ran
    exact Network.compl_setNs within _ net
  | inRoot change =>
    obtain ⟨root, isRoot, rfl⟩ := Option.map_eq_some_iff.1 ran
    exact Network.ext (apply_outside within isRoot) rfl
  | vethAdd name peer =>
    obtain rfl := reference_vethAdd ran
    exact Network.ext ((Stack.compl_setDevice within.2 _ _).trans (Stack.compl_setDevice within.1 _ _)) rfl
  | linkMove name ns =>
    simp only [Network.reference] at ran
    cases isDevice : net.root.devices name with
    | none => simp only [isDevice] at ran; cases ran
    | some device =>
      cases isStack : net.namespaces ns with
      | none => simp only [isDevice, isStack] at ran; cases ran
      | some stack =>
        simp only [isDevice, isStack] at ran
        split at ran
        · cases ran
        · have moved : ∀ arrived, ({ net with root := net.root.setDevice name none }.setNs ns
              (some arrived)).restrict scope.compl = net.restrict scope.compl := fun arrived =>
            (Network.compl_setNs within.2 _ _).trans (Network.ext (Stack.compl_setDevice within.1 none net.root) rfl)
          cases isKind : device.kind with
          | veth place peer =>
            have has := closed.hasOther isDevice within.1 isKind
            simp only [isKind] at ran
            cases ran
            exact (Network.compl_edit has (by
              rintro stack rfl
              exact Stack.compl_repoint has (some ns) name stack) _).trans (moved _)
          | _ =>
            simp only [isKind] at ran
            cases ran
            exact moved _
  | linkDel name =>
    obtain ⟨device, isDevice, isNext⟩ := Option.map_eq_some_iff.1 ran
    have dropped : ({ net with root := net.root.setDevice name none } : Network).restrict scope.compl =
        net.restrict scope.compl := Network.ext (Stack.compl_setDevice within none net.root) rfl
    cases isKind : device.kind with
    | veth place peer =>
      have has := closed.hasOther isDevice within isKind
      simp only [isKind] at isNext
      cases isNext
      exact (Network.compl_edit has (by
        rintro stack rfl
        exact Stack.compl_setDevice has none stack) _).trans dropped
    | _ =>
      simp only [isKind] at isNext
      cases isNext
      exact dropped

/-! ## Kinds of devices and rules -/

theorem setDevice_kind (name : String) (device : Option Device) (stack : Stack) (other : String) :
    ((stack.setDevice name device).devices other).map Device.kind =
      if other = name then device.map Device.kind else (stack.devices other).map Device.kind := by
  simp only [Stack.setDevice]
  split <;> rfl

theorem repoint_kind (name : String) (place : Option String) (peer : String) (stack : Stack) (other : String) :
    ((stack.repoint name place peer).devices other).map Device.kind =
      if other = name then (stack.devices name).map fun _ => .veth place peer else (stack.devices other).map Device.kind := by
  unfold Stack.repoint
  cases isDevice : stack.devices name with
  | none =>
    by_cases here : other = name
    · simp [here, isDevice]
    · simp [here]
  | some device => exact setDevice_kind name _ stack other

/-- What an edit of a stack does to the device of one name, it does there and nowhere else. -/
theorem kindAt_edit {edits : Stack → Stack} (effect : Option Kind → Option Kind) {place : Option String} {name : String}
    (nothing : effect none = none) (onStack : ∀ stack other, ((edits stack).devices other).map Device.kind =
      if other = name then effect ((stack.devices name).map Device.kind) else (stack.devices other).map Device.kind)
    (net : Network) (seen : Option String) (other : String) : (net.edit place edits).kindAt seen other =
      if seen = place ∧ other = name then effect (net.kindAt place name) else net.kindAt seen other := by
  cases place with
  | none =>
    cases seen with
    | none =>
      simp only [true_and]
      exact onStack net.root other
    | some ns => rfl
  | some ns =>
    cases seen with
    | none => rfl
    | some here =>
      simp only [kindAt_ns, Network.edit, Option.some.injEq]
      by_cases same : here = ns
      · subst same
        cases net.namespaces here with
        | none => simp [nothing]
        | some stack =>
          simp only [if_true, Option.map_some, Option.bind_some, true_and]
          exact onStack stack other
      · simp only [same, if_false, false_and]

theorem kindAt_drop (place : Option String) (name : String) (net : Network) (seen : Option String) (other : String) :
    (net.edit place (Stack.setDevice name none)).kindAt seen other =
      if seen = place ∧ other = name then none else net.kindAt seen other :=
  kindAt_edit (fun _ => none) rfl (fun stack other => setDevice_kind name none stack other) net seen other

theorem kindAt_repoint (place : Option String) (name : String) (away : Option String) (peer : String) (net : Network)
    (seen : Option String) (other : String) : (net.edit place (Stack.repoint name away peer)).kindAt seen other =
      if seen = place ∧ other = name then (net.kindAt place name).map fun _ => .veth away peer else net.kindAt seen other := by
  refine kindAt_edit (Option.map fun _ => .veth away peer) rfl (fun stack other => ?_) net seen other
  rw [repoint_kind, Option.map_map]
  rfl

/-- A device has come into a namespace. -/
theorem kindAt_arrive {ns : String} (isStack : net.namespaces ns = some stack) (name : String) (device : Device)
    (seen : Option String) (other : String) :
    (net.setNs ns (some (stack.setDevice name (some device)))).kindAt seen other =
      if seen = some ns ∧ other = name then some device.kind else net.kindAt seen other := by
  cases seen with
  | none => rfl
  | some here =>
    simp only [kindAt_ns, Network.setNs, Option.some.injEq]
    by_cases same : here = ns
    · subst same
      simp only [if_true, Option.bind_some, true_and, isStack]
      exact setDevice_kind name (some device) stack other
    · simp only [same, if_false, false_and]

/-- A change keeps the kind of every device, and may add a tap. -/
theorem apply_kind (applied : stack.apply change = some after) (name : String) :
    (after.devices name).map Device.kind = (stack.devices name).map Device.kind ∨
      change = .tapAdd name ∧ (stack.devices name).map Device.kind = none ∧
        (after.devices name).map Device.kind = some .tap := by
  have keeps : ∀ {other : String} {device edited : Device}, stack.devices other = some device → edited.kind = device.kind →
      ((stack.setDevice other (some edited)).devices name).map Device.kind = (stack.devices name).map Device.kind := by
    intro other device edited isDevice same
    rw [setDevice_kind]
    split
    · next here => rw [here, isDevice, Option.map_some, Option.map_some, same]
    · rfl
  cases change with
  | tapAdd other =>
    simp only [Stack.apply] at applied
    split at applied
    · cases applied
    · next absent =>
      cases applied
      rw [setDevice_kind]
      split
      · next here =>
        subst here
        exact .inr ⟨rfl, by simpa using absent, rfl⟩
      · exact .inl rfl
  | addrAdd address other =>
    obtain ⟨device, isDevice, applied⟩ := Option.bind_eq_some_iff.1 applied
    split at applied
    · cases applied
    · cases applied
      exact .inl (keeps isDevice rfl)
  | linkUp other =>
    obtain ⟨device, isDevice, rfl⟩ := Option.map_eq_some_iff.1 applied
    exact .inl (keeps isDevice rfl)
  | gatewayAdd via =>
    simp only [Stack.apply] at applied
    split at applied
    · cases applied
    · cases applied
      exact .inl rfl
  | append rule =>
    cases applied
    exact .inl rfl
  | remove rule =>
    simp only [Stack.apply] at applied
    split at applied
    · cases applied
      exact .inl rfl
    · cases applied

theorem Stack.apply_rules (applied : stack.apply change = some after) :
    after.rules = (Command.inRoot change).rewrites stack.rules := by
  cases change with
  | addrAdd address other =>
    obtain ⟨device, isDevice, applied⟩ := Option.bind_eq_some_iff.1 applied
    split at applied
    · cases applied
    · cases applied
      rfl
  | linkUp other =>
    obtain ⟨device, isDevice, rfl⟩ := Option.map_eq_some_iff.1 applied
    rfl
  | append rule =>
    cases applied
    rfl
  | _ =>
    simp only [Stack.apply] at applied
    split at applied <;> cases applied
    rfl

theorem Network.edit_rules {place : Option String} {edits : Stack → Stack} (keeps : ∀ stack, (edits stack).rules = stack.rules)
    (net : Network) : (net.edit place edits).root.rules = net.root.rules := by
  cases place with
  | none => exact keeps net.root
  | some ns => rfl

theorem Stack.repoint_rules (name : String) (place : Option String) (peer : String) (stack : Stack) :
    (stack.repoint name place peer).rules = stack.rules := by
  unfold repoint
  split <;> rfl

theorem Stack.setDevice_rules (name : String) (device : Option Device) (stack : Stack) :
    (stack.setDevice name device).rules = stack.rules := rfl

theorem reference_rules (ran : net.reference command = some next) : next.root.rules = command.rewrites net.root.rules := by
  cases command with
  | netnsAdd ns =>
    obtain ⟨_, rfl⟩ := reference_netnsAdd ran
    rfl
  | netnsDel ns =>
    obtain rfl := reference_netnsDel ran
    rfl
  | vethAdd name peer =>
    obtain rfl := reference_vethAdd ran
    rfl
  | netnsExec ns change =>
    obtain ⟨stack, _, ran⟩ := Option.bind_eq_some_iff.1 ran
    obtain ⟨after, _, rfl⟩ := Option.map_eq_some_iff.1 ran
    rfl
  | inRoot change =>
    obtain ⟨root, isRoot, rfl⟩ := Option.map_eq_some_iff.1 ran
    exact Stack.apply_rules isRoot
  | linkMove name ns =>
    simp only [Network.reference] at ran
    split at ran
    · next device stack _ _ =>
      split at ran
      · cases ran
      · split at ran <;> cases ran
        · exact Network.edit_rules (Stack.repoint_rules _ _ _) _
        · rfl
    · cases ran
  | linkDel name =>
    obtain ⟨device, isDevice, isNext⟩ := Option.map_eq_some_iff.1 ran
    split at isNext <;> cases isNext
    · exact Network.edit_rules (Stack.setDevice_rules _ none) _
    · rfl

/-! ## What the commands do to the pairs -/

/-- Such a command adds a device at most, and that is no end of a pair. -/
theorem reference_keeps (ran : net.reference command = some next) (keeps : command.keepsPairs = true)
    (place : Option String) (name : String) : next.kindAt place name = net.kindAt place name ∨
      net.kindAt place name = none ∧ (place = none → command.Adds name) ∧
        (next.kindAt place name = some .tap ∨ next.kindAt place name = some .loopback) := by
  cases command with
  | netnsAdd ns =>
    obtain ⟨nothing, rfl⟩ := reference_netnsAdd ran
    cases place with
    | none => exact .inl rfl
    | some here =>
      simp only [kindAt_ns, Network.setNs]
      by_cases same : here = ns
      · -- a new namespace has its loopback device and nothing else
        subst same
        by_cases isLo : name = "lo"
        · exact .inr ⟨by rw [nothing]; rfl, nofun, .inr (by simp [Stack.fresh, isLo])⟩
        · exact .inl (by simp [Stack.fresh, isLo, nothing])
      · exact .inl (by rw [if_neg same])
  | netnsExec ns change =>
    obtain ⟨stack, isStack, ran⟩ := Option.bind_eq_some_iff.1 ran
    obtain ⟨after, applied, rfl⟩ := Option.map_eq_some_iff.1 ran
    cases place with
    | none => exact .inl rfl
    | some here =>
      simp only [kindAt_ns, Network.setNs]
      by_cases same : here = ns
      · subst same
        simp only [if_true, Option.bind_some, isStack]
        rcases apply_kind applied name with kept | ⟨_, absent, isTap⟩
        · exact .inl kept
        · exact .inr ⟨absent, nofun, .inl isTap⟩
      · exact .inl (by rw [if_neg same])
  | inRoot change =>
    obtain ⟨root, applied, rfl⟩ := Option.map_eq_some_iff.1 ran
    cases place with
    | none =>
      rcases apply_kind applied name with kept | ⟨rfl, absent, isTap⟩
      · exact .inl kept
      · exact .inr ⟨absent, fun _ => rfl, .inl isTap⟩
    | some here => exact .inl rfl
  | _ => cases keeps

theorem kindAt_vethAdd {device peer : String} (ran : net.reference (.vethAdd device peer) = some next)
    (place : Option String) (name : String) : next.kindAt place name =
      if place = none ∧ name = peer then some (.veth none device)
      else if place = none ∧ name = device then some (.veth none peer)
      else net.kindAt place name := by
  obtain rfl := reference_vethAdd ran
  cases place with
  | none =>
    simp only [true_and, kindAt_root, setDevice_kind]
    rfl
  | some ns => simp only [reduceCtorEq, false_and, if_false]; rfl

theorem kindAt_linkMove {device ns : String} (ran : net.reference (.linkMove device ns) = some next) :
    ∃ kind, net.kindAt none device = some kind ∧ net.kindAt (some ns) device = none ∧ ∀ place name,
      next.kindAt place name =
        let moved := if place = some ns ∧ name = device then some kind
          else if place = none ∧ name = device then none else net.kindAt place name
        if kind.otherEnd = some (place, name) then moved.map fun _ => .veth (some ns) device else moved := by
  simp only [Network.reference] at ran
  split at ran
  · next found stack isDevice isStack =>
    split at ran
    · cases ran
    · next free =>
      have moved : ∀ place name, (Network.setNs ns (some (stack.setDevice device (some { found with addresses := [], up := false })))
          (net.edit none (Stack.setDevice device none))).kindAt place name =
            if place = some ns ∧ name = device then some found.kind
            else if place = none ∧ name = device then none else net.kindAt place name := by
        intro place name
        rw [kindAt_arrive (by exact isStack), kindAt_drop]
      refine ⟨found.kind, by rw [kindAt_root, isDevice, Option.map_some], ?_, fun place name => ?_⟩
      · rw [kindAt_ns, isStack]
        simpa using free
      · split at ran
        · next away peer isKind =>
          cases ran
          rw [isKind] at moved
          refine (kindAt_repoint away peer (some ns) device _ place name).trans ?_
          simp only [isKind, Kind.otherEnd, Option.some.injEq, Prod.mk.injEq]
          by_cases here : place = away ∧ name = peer
          · obtain ⟨rfl, rfl⟩ := here
            rw [if_pos ⟨rfl, rfl⟩, if_pos ⟨rfl, rfl⟩]
            exact congrArg _ (moved place name)
          · rw [if_neg here, if_neg fun same => here ⟨same.1.symm, same.2.symm⟩]
            exact moved place name
        · next noPair =>
          cases ran
          have alone : found.kind.otherEnd = none := by
            cases isKind : found.kind with
            | veth away peer => exact absurd isKind (noPair away peer)
            | _ => rfl
          simp only [alone, reduceCtorEq, if_false]
          exact moved place name
  · cases ran

theorem kindAt_linkDel {device : String} (ran : net.reference (.linkDel device) = some next) :
    ∃ kind, net.kindAt none device = some kind ∧ ∀ place name, next.kindAt place name =
      if place = none ∧ name = device ∨ kind.otherEnd = some (place, name) then none else net.kindAt place name := by
  obtain ⟨found, isDevice, isNext⟩ := Option.map_eq_some_iff.1 ran
  have dropped : ∀ place name, (net.edit none (Stack.setDevice device none)).kindAt place name =
      if place = none ∧ name = device then none else net.kindAt place name := kindAt_drop none device net
  refine ⟨found.kind, by rw [kindAt_root, isDevice, Option.map_some], fun place name => ?_⟩
  split at isNext
  · next away peer isKind =>
    cases isNext
    refine (kindAt_drop away peer _ place name).trans ?_
    simp only [isKind, Kind.otherEnd, Option.some.injEq, Prod.mk.injEq]
    by_cases here : place = away ∧ name = peer
    · rw [if_pos here, if_pos (.inr ⟨here.1.symm, here.2.symm⟩)]
    · rw [if_neg here, if_congr (or_iff_left fun same => here ⟨same.1.symm, same.2.symm⟩) rfl rfl]
      exact dropped place name
  · next noPair =>
    cases isNext
    have alone : found.kind.otherEnd = none := by
      cases isKind : found.kind with
      | veth away peer => exact absurd isKind (noPair away peer)
      | _ => rfl
    simp only [alone, reduceCtorEq, or_false]
    exact dropped place name

/-- What has its other end in the namespace goes with it. -/
def Kind.outlives (ns : String) (kind : Kind) : Bool := kind.otherEnd.all fun ends => ends.1 ≠ some ns

theorem without_kind (ns : String) (stack : Stack) (name : String) :
    ((stack.without ns).devices name).map Device.kind = ((stack.devices name).map Device.kind).filter (Kind.outlives ns) := by
  simp only [Stack.without]
  cases stack.devices name with
  | none => rfl
  | some device =>
    have same : (!device.reaches ns) = device.kind.outlives ns := by
      unfold Device.reaches Kind.outlives
      cases device.kind with
      | veth away peer => cases away <;> simp [Kind.otherEnd]
      | _ => rfl
    simp only [Option.filter_some, Option.map_some, same]
    split <;> rfl

theorem kindAt_netnsDel {ns : String} (ran : net.reference (.netnsDel ns) = some next) (place : Option String)
    (name : String) : next.kindAt place name =
      if place = some ns then none else (net.kindAt place name).filter (Kind.outlives ns) := by
  obtain rfl := reference_netnsDel ran
  cases place with
  | none => exact without_kind ns net.root name
  | some here =>
    simp only [kindAt_ns, Option.some.injEq]
    split
    · rfl
    · cases net.namespaces here with
      | none => rfl
      | some stack => exact without_kind ns stack name

theorem otherEnd_of_filter {ns : String} (place : Option String) (name : String)
    (isKind : next.kindAt place name = if place = some ns then none else (net.kindAt place name).filter (Kind.outlives ns)) :
    next.otherEnd place name =
      if place = some ns then none else (net.otherEnd place name).filter fun ends => ends.1 ≠ some ns := by
  simp only [Network.otherEnd, isKind]
  split
  · rfl
  · cases net.kindAt place name with
    | none => rfl
    | some kind =>
      have isEnd : (if kind.outlives ns then some kind else none).bind Kind.otherEnd =
          if kind.outlives ns then kind.otherEnd else none := by split <;> rfl
      rw [Option.filter_some, isEnd, Option.bind_some]
      unfold Kind.outlives
      cases kind.otherEnd with
      | none => simp
      | some ends => rw [Option.all_some, Option.filter_some]

/-- Where a command has made or left something else, the end of a pair is one still. -/
theorem reference_lasting (ran : net.reference command = some next) {place : Option String} {name : String}
    (was : net.otherEnd place name ≠ none) : next.kindAt place name = none ∨ next.otherEnd place name ≠ none := by
  have stays : next.kindAt place name = net.kindAt place name → next.otherEnd place name ≠ none := by
    intro same
    rwa [Network.otherEnd, same]
  have there : net.kindAt place name ≠ none := by
    intro nothing
    rw [Network.otherEnd, nothing] at was
    exact was rfl
  cases command with
  | netnsAdd | netnsExec | inRoot =>
    rcases reference_keeps ran rfl place name with same | ⟨absent, _⟩
    · exact .inr (stays same)
    · exact absurd absent there
  | netnsDel ns =>
    have isKind := kindAt_netnsDel ran place name
    split at isKind
    · exact .inl isKind
    · cases kept : (net.kindAt place name).filter (Kind.outlives ns) with
      | none => exact .inl (isKind.trans kept)
      | some kind => exact .inr (stays ((isKind.trans kept).trans (Option.filter_eq_some_iff.1 kept).1.symm))
  | vethAdd device peer =>
    have isKind := kindAt_vethAdd ran place name
    split at isKind
    · exact .inr (by rw [otherEnd_of_kindAt isKind]; exact Option.some_ne_none _)
    · split at isKind
      · exact .inr (by rw [otherEnd_of_kindAt isKind]; exact Option.some_ne_none _)
      · exact .inr (stays isKind)
  | linkMove device ns =>
    obtain ⟨kind, _, free, isKind⟩ := kindAt_linkMove ran
    have isKind := isKind place name
    by_cases arrived : place = some ns ∧ name = device
    · -- where it arrives there was no device before
      rw [arrived.1, arrived.2, free] at there
      exact absurd rfl there
    · by_cases left : place = none ∧ name = device
      · simp only [if_neg arrived, if_pos left, Option.map_none, ite_self] at isKind
        exact .inl isKind
      · simp only [if_neg arrived, if_neg left] at isKind
        split at isKind
        · obtain ⟨other, isOther⟩ := Option.ne_none_iff_exists'.1 there
          rw [isOther] at isKind
          exact .inr (by rw [otherEnd_of_kindAt isKind]; exact Option.some_ne_none _)
        · exact .inr (stays isKind)
  | linkDel device =>
    obtain ⟨kind, _, isKind⟩ := kindAt_linkDel ran
    have isKind := isKind place name
    split at isKind
    · exact .inl isKind
    · exact .inr (stays isKind)

theorem reference_added (ran : net.reference command = some next) {name : String} (found : next.kindAt none name ≠ none) :
    net.kindAt none name ≠ none ∨ command.Adds name := by
  cases command with
  | netnsAdd | netnsExec | inRoot =>
    rcases reference_keeps ran rfl none name with same | ⟨_, adds, _⟩
    · exact .inl (same ▸ found)
    · exact .inr (adds rfl)
  | netnsDel ns =>
    have isKind := kindAt_netnsDel ran none name
    rw [if_neg nofun] at isKind
    refine .inl fun nothing => found (isKind.trans ?_)
    rw [nothing, Option.filter_none]
  | vethAdd device peer =>
    have isKind := kindAt_vethAdd ran none name
    simp only [true_and] at isKind
    split at isKind
    · next here => exact .inr (.inr here)
    · split at isKind
      · next here => exact .inr (.inl here)
      · exact .inl (isKind ▸ found)
  | linkMove device ns =>
    obtain ⟨kind, _, _, isKind⟩ := kindAt_linkMove ran
    refine .inl fun nothing => found ?_
    simp [isKind none name, nothing]
  | linkDel device =>
    obtain ⟨kind, _, isKind⟩ := kindAt_linkDel ran
    refine .inl fun nothing => found ?_
    simp [isKind none name, nothing]

theorem reference_physical (ran : net.reference command = some next) {ns name : String}
    (found : next.kindAt (some ns) name = some .physical) :
    net.kindAt (some ns) name = some .physical ∨ net.kindAt none name = some .physical := by
  cases command with
  | netnsAdd | netnsExec | inRoot =>
    rcases reference_keeps ran rfl (some ns) name with same | ⟨_, _, isNew | isNew⟩
    · exact .inl (same.symm.trans found)
    · cases isNew.symm.trans found
    · cases isNew.symm.trans found
  | netnsDel =>
    have isKind := (kindAt_netnsDel ran (some ns) name).symm.trans found
    split at isKind
    · cases isKind
    · exact .inl (Option.filter_eq_some_iff.1 isKind).1
  | vethAdd =>
    have isKind := (kindAt_vethAdd ran (some ns) name).symm.trans found
    simp only [reduceCtorEq, false_and, if_false] at isKind
    exact .inl isKind
  | linkMove device place =>
    obtain ⟨kind, isDevice, _, isKind⟩ := kindAt_linkMove ran
    have isKind := (isKind (some ns) name).symm.trans found
    simp only [reduceCtorEq, false_and, if_false] at isKind
    split at isKind
    · obtain ⟨_, _, isVeth⟩ := Option.map_eq_some_iff.1 isKind
      cases isVeth
    · split at isKind
      · -- it is the device that has come out of the root
        next arrived => exact .inr (arrived.2 ▸ isDevice.trans isKind)
      · exact .inl isKind
  | linkDel =>
    obtain ⟨kind, _, isKind⟩ := kindAt_linkDel ran
    have isKind := (isKind (some ns) name).symm.trans found
    split at isKind
    · cases isKind
    · exact .inl isKind

theorem reference_linkMove {device peer ns : String} (ran : net.reference (.linkMove device ns) = some next)
    (isPair : net.otherEnd none device = some (none, peer)) (isPeer : net.otherEnd none peer = some (none, device))
    (place : Option String) (name : String) : next.otherEnd place name =
      if place = none ∧ name = device then none
      else if place = some ns ∧ name = device then some (none, peer)
      else if place = none ∧ name = peer then some (some ns, device)
      else net.otherEnd place name := by
  obtain ⟨kind, isDevice, _, isKind⟩ := kindAt_linkMove ran
  rw [kindAt_of_otherEnd isPair, Option.some.injEq] at isDevice
  subst isDevice
  have isKind := isKind place name
  simp only [Kind.otherEnd, Option.some.injEq, Prod.mk.injEq] at isKind
  by_cases left : place = none ∧ name = device
  · obtain ⟨rfl, rfl⟩ := left
    simp only [reduceCtorEq, false_and, if_false, true_and, if_true, Option.map_none, ite_self] at isKind
    rw [Network.otherEnd, isKind, if_pos ⟨rfl, rfl⟩]
    rfl
  · rw [if_neg left]
    by_cases arrived : place = some ns ∧ name = device
    · obtain ⟨rfl, rfl⟩ := arrived
      simp only [reduceCtorEq, false_and, if_false, true_and, if_true] at isKind
      rw [if_pos ⟨rfl, rfl⟩]
      exact otherEnd_of_kindAt isKind
    · rw [if_neg arrived]
      simp only [if_neg arrived, if_neg left] at isKind
      by_cases other : place = none ∧ name = peer
      · obtain ⟨rfl, rfl⟩ := other
        rw [if_pos ⟨rfl, rfl⟩, kindAt_of_otherEnd isPeer] at isKind
        rw [if_pos ⟨rfl, rfl⟩]
        exact otherEnd_of_kindAt isKind
      · rw [if_neg fun same => other ⟨same.1.symm, same.2.symm⟩] at isKind
        rw [if_neg other, Network.otherEnd, isKind]
        rfl

/-! ## The laws hold -/

theorem reference_laws : Laws Network.reference where
  inside := reference_inside
  outside := reference_outside
  rules := reference_rules
  remove member fails := by simp [Network.reference, Stack.apply, member] at fails
  added ran _ := reference_added ran
  physical ran found := reference_physical ran found
  lasting ran was isNone := (reference_lasting ran was).resolve_right fun differs => differs isNone
  keepsPairs {net next command place name} ran keeps := by
    rcases reference_keeps ran keeps place name with same | ⟨absent, _, isNew | isNew⟩
    · simp only [Network.otherEnd, same]
    · simp [Network.otherEnd, absent, isNew, Kind.otherEnd]
    · simp [Network.otherEnd, absent, isNew, Kind.otherEnd]
  vethAdd {net next device peer place name} ran := by
    simp only [Network.otherEnd, kindAt_vethAdd ran place name]
    split
    · rfl
    · split <;> rfl
  linkMove_finds ran nothing := by
    obtain ⟨kind, isDevice, _⟩ := kindAt_linkMove ran
    rw [nothing] at isDevice
    cases isDevice
  linkMove ran isPair isPeer := reference_linkMove ran isPair isPeer _ _
  linkDel_finds ran nothing := by
    obtain ⟨kind, isDevice, _⟩ := kindAt_linkDel ran
    rw [nothing] at isDevice
    cases isDevice
  linkDel_pair {net device} isPair fails := by
    have noDevice : net.root.devices device = none := Option.map_eq_none_iff.1 fails
    rw [Network.otherEnd, kindAt_root, noDevice] at isPair
    exact isPair rfl
  linkDel {net next device other peer place name} ran isPair := by
    obtain ⟨kind, isDevice, isKind⟩ := kindAt_linkDel ran
    rw [kindAt_of_otherEnd isPair, Option.some.injEq] at isDevice
    subst isDevice
    simp only [Network.otherEnd, isKind place name, Kind.otherEnd, Option.some.injEq, Prod.mk.injEq, eq_comm (b := place),
      eq_comm (b := name)]
    split <;> rfl
  netnsDel_there {net ns} there fails := by
    simp only [Network.reference] at fails
    split at fails
    · next absent => exact there (Option.isNone_iff_eq_none.1 absent)
    · cases fails
  netnsDel_gone {net next ns} ran := by
    obtain rfl := reference_netnsDel ran
    exact if_pos rfl
  netnsDel ran := otherEnd_of_filter _ _ (kindAt_netnsDel ran _ _)

end Agentfork.HostNetwork

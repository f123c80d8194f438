import Mathlib.Data.List.DropRight
import Agentfork.Library.Sha256
import Agentfork.Firecracker.Sandbox

/-! # The names of a branch on its host

The directory of a branch, its jail and its network namespace are named by three
encoders. Each passes some names through and changes others, and a changed name
ends in a part of a digest. A path or a name is the list of its characters. -/

namespace Agentfork.Firecracker

/-- `hashlib.sha256(name.encode()).hexdigest()[:count]` -/
def digest (count : Nat) (name : List Char) : List Char :=
  (Sha256.hexdigest (name.flatMap String.utf8EncodeChar)).take count

/-! ## Directory names -/

/-- `_SAFE_BRANCH_SEGMENT.fullmatch(segment)` -/
def safeSegment : List Char → Bool
  | [] => false
  | first :: rest => first.isAlphanum && decide (rest.length ≤ 127) &&
      rest.all fun char => char.isAlphanum || char = '.' || char = '_' || char = '-'

def encodedBranchPrefix : List Char := "__agentfork__".toList

/-- `_branch_dir_name` -/
def branchDirName (branchId : BranchId) : Except Fault (List Char) :=
  let name := branchId.toList
  if name = [] then .error (.valueError "branch_id must be a non-empty string")
  else if 512 < (name.flatMap String.utf8EncodeChar).length ∨ Char.ofNat 0 ∈ name then
    .error (.valueError "branch_id is too long or contains NUL")
  else
    let segments := name.splitOn '/'
    if segments.any fun segment => segment = [] || segment = ['.'] || segment = ['.', '.'] || !safeSegment segment then
      .error (.valueError ("branch_id segments must contain only letters, digits, " ++
        "dot, underscore, or dash, and may not be '.' or '..'"))
    else if segments.length = 1 then
      if encodedBranchPrefix.isPrefixOf name then
        .error (.valueError "branch_id prefix '__agentfork__' is reserved")
      else .ok name
    else
      let readable := (['_'].intercalate segments).take 80
      .ok (encodedBranchPrefix ++ digest 16 name ++ '-' :: readable)

/-! ## Paths -/

/-- `os.path.join` of a path and one more part -/
def join (path part : List Char) : List Char :=
  if part.head? = some '/' then part
  else if path = [] ∨ path.getLast? = some '/' then path ++ part
  else path ++ '/' :: part

/-- `os.path.basename` -/
def basename (path : List Char) : List Char := path.rtakeWhile fun char => char ≠ '/'

/-! ## Labels -/

/-- A name that need not be changed, or what is left of it with a digest of the whole. -/
def label (passes : List Char → Bool) (core : List Char → List Char) (name : List Char) : List Char :=
  if passes name then name else core name ++ '-' :: digest 8 name

def clean (char : Char) : Char := if char.isAlphanum then char else '-'

/-- `re.sub(r"[^A-Za-z0-9-]", "-", name)`, and the same with `str.isalnum` on a
name that has only ASCII characters -/
def sanitized (name : List Char) : List Char := name.map clean

def jailPasses (name : List Char) : Bool :=
  decide (sanitized name = name) && decide (name.length ≤ 64) && !(name.head? = some '-')

def jailCore (name : List Char) : List Char :=
  match ((sanitized name).dropWhile fun char => char = '-').take 55 with
  | [] => ['b']
  | core => core

/-- `jail_id_for` -/
def jailIdFor (vmDir : List Char) : List Char := label jailPasses jailCore (basename vmDir)

def netnsPasses (branchId : List Char) : Bool :=
  decide (sanitized branchId = branchId) && decide (branchId.length ≤ 40)

def netnsCore (branchId : List Char) : List Char := (sanitized branchId).take 31

/-- `netns_name`, of an id that has a directory -/
def netnsName (branchId : BranchId) : List Char := "af-".toList ++ label netnsPasses netnsCore branchId.toList

/-! ## What a branch has on the host -/

structure HostConfig where
  workDir : List Char
  chrootBase : List Char
  /-- `os.path.abspath(fc_bin)` -/
  fcBin : List Char

/-- `jail_root` -/
def jailRoot (config : HostConfig) (vmDir : List Char) : List Char :=
  join (join (join config.chrootBase (basename config.fcBin)) (jailIdFor vmDir)) "root".toList

structure HostNames where
  dirName : List Char
  /-- `_vm_dir` -/
  vmDir : List Char
  jailRoot : List Char
  netns : List Char
  deriving DecidableEq

def hostNames (config : HostConfig) (branchId : BranchId) : Except Fault HostNames :=
  match branchDirName branchId with
  | .error fault => .error fault
  | .ok name =>
    let vmDir := join config.workDir name
    .ok ⟨name, vmDir, jailRoot config vmDir, netnsName branchId⟩

/-! ## Digests -/

theorem length_digest {count : Nat} (enough : count ≤ 64) (name : List Char) : (digest count name).length = count := by
  unfold digest
  rw [List.length_take, Sha256.length_hexdigest]
  omega

theorem digest_clean {count : Nat} {name : List Char} : ∀ char ∈ digest count name, char.isAlphanum = true := by
  intro char member
  have isDigit := Sha256.hexdigest_hex _ char (List.mem_of_mem_take member)
  have allClean : Sha256.hexDigits.all Char.isAlphanum = true := by decide
  exact List.all_eq_true.1 allClean char isDigit

/-- No two of the names have the same beginning of a digest. -/
def Discerned (names : List (List Char)) : Prop :=
  ∀ first ∈ names, ∀ second ∈ names, first ≠ second → ∀ count ∈ [8, 16], digest count first ≠ digest count second

/-! ## Labels -/

/-- The first name is the label that the second one gets, because it cannot pass. -/
def Mimics (passes : List Char → Bool) (core : List Char → List Char) (first second : List Char) : Prop :=
  passes second = false ∧ first = core second ++ '-' :: digest 8 second

section Labels

variable {passes : List Char → Bool} {core : List Char → List Char} {first second : List Char}

/-- Two names get one label exactly when one of them mimics the other. -/
theorem label_eq_iff (changed : ∀ name, passes (core name ++ '-' :: digest 8 name) = true) (distinct : first ≠ second)
    (differ : digest 8 first ≠ digest 8 second) : label passes core first = label passes core second ↔
      Mimics passes core first second ∨ Mimics passes core second first := by
  unfold label Mimics
  cases firstPasses : passes first with
  | true =>
    cases secondPasses : passes second with
    | true => simp [distinct]
    | false => simp
  | false =>
    cases secondPasses : passes second with
    | true => simp [eq_comm]
    | false =>
      -- both names are changed, and their labels end in their digests
      have labelsDiffer : core first ++ '-' :: digest 8 first ≠ core second ++ '-' :: digest 8 second := by
        intro same
        have sameLength : ('-' :: digest 8 first).length = ('-' :: digest 8 second).length := by
          rw [List.length_cons, List.length_cons, length_digest (by omega), length_digest (by omega)]
        exact differ (List.cons.inj (List.append_inj_right' same sameLength)).2
      have firstFails : first ≠ core second ++ '-' :: digest 8 second := by
        intro same
        rw [same, changed] at firstPasses
        cases firstPasses
      have secondFails : second ≠ core first ++ '-' :: digest 8 first := by
        intro same
        rw [same, changed] at secondPasses
        cases secondPasses
      simp [labelsDiffer, firstFails, secondFails]

end Labels

theorem clean_clean (char : Char) : (clean char).isAlphanum = true ∨ clean char = '-' := by
  unfold clean
  split
  · next isClean => exact .inl isClean
  · exact .inr rfl

theorem sanitized_eq_self {name : List Char} (all : ∀ char ∈ name, char.isAlphanum = true ∨ char = '-') :
    sanitized name = name := by
  have same : ∀ char ∈ name, clean char = id char := by
    intro char member
    unfold clean
    obtain isClean | isDash := all char member
    · exact if_pos isClean
    · rw [isDash]
      rfl
  exact (List.map_congr_left same).trans (List.map_id name)

/-- What a core and a digest are joined to has no other characters. -/
theorem sanitized_changed {core name : List Char} (all : ∀ char ∈ core, char.isAlphanum = true ∨ char = '-') :
    sanitized (core ++ '-' :: digest 8 name) = core ++ '-' :: digest 8 name := by
  apply sanitized_eq_self
  intro char member
  obtain inCore | rest := List.mem_append.1 member
  · exact all char inCore
  · obtain isDash | inDigest := List.mem_cons.1 rest
    · exact .inr isDash
    · exact .inl (digest_clean char inDigest)

theorem netnsPasses_changed (name : List Char) : netnsPasses (netnsCore name ++ '-' :: digest 8 name) = true := by
  unfold netnsPasses
  have core : ∀ char ∈ netnsCore name, char.isAlphanum = true ∨ char = '-' := by
    intro char member
    obtain ⟨original, _, rfl⟩ := List.mem_map.1 (List.mem_of_mem_take member)
    exact clean_clean original
  have short : (netnsCore name).length ≤ 31 := List.length_take_le 31 _
  have length : (netnsCore name ++ '-' :: digest 8 name).length ≤ 40 := by
    rw [List.length_append, List.length_cons, length_digest (by omega)]
    omega
  rw [Bool.and_eq_true, decide_eq_true_iff, decide_eq_true_iff]
  exact ⟨sanitized_changed core, length⟩

/-- The core of a jail id is short and clean, and begins with no dash. -/
theorem jailCore_spec (name : List Char) : (∀ char ∈ jailCore name, char.isAlphanum = true ∨ char = '-') ∧
    (jailCore name).length ≤ 55 ∧ ∃ first rest, jailCore name = first :: rest ∧ first ≠ '-' := by
  unfold jailCore
  cases stripped : ((sanitized name).dropWhile fun char => char = '-').take 55 with
  | nil => exact ⟨by simp, by simp, 'b', [], rfl, by decide⟩
  | cons first rest =>
    refine ⟨fun char member => ?_, ?_, first, rest, rfl, fun isDash => ?_⟩
    · change char ∈ first :: rest at member
      rw [← stripped] at member
      have inName := (List.dropWhile_sublist _).subset (List.mem_of_mem_take member)
      obtain ⟨original, _, rfl⟩ := List.mem_map.1 inName
      exact clean_clean original
    · change (first :: rest).length ≤ 55
      rw [← stripped]
      exact List.length_take_le 55 _
    · cases dropped : (sanitized name).dropWhile fun char => char = '-' with
      | nil => rw [dropped] at stripped; cases stripped
      | cons head tail =>
        rw [dropped, List.take_succ_cons] at stripped
        cases stripped
        have notDash := List.head?_dropWhile_not (fun char => decide (char = '-')) (sanitized name)
        rw [dropped] at notDash
        simp [isDash] at notDash

theorem jailPasses_changed (name : List Char) : jailPasses (jailCore name ++ '-' :: digest 8 name) = true := by
  obtain ⟨all, short, first, rest, isCore, notDash⟩ := jailCore_spec name
  have length : (jailCore name ++ '-' :: digest 8 name).length ≤ 64 := by
    rw [List.length_append, List.length_cons, length_digest (by omega)]
    omega
  unfold jailPasses
  rw [Bool.and_eq_true, Bool.and_eq_true, decide_eq_true_iff, decide_eq_true_iff]
  refine ⟨⟨sanitized_changed all, length⟩, ?_⟩
  rw [isCore]
  simp [notDash]

/-! ## Directory names -/

theorem safeSegment_char {segment : List Char} (safe : safeSegment segment = true) :
    (∃ first rest, segment = first :: rest ∧ first.isAlphanum = true) ∧ '/' ∉ segment := by
  cases segment with
  | nil => cases safe
  | cons first rest =>
    unfold safeSegment at safe
    rw [Bool.and_eq_true, Bool.and_eq_true, List.all_eq_true] at safe
    obtain ⟨⟨isAlphanum, _⟩, all⟩ := safe
    refine ⟨⟨first, rest, rfl, isAlphanum⟩, fun slash => ?_⟩
    obtain rfl | inRest := List.mem_cons.1 slash
    · cases isAlphanum
    · exact absurd (all '/' inRest) (by decide)

theorem notMem_intercalate {separator char : Char} {parts : List (List Char)} (differs : char ≠ separator)
    (absent : ∀ part ∈ parts, char ∉ part) : char ∉ [separator].intercalate parts := by
  induction parts with
  | nil => exact List.not_mem_nil
  | cons part rest inductionHypothesis =>
    have absentRest := inductionHypothesis fun other member => absent other (List.mem_cons_of_mem part member)
    have absentHere := absent part List.mem_cons_self
    cases rest with
    | nil =>
      rw [List.intercalate_singleton]
      exact absentHere
    | cons next rest =>
      rw [List.intercalate_cons_cons]
      simp only [List.mem_append, List.mem_singleton]
      rintro ((inPart | isSeparator) | inRest)
      · exact absentHere inPart
      · exact differs isSeparator
      · exact absentRest inRest

/-- What a directory name is: the id itself, or one with a reserved prefix and a digest. -/
inductive DirName (branchId : List Char) : List Char → Prop where
  | plain {first : Char} {rest : List Char} (isId : branchId = first :: rest) (isAlphanum : first.isAlphanum = true)
      (noSlash : '/' ∉ branchId) : DirName branchId branchId
  | encoded {readable : List Char} (noSlash : '/' ∉ readable) :
      DirName branchId (encodedBranchPrefix ++ digest 16 branchId ++ '-' :: readable)

theorem branchDirName_ok {branchId : BranchId} {name : List Char} (accepted : branchDirName branchId = .ok name) :
    DirName branchId.toList name := by
  unfold branchDirName at accepted
  simp only at accepted
  split at accepted
  · cases accepted
  · split at accepted
    · cases accepted
    · split at accepted
      · cases accepted
      · next allSafe =>
        have safe : ∀ segment ∈ branchId.toList.splitOn '/', safeSegment segment = true := by
          intro segment member
          have notBad := fun bad => allSafe (List.any_eq_true.2 ⟨segment, member, bad⟩)
          cases isSafe : safeSegment segment with
          | true => rfl
          | false => exact absurd (by simp [isSafe]) notBad
        have joined : ['/'].intercalate (branchId.toList.splitOn '/') = branchId.toList :=
          List.intercalate_splitOn '/'
        split at accepted
        · next single =>
          obtain ⟨segment, isSingle⟩ := List.length_eq_one_iff.1 single
          split at accepted
          · cases accepted
          · cases accepted
            rw [isSingle, List.intercalate_singleton] at joined
            obtain ⟨⟨first, rest, isSegment, isAlphanum⟩, noSlash⟩ :=
              safeSegment_char (safe segment (isSingle ▸ List.mem_singleton.2 rfl))
            rw [joined] at isSegment noSlash
            exact .plain isSegment isAlphanum noSlash
        · cases accepted
          apply DirName.encoded
          intro slash
          refine notMem_intercalate (by decide) ?_ (List.mem_of_mem_take slash)
          intro segment member
          exact (safeSegment_char (safe segment member)).2

namespace DirName

variable {branchId other name otherName : List Char}

theorem noSlash (isName : DirName branchId name) : '/' ∉ name := by
  cases isName with
  | plain _ _ noSlash => exact noSlash
  | encoded noSlash =>
    intro slash
    rw [List.append_assoc, List.mem_append, List.mem_append, List.mem_cons] at slash
    obtain inPrefix | inDigest | isDash | inReadable := slash
    · exact absurd inPrefix (by decide)
    · exact absurd (digest_clean '/' inDigest) (by decide)
    · exact absurd isDash (by decide)
    · exact noSlash inReadable

theorem ne_nil (isName : DirName branchId name) : name ≠ [] := by
  cases isName with
  | plain isId => exact isId ▸ List.cons_ne_nil _ _
  | encoded => exact List.cons_ne_nil _ _

/-- Distinct ids have distinct directory names. -/
theorem injective (isName : DirName branchId name) (isOther : DirName other otherName)
    (differ : branchId ≠ other → digest 16 branchId ≠ digest 16 other) (same : name = otherName) : branchId = other := by
  cases isName with
  | plain isId isAlphanum =>
    cases isOther with
    | plain => exact same
    | encoded =>
      -- a plain name does not begin with an underscore
      rw [isId] at same
      cases (List.cons.inj same).1
      cases isAlphanum
  | encoded =>
    cases isOther with
    | plain isId isAlphanum =>
      rw [isId] at same
      cases (List.cons.inj same).1
      cases isAlphanum
    | encoded =>
      by_contra distinct
      rw [List.append_assoc, List.append_assoc] at same
      have sameTail := List.append_cancel_left same
      have sameLength : (digest 16 branchId).length = (digest 16 other).length := by
        rw [length_digest (by omega), length_digest (by omega)]
      exact differ distinct (List.append_inj_left sameTail sameLength)

end DirName

/-! ## Paths -/

theorem basename_append {path name : List Char} (noSlash : '/' ∉ name) (ends : path = [] ∨ path.getLast? = some '/') :
    basename (path ++ name) = name := by
  have all : ∀ char ∈ name.reverse, decide (char ≠ '/') = true := by
    intro char member
    apply decide_eq_true
    rintro rfl
    exact noSlash (List.mem_reverse.1 member)
  have none : path.reverse.takeWhile (fun char => decide (char ≠ '/')) = [] := by
    obtain rfl | ends := ends
    · rfl
    · obtain ⟨front, rfl⟩ := List.getLast?_eq_some_iff.1 ends
      rw [List.reverse_append]
      rfl
  unfold basename List.rtakeWhile
  rw [List.reverse_append, List.takeWhile_append_of_pos all, none, List.append_nil, List.reverse_reverse]

/-- A part that is not absolute goes behind something that depends on the path alone. -/
theorem join_relative (path : List Char) : ∃ before, (before = [] ∨ before.getLast? = some '/') ∧
    ∀ part, '/' ∉ part → join path part = before ++ part := by
  have relative : ∀ part : List Char, '/' ∉ part → part.head? ≠ some '/' := by
    intro part noSlash isAbsolute
    exact noSlash (List.mem_of_mem_head? isAbsolute)
  by_cases ends : path = [] ∨ path.getLast? = some '/'
  · refine ⟨path, ends, fun part noSlash => ?_⟩
    unfold join
    rw [if_neg (relative part noSlash), if_pos ends]
  · refine ⟨path ++ ['/'], .inr List.getLast?_concat, fun part noSlash => ?_⟩
    unfold join
    rw [if_neg (relative part noSlash), if_neg ends, List.append_assoc, List.singleton_append]

theorem basename_join {path name : List Char} (noSlash : '/' ∉ name) : basename (join path name) = name := by
  obtain ⟨before, ends, joins⟩ := join_relative path
  rw [joins name noSlash]
  exact basename_append noSlash ends

theorem join_inj {path first second : List Char} (firstRelative : '/' ∉ first) (secondRelative : '/' ∉ second) :
    join path first = join path second ↔ first = second := by
  obtain ⟨before, _, joins⟩ := join_relative path
  rw [joins first firstRelative, joins second secondRelative, List.append_right_inj]

theorem noSlash_of_clean {name : List Char} (all : ∀ char ∈ name, char.isAlphanum = true ∨ char = '-') : '/' ∉ name :=
  fun slash => absurd (all '/' slash) (by decide)

/-- A jail id is one part of a path. -/
theorem jailIdFor_part {vmDir : List Char} (notEmpty : basename vmDir ≠ []) :
    jailIdFor vmDir ≠ [] ∧ '/' ∉ jailIdFor vmDir := by
  have cleanOf : ∀ name, sanitized name = name → ∀ char ∈ name, char.isAlphanum = true ∨ char = '-' := by
    intro name same char member
    rw [← same] at member
    obtain ⟨original, _, rfl⟩ := List.mem_map.1 member
    exact clean_clean original
  unfold jailIdFor label
  split
  · next passes =>
    unfold jailPasses at passes
    rw [Bool.and_eq_true, Bool.and_eq_true, decide_eq_true_iff] at passes
    exact ⟨notEmpty, noSlash_of_clean (cleanOf _ passes.1.1)⟩
  · obtain ⟨all, _, first, rest, isCore, _⟩ := jailCore_spec (basename vmDir)
    refine ⟨by simp, noSlash_of_clean (cleanOf _ (sanitized_changed all))⟩

theorem jailRoot_inj {config : HostConfig} {first second : List Char} (firstNamed : basename first ≠ [])
    (secondNamed : basename second ≠ []) :
    jailRoot config first = jailRoot config second ↔ jailIdFor first = jailIdFor second := by
  obtain ⟨before, _, joins⟩ := join_relative (join config.chrootBase (basename config.fcBin))
  -- the directory of a jail does not end in a slash, so a slash and `root` follow it
  have isRoot : ∀ vmDir, basename vmDir ≠ [] →
      jailRoot config vmDir = before ++ (jailIdFor vmDir ++ "/root".toList) := by
    intro vmDir named
    obtain ⟨notEmpty, noSlash⟩ := jailIdFor_part named
    unfold jailRoot
    rw [joins _ noSlash]
    unfold join
    have notEnd : ¬ (before ++ jailIdFor vmDir = [] ∨ (before ++ jailIdFor vmDir).getLast? = some '/') := by
      rintro (isEmpty | ends)
      · exact notEmpty (List.append_eq_nil_iff.1 isEmpty).2
      · rw [List.getLast?_append_of_ne_nil _ notEmpty] at ends
        exact noSlash (List.mem_of_getLast? ends)
    rw [if_neg (by decide), if_neg notEnd, List.append_assoc]
    rfl
  rw [isRoot first firstNamed, isRoot second secondNamed, List.append_right_inj, List.append_left_inj]

/-! ## Distinct branches -/

namespace HostNames

/-- The two branches share nothing on the host. -/
def Disjoint (first second : HostNames) : Prop :=
  first.vmDir ≠ second.vmDir ∧ first.jailRoot ≠ second.jailRoot ∧ first.netns ≠ second.netns

end HostNames

/-- One of the names is the jail id or the namespace that the other branch gets
because its own name has to be changed. -/
inductive Collides (branchId other dirName otherDirName : List Char) : Prop where
  | jail (mimics : Mimics jailPasses jailCore dirName otherDirName)
  | jailOther (mimics : Mimics jailPasses jailCore otherDirName dirName)
  | netns (mimics : Mimics netnsPasses netnsCore branchId other)
  | netnsOther (mimics : Mimics netnsPasses netnsCore other branchId)

theorem hostNames_ok {config : HostConfig} {branchId : BranchId} {names : HostNames}
    (accepted : hostNames config branchId = .ok names) : DirName branchId.toList names.dirName ∧
      names.vmDir = join config.workDir names.dirName ∧ names.jailRoot = jailRoot config names.vmDir ∧
      names.netns = netnsName branchId := by
  unfold hostNames at accepted
  cases named : branchDirName branchId with
  | error fault => rw [named] at accepted; cases accepted
  | ok name =>
    rw [named] at accepted
    cases accepted
    exact ⟨branchDirName_ok named, rfl, rfl, rfl⟩

/-- Two branches have no directory, jail or namespace in common exactly when
neither has a name that the other one's is changed to. -/
theorem host_names_disjoint_iff {config : HostConfig} {branchId other : BranchId} {names otherNames : HostNames}
    (accepted : hostNames config branchId = .ok names) (otherAccepted : hostNames config other = .ok otherNames)
    (distinct : branchId ≠ other)
    (discerned : Discerned [branchId.toList, other.toList, names.dirName, otherNames.dirName]) :
    names.Disjoint otherNames ↔
      ¬ Collides branchId.toList other.toList names.dirName otherNames.dirName := by
  obtain ⟨isName, vmDir, jailRoot, netns⟩ := hostNames_ok accepted
  obtain ⟨isOtherName, otherVmDir, otherJailRoot, otherNetns⟩ := hostNames_ok otherAccepted
  have distinctIds : branchId.toList ≠ other.toList := fun same => distinct (String.toList_inj.1 same)
  have differ : ∀ count ∈ [8, 16], digest count branchId.toList ≠ digest count other.toList :=
    discerned _ (by simp) _ (by simp) distinctIds
  have distinctNames : names.dirName ≠ otherNames.dirName := by
    intro same
    exact distinctIds (isName.injective isOtherName (fun _ => differ 16 (by decide)) same)
  have differNames : digest 8 names.dirName ≠ digest 8 otherNames.dirName :=
    discerned _ (by simp) _ (by simp) distinctNames 8 (by decide)
  have base : basename names.vmDir = names.dirName := by rw [vmDir, basename_join isName.noSlash]
  have otherBase : basename otherNames.vmDir = otherNames.dirName := by
    rw [otherVmDir, basename_join isOtherName.noSlash]
  have vmDirs : names.vmDir ≠ otherNames.vmDir := by
    rw [vmDir, otherVmDir, Ne, join_inj isName.noSlash isOtherName.noSlash]
    exact distinctNames
  have jails : names.jailRoot = otherNames.jailRoot ↔ Mimics jailPasses jailCore names.dirName otherNames.dirName ∨
      Mimics jailPasses jailCore otherNames.dirName names.dirName := by
    rw [jailRoot, otherJailRoot, jailRoot_inj (base ▸ isName.ne_nil) (otherBase ▸ isOtherName.ne_nil), jailIdFor,
      jailIdFor, base, otherBase]
    exact label_eq_iff jailPasses_changed distinctNames differNames
  have namespaces : names.netns = otherNames.netns ↔ Mimics netnsPasses netnsCore branchId.toList other.toList ∨
      Mimics netnsPasses netnsCore other.toList branchId.toList := by
    rw [netns, otherNetns, netnsName, netnsName, List.append_right_inj]
    exact label_eq_iff netnsPasses_changed distinctIds (differ 8 (by decide))
  unfold HostNames.Disjoint
  rw [Ne, Ne, Ne, jails, namespaces]
  constructor
  · rintro ⟨_, noJail, noNetns⟩ collides
    cases collides with
    | jail mimics => exact noJail (.inl mimics)
    | jailOther mimics => exact noJail (.inr mimics)
    | netns mimics => exact noNetns (.inl mimics)
    | netnsOther mimics => exact noNetns (.inr mimics)
  · intro noCollision
    refine ⟨vmDirs, fun jail => ?_, fun netns => ?_⟩
    · exact noCollision (jail.elim .jail .jailOther)
    · exact noCollision (netns.elim .netns .netnsOther)

/-- Eight digits that differ are enough. -/
theorem discerned_of_injective {names : List (List Char)}
    (injective : ∀ first ∈ names, ∀ second ∈ names, digest 8 first = digest 8 second → first = second) :
    Discerned names := by
  intro first isFirst second isSecond distinct count isCount same
  have eight : digest 8 first = digest 8 second := by
    obtain rfl | rfl := (by simpa using isCount : count = 8 ∨ count = 16)
    · exact same
    · have shorter := congrArg (List.take 8) same
      unfold digest at shorter ⊢
      rw [List.take_take, List.take_take] at shorter
      exact shorter
  exact distinct (injective first isFirst second isSecond eight)

def hostConfig : HostConfig where
  workDir := "/var/lib/agentfork".toList
  chrootBase := "/srv/jailer".toList
  fcBin := "/usr/bin/firecracker".toList

/-- The names of `root/1` -/
def slashed : HostNames where
  dirName := "__agentfork__4cf40c4e8395b5c6-root_1".toList
  vmDir := "/var/lib/agentfork/__agentfork__4cf40c4e8395b5c6-root_1".toList
  jailRoot := "/srv/jailer/firecracker/agentfork--4cf40c4e8395b5c6-root-1-d6c87dd9/root".toList
  netns := "af-root-1-4cf40c4e".toList

/-- The names of an id that passes everywhere -/
def plain (name : String) : HostNames where
  dirName := name.toList
  vmDir := "/var/lib/agentfork/".toList ++ name.toList
  jailRoot := "/srv/jailer/firecracker/".toList ++ name.toList ++ "/root".toList
  netns := "af-".toList ++ name.toList

theorem slashed_disjoint : slashed.Disjoint (plain "root-1") := by
  have accepted : hostNames hostConfig "root/1" = .ok slashed := by decide +kernel
  have otherAccepted : hostNames hostConfig "root-1" = .ok (plain "root-1") := by decide +kernel
  have digests : digest 8 "root/1".toList = "4cf40c4e".toList ∧ digest 8 "root-1".toList = "d0b6b951".toList ∧
      digest 8 slashed.dirName = "d6c87dd9".toList := by decide +kernel
  have discerned : Discerned ["root/1".toList, "root-1".toList, slashed.dirName, (plain "root-1").dirName] := by
    have isPlain : (plain "root-1").dirName = "root-1".toList := rfl
    apply discerned_of_injective
    simp only [isPlain, List.forall_mem_cons, digests, List.not_mem_nil, false_implies, implies_true, and_true]
    decide
  refine (host_names_disjoint_iff accepted otherAccepted (by decide) discerned).2 ?_
  rintro (⟨passes, _⟩ | ⟨_, same⟩ | ⟨passes, _⟩ | ⟨_, same⟩)
  · exact absurd passes (by decide)
  · rw [digests.2.2] at same
    exact absurd same (by decide)
  · exact absurd passes (by decide)
  · rw [digests.1] at same
    exact absurd same (by decide)

/-- The jail id and the namespace of `a_b` end in its digest, and an id may spell that out. -/
theorem spelled_out_digest_collides : ¬ ∀ config branchId other names otherNames,
    hostNames config branchId = .ok names → hostNames config other = .ok otherNames → branchId ≠ other →
      Discerned [branchId.toList, other.toList, names.dirName, otherNames.dirName] → names.Disjoint otherNames := by
  intro claimed
  let changed : HostNames := { plain "a-b-648fa9b3" with
    dirName := "a_b".toList, vmDir := "/var/lib/agentfork/a_b".toList }
  have accepted : hostNames hostConfig "a_b" = .ok changed := by decide +kernel
  have otherAccepted : hostNames hostConfig "a-b-648fa9b3" = .ok (plain "a-b-648fa9b3") := by decide +kernel
  have digests : digest 8 "a_b".toList = "648fa9b3".toList ∧ digest 8 "a-b-648fa9b3".toList = "ceb6c53c".toList := by
    decide +kernel
  have discerned : Discerned ["a_b".toList, "a-b-648fa9b3".toList, "a_b".toList, "a-b-648fa9b3".toList] := by
    apply discerned_of_injective
    simp only [List.forall_mem_cons, digests, List.not_mem_nil, false_implies, implies_true, and_true]
    decide
  exact (claimed hostConfig "a_b" "a-b-648fa9b3" _ _ accepted otherAccepted (by decide) discerned).2.1 rfl

end Agentfork.Firecracker

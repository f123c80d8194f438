import Agentfork.Sglang.ReferenceCache
import Agentfork.Sglang.RequestPath

/-! # Which requests share cached tokens

A request matches what is cached under its cache key. The key of an agent request
is the identity of its tree, a colon and its salt in one string, and a plain
request brings a string of its own, so requests of different sources may have the
same key. -/

namespace Agentfork.Sglang

namespace TreeCacheLifecycle

open TreeRadixCache

variable {τ : Type} [DecidableEq τ] {radix : RadixCache τ} {cache other : TreeRadixCache τ}

/-! ## Keys -/

/-- What a salt adds to the identity of a tree; an empty one adds nothing. -/
def saltSuffix : Option String → String
  | some salt => if salt = "" then "" else ":" ++ salt
  | none => ""

theorem namespaceOf_eq (treeId extraKey : Option String) (branchId : String) :
    namespaceOf treeId extraKey branchId = orElse treeId branchId ++ saltSuffix extraKey := by
  unfold namespaceOf saltSuffix
  cases extraKey with
  | none => simp
  | some salt =>
    simp only
    split
    · simp
    · simp [toString, String.append_assoc]

/-- The cache key of a request that is admitted. -/
def cacheKey (req : Req) : Option String :=
  match req.branchId with
  | none => req.extraKey
  | some branchId => some (orElse req.treeId branchId ++ saltSuffix req.extraKey)

theorem prepareRequest_key {req : Req} (admitted : (prepareRequest radix cache req).1 = none) :
    (prepareRequest radix cache req).2.1.extraKey = cacheKey req := by
  revert admitted
  unfold prepareRequest cacheKey
  cases named : req.branchId with
  | none => intro _; rfl
  | some branchId =>
    simp only
    split
    · intro admitted; cases admitted
    · split
      · intro _; rw [namespaceOf_eq]
      · intro admitted; cases admitted

/-! ## Sources -/

/-- The two requests are of one tree and one salt, or both plain with one key. -/
def SameSource (first second : Req) : Prop :=
  match first.branchId, second.branchId with
  | some branchId, some otherId =>
    orElse first.treeId branchId = orElse second.treeId otherId ∧ first.extraKey = second.extraKey
  | none, none => first.extraKey = second.extraKey
  | _, _ => False

/-- The identity `ns` goes on, after `otherNs` and a colon, as the salt of the other
request begins. -/
def Continues (ns otherNs : String) (salt otherSalt : Option String) : Prop :=
  ∃ more, ns = otherNs ++ ":" ++ more ∧ more ++ saltSuffix salt ≠ "" ∧
    otherSalt = some (more ++ saltSuffix salt)

/-- The salts differ and add nothing, both of them. -/
def BothEmpty (salt otherSalt : Option String) : Prop :=
  salt = none ∧ otherSalt = some "" ∨ salt = some "" ∧ otherSalt = none

/-- Requests of different sources that are spelled alike: two trees one of which
continues into the other's salt, an absent and an empty salt, or a plain request
with the spelling of a tree and its salt for its own key. -/
def Confusable (first second : Req) : Prop :=
  match first.branchId, second.branchId with
  | some branchId, some otherId =>
    (orElse first.treeId branchId = orElse second.treeId otherId ∧ BothEmpty first.extraKey second.extraKey) ∨
    Continues (orElse first.treeId branchId) (orElse second.treeId otherId) first.extraKey second.extraKey ∨
    Continues (orElse second.treeId otherId) (orElse first.treeId branchId) second.extraKey first.extraKey
  | some branchId, none => second.extraKey = some (orElse first.treeId branchId ++ saltSuffix first.extraKey)
  | none, some branchId => first.extraKey = some (orElse second.treeId branchId ++ saltSuffix second.extraKey)
  | none, none => False

/-! ## Equal spellings -/

theorem append_eq_append {a b c d : String} :
    a ++ b = c ++ d ↔ (∃ more, c = a ++ more ∧ b = more ++ d) ∨ ∃ more, a = c ++ more ∧ d = more ++ b := by
  constructor
  · intro same
    have lists := congrArg String.toList same
    rw [String.toList_append, String.toList_append, List.append_eq_append_iff] at lists
    refine lists.imp ?_ ?_ <;>
    · rintro ⟨more, first, second⟩
      exact ⟨String.ofList more, String.toList_injective (by simpa using first),
        String.toList_injective (by simpa using second)⟩
  · rintro (⟨more, rfl, rfl⟩ | ⟨more, rfl, rfl⟩)
    · rw [String.append_assoc]
    · rw [String.append_assoc]

theorem colon_append_ne (given : String) : ":" ++ given ≠ "" := by
  intro empty
  have lists := congrArg String.toList empty
  rw [String.toList_append] at lists
  cases lists

theorem ne_append_colon (ns more : String) : ns ≠ ns ++ ":" ++ more := by
  intro longer
  have lengths := congrArg (fun spelled => spelled.toList.length) longer
  simp only [String.toList_append, List.length_append] at lengths
  have colon : ":".toList.length = 1 := rfl
  omega

theorem saltSuffix_some {salt : String} (nonempty : salt ≠ "") : saltSuffix (some salt) = ":" ++ salt :=
  if_neg nonempty

theorem saltSuffix_inj {salt otherSalt : Option String} (same : saltSuffix salt = saltSuffix otherSalt) :
    salt = otherSalt ∨ BothEmpty salt otherSalt := by
  cases salt with
  | none =>
    cases otherSalt with
    | none => exact .inl rfl
    | some given =>
      by_cases empty : given = ""
      · exact .inr (.inl ⟨rfl, congrArg some empty⟩)
      · rw [saltSuffix_some empty] at same
        exact absurd same.symm (colon_append_ne given)
  | some first =>
    by_cases empty : first = ""
    · cases otherSalt with
      | none => exact .inr (.inr ⟨congrArg some empty, rfl⟩)
      | some second =>
        by_cases otherEmpty : second = ""
        · exact .inl (by rw [empty, otherEmpty])
        · rw [saltSuffix_some otherEmpty, empty] at same
          exact absurd same.symm (colon_append_ne second)
    · rw [saltSuffix_some empty] at same
      cases otherSalt with
      | none => exact absurd same (colon_append_ne first)
      | some second =>
        by_cases otherEmpty : second = ""
        · rw [otherEmpty] at same
          exact absurd same (colon_append_ne first)
        · rw [saltSuffix_some otherEmpty] at same
          rw [(String.append_right_inj ":").1 same]
          exact .inl rfl

/-- Where one spelling goes on, its tail is the beginning of the other's salt. -/
theorem continues_iff {ns otherNs : String} {salt otherSalt : Option String} :
    (∃ more, more ≠ "" ∧ ns = otherNs ++ more ∧ saltSuffix otherSalt = more ++ saltSuffix salt) ↔
      Continues ns otherNs salt otherSalt := by
  constructor
  · intro ⟨more, nonempty, isNs, isSuffix⟩
    have notEmpty : saltSuffix otherSalt ≠ "" := by
      intro empty
      rw [empty] at isSuffix
      have lists := congrArg String.toList isSuffix
      rw [String.toList_append] at lists
      exact nonempty (String.toList_eq_nil_iff.1 (List.append_eq_nil_iff.1 lists.symm).1)
    cases otherSalt with
    | none => exact absurd rfl notEmpty
    | some given =>
      have given_ne : given ≠ "" := fun empty => notEmpty (if_pos empty)
      rw [saltSuffix_some given_ne] at isSuffix
      -- the colon is the first character of what goes on
      have lists := congrArg String.toList isSuffix
      rw [String.toList_append, String.toList_append, show ":".toList = [':'] from rfl] at lists
      cases spelled : more.toList with
      | nil => exact absurd (String.toList_eq_nil_iff.1 spelled) nonempty
      | cons first rest =>
        rw [spelled] at lists
        obtain ⟨isColon, tail⟩ := List.cons.inj lists
        have isMore : more = ":" ++ String.ofList rest := by
          apply String.toList_injective
          rw [spelled, String.toList_append, show ":".toList = [':'] from rfl, String.toList_ofList, ← isColon]
          rfl
        have isGiven : given = String.ofList rest ++ saltSuffix salt := by
          apply String.toList_injective
          rw [String.toList_append, String.toList_ofList]
          exact tail
        refine ⟨String.ofList rest, ?_, ?_, congrArg some isGiven⟩
        · rw [isNs, isMore, String.append_assoc]
        · rw [← isGiven]
          exact given_ne
  · intro ⟨more, isNs, nonempty, isSalt⟩
    refine ⟨":" ++ more, colon_append_ne more, ?_, ?_⟩
    · rw [isNs, String.append_assoc]
    · rw [isSalt, saltSuffix_some nonempty, String.append_assoc]

theorem agentKeys_eq_iff {ns otherNs : String} {salt otherSalt : Option String} :
    ns ++ saltSuffix salt = otherNs ++ saltSuffix otherSalt ↔ (ns = otherNs ∧ salt = otherSalt) ∨
      (ns = otherNs ∧ BothEmpty salt otherSalt) ∨ Continues ns otherNs salt otherSalt ∨
        Continues otherNs ns otherSalt salt := by
  constructor
  · intro same
    obtain ⟨more, isOther, isSuffix⟩ | ⟨more, isNs, isSuffix⟩ := append_eq_append.1 same
    · by_cases empty : more = ""
      · subst empty
        rw [String.append_empty] at isOther
        rw [String.empty_append] at isSuffix
        subst isOther
        obtain sameSalt | bothEmpty := saltSuffix_inj isSuffix
        · exact .inl ⟨rfl, sameSalt⟩
        · exact .inr (.inl ⟨rfl, bothEmpty⟩)
      · exact .inr (.inr (.inr (continues_iff.1 ⟨more, empty, isOther, isSuffix⟩)))
    · by_cases empty : more = ""
      · subst empty
        rw [String.append_empty] at isNs
        rw [String.empty_append] at isSuffix
        subst isNs
        obtain sameSalt | bothEmpty := saltSuffix_inj isSuffix.symm
        · exact .inl ⟨rfl, sameSalt⟩
        · exact .inr (.inl ⟨rfl, bothEmpty⟩)
      · exact .inr (.inr (.inl (continues_iff.1 ⟨more, empty, isNs, isSuffix⟩)))
  · rintro (⟨rfl, rfl⟩ | ⟨rfl, ⟨rfl, rfl⟩ | ⟨rfl, rfl⟩⟩ | continues | continues)
    · rfl
    · rfl
    · rfl
    · obtain ⟨more, _, isNs, isSuffix⟩ := continues_iff.2 continues
      rw [isNs, isSuffix, String.append_assoc]
    · obtain ⟨more, _, isOther, isSuffix⟩ := continues_iff.2 continues
      rw [isOther, isSuffix, String.append_assoc]

/-- Of two admitted requests, an equal key means one source unless they are
spelled alike. -/
theorem isolated_iff_not_confusable {first second : Req}
    (firstAdmitted : (prepareRequest radix cache first).1 = none)
    (secondAdmitted : (prepareRequest radix other second).1 = none) :
    ((prepareRequest radix cache first).2.1.extraKey = (prepareRequest radix other second).2.1.extraKey →
      SameSource first second) ↔ ¬ Confusable first second := by
  rw [prepareRequest_key firstAdmitted, prepareRequest_key secondAdmitted]
  unfold cacheKey SameSource Confusable
  cases first.branchId with
  | none =>
    cases second.branchId with
    | none => simp
    | some otherId => simp
  | some branchId =>
    cases second.branchId with
    | none => simp [eq_comm]
    | some otherId =>
      simp only [Option.some.injEq, agentKeys_eq_iff]
      generalize orElse first.treeId branchId = ns
      generalize orElse second.treeId otherId = otherNs
      constructor
      · intro isolated confusable
        obtain ⟨sameNs, sameSalt⟩ := isolated (.inr confusable)
        rw [sameNs, sameSalt] at confusable
        obtain ⟨_, ⟨absent, given⟩ | ⟨given, absent⟩⟩ | ⟨more, longer, _⟩ | ⟨more, longer, _⟩ := confusable
        · rw [absent] at given; cases given
        · rw [absent] at given; cases given
        · exact absurd longer (ne_append_colon otherNs more)
        · exact absurd longer (ne_append_colon otherNs more)
      · intro apart same
        exact same.resolve_right apart

/-! ## Three requests -/

/-- A plain tree, a salted tree and a request without a branch. -/
def plainTree : Req := ⟨some "t", some "a", none, false, none, none, false⟩

def saltedTree : Req := ⟨some "t", some "b", none, false, none, some "s", false⟩

def spelledTree : Req := ⟨some "t:s", some "c", none, false, none, none, false⟩

theorem plainTree_isolated :
    let cache : TreeRadixCache Nat := .new 1 none
    let later := (prepareRequest referenceCache cache plainTree).2.2
    (prepareRequest referenceCache cache plainTree).2.1.extraKey =
      (prepareRequest referenceCache later saltedTree).2.1.extraKey → SameSource plainTree saltedTree := by
  refine (isolated_iff_not_confusable (by decide) (by decide)).2 ?_
  rintro (⟨_, bothEmpty⟩ | ⟨more, longer, _⟩ | ⟨more, longer, _⟩)
  · obtain ⟨_, given⟩ | ⟨given, _⟩ := bothEmpty <;> exact absurd given (by decide)
  · exact ne_append_colon "t" more longer
  · exact ne_append_colon "t" more longer

/-- The tree "t" with the salt "s" and the tree "t:s" without one. -/
theorem spelled_trees_share_a_key : ¬ ∀ (cache other : TreeRadixCache Nat) (first second : Req),
    (prepareRequest referenceCache cache first).1 = none → (prepareRequest referenceCache other second).1 = none →
      (prepareRequest referenceCache cache first).2.1.extraKey =
        (prepareRequest referenceCache other second).2.1.extraKey → SameSource first second := by
  intro claimed
  let cache : TreeRadixCache Nat := .new 1 none
  let later := (prepareRequest referenceCache cache saltedTree).2.2
  have same := claimed cache later saltedTree spelledTree (by decide) (by decide) (by decide)
  exact absurd same.1 (by decide)

end TreeCacheLifecycle

end Agentfork.Sglang

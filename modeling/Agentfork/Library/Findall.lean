import Mathlib.Data.List.Infix

/-! # The matches of a pattern in a text

A matcher looks for its pattern at the beginning of a text and says what it has
found there and what comes after it. The matches in a text are those from the left,
each sought from the end of the one before. -/

namespace Agentfork

variable {χ β : Type}

structure Matcher (χ β : Type) where
  matchAt : List χ → Option (β × List χ)
  suffix : ∀ {text : List χ} {found : β} {rest : List χ}, matchAt text = some (found, rest) → rest <:+ text
  /-- a match takes something of the text -/
  shorter : ∀ {text : List χ} {found : β} {rest : List χ}, matchAt text = some (found, rest) → rest.length < text.length

namespace Matcher

def findall (matcher : Matcher χ β) : List χ → List β
  | [] => []
  | char :: text =>
    match isMatch : matcher.matchAt (char :: text) with
    | some (found, rest) =>
      have _shorter : rest.length < (char :: text).length := matcher.shorter isMatch
      found :: matcher.findall rest
    | none => matcher.findall text
termination_by text => text.length
decreasing_by
  · exact _shorter
  · exact Nat.lt_succ_self _

variable {matcher : Matcher χ β} {text rest skipped : List χ} {found : β}

theorem findall_match (isMatch : matcher.matchAt text = some (found, rest)) :
    matcher.findall text = found :: matcher.findall rest := by
  cases text with
  | nil => exact absurd (matcher.shorter isMatch) (Nat.not_lt_zero _)
  | cons char text =>
    rw [findall]
    split
    · next same =>
      rw [isMatch] at same
      cases same
      rfl
    · next none =>
      rw [isMatch] at none
      cases none

theorem findall_cons {char : χ} (noMatch : matcher.matchAt (char :: rest) = none) :
    matcher.findall (char :: rest) = matcher.findall rest := by
  rw [findall]
  split
  · next same =>
    rw [noMatch] at same
    cases same
  · rfl

/-- Text at no place of which the pattern begins is passed over. -/
theorem findall_append (none : ∀ suffix, suffix <:+ skipped → suffix ≠ [] → matcher.matchAt (suffix ++ rest) = none) :
    matcher.findall (skipped ++ rest) = matcher.findall rest := by
  induction skipped with
  | nil => rfl
  | cons char skipped inductionHypothesis =>
    have here := none (char :: skipped) (List.suffix_refl _) (List.cons_ne_nil _ _)
    rw [List.cons_append] at here ⊢
    rw [findall_cons here]
    exact inductionHypothesis fun suffix isSuffix => none suffix (isSuffix.trans (List.suffix_cons _ _))

/-- Everything found is found at some place of the text. -/
theorem findall_mem (isFound : found ∈ matcher.findall text) :
    ∃ place rest, place <:+ text ∧ matcher.matchAt place = some (found, rest) := by
  fun_induction matcher.findall text with
  | case1 => cases isFound
  | case2 char text first rest isMatch shorter inductionHypothesis =>
    rcases List.mem_cons.mp isFound with rfl | later
    · exact ⟨char :: text, rest, List.suffix_refl _, isMatch⟩
    · obtain ⟨place, after, isSuffix, there⟩ := inductionHypothesis later
      exact ⟨place, after, isSuffix.trans (matcher.suffix isMatch), there⟩
  | case3 char text noMatch inductionHypothesis =>
    obtain ⟨place, after, isSuffix, there⟩ := inductionHypothesis isFound
    exact ⟨place, after, isSuffix.trans (List.suffix_cons _ _), there⟩

end Matcher

end Agentfork

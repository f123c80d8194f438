import Mathlib.Data.List.MinMax
import Agentfork.Library.RadixForest

/-! # Forests of leaves

A node whose children have no children themselves, as a list of edges with their
data: what a walk, a new leaf and a removal do there. -/

namespace Agentfork.RadixForest

variable {τ π : Type}

def leaves : List (List τ × π) → RadixForest τ π
  | [] => nil
  | (edge, payload) :: rest => node edge payload nil (leaves rest)

/-- Edges are nonempty, and their first tokens are different. -/
def Apart (entries : List (List τ × π)) : Prop :=
  (∀ entry ∈ entries, entry.1 ≠ []) ∧ entries.Pairwise fun first second => first.1.head? ≠ second.1.head?

variable {entries others : List (List τ × π)} {tokens : List τ}

theorem Apart.sublist (apart : Apart entries) (fewer : others.Sublist entries) : Apart others :=
  ⟨fun entry member => apart.1 entry (fewer.subset member), apart.2.sublist fewer⟩

theorem Apart.append {leaf : List τ} (apart : Apart entries) (value : π) (nonempty : leaf ≠ [])
    (missing : ∀ entry ∈ entries, entry.1.head? ≠ leaf.head?) : Apart (entries ++ [(leaf, value)]) := by
  constructor
  · intro entry member
    obtain before | here := List.mem_append.1 member
    · exact apart.1 entry before
    · rw [List.mem_singleton.1 here]
      exact nonempty
  · rw [List.pairwise_append]
    refine ⟨apart.2, List.pairwise_singleton _ _, fun entry member last here => ?_⟩
    rw [List.mem_singleton.1 here]
    exact missing entry member

theorem missing_leaves {key : Option τ} : (leaves entries).Missing key ↔ ∀ entry ∈ entries, entry.1.head? ≠ key := by
  induction entries with
  | nil => simp [leaves, Missing]
  | cons entry rest inductionHypothesis =>
    obtain ⟨edge, payload⟩ := entry
    simp [leaves, Missing, inductionHypothesis]

theorem nodes_leaves (above : List τ) :
    (leaves entries).nodes above = (entries.map fun entry => (above ++ entry.1, entry.1, entry.2, true)).reverse := by
  induction entries with
  | nil => rfl
  | cons entry rest inductionHypothesis =>
    obtain ⟨edge, payload⟩ := entry
    rw [leaves, nodes, inductionHypothesis, List.map_cons, List.reverse_cons]

variable [DecidableEq τ]

/-- No node is passed when no edge starts like the tokens. -/
theorem walk_of_missing {forest : RadixForest τ π} (touch : π → π) (missing : forest.Missing tokens.head?) :
    forest.walk touch tokens = (forest, 0) := by
  induction forest with
  | nil => rfl
  | node edge payload children siblings _ besideHypothesis =>
    rw [walk, if_neg missing.1, besideHypothesis missing.2]

/-- The walk passes a node as a whole and goes on below it. -/
theorem walk_node {edge : List τ} {payload : π} {children siblings : RadixForest τ π} (touch : π → π)
    (nonempty : edge ≠ []) :
    (node edge payload children siblings).walk touch (edge ++ tokens) =
      (node edge (touch payload) (children.walk touch tokens).1 siblings,
        edge.length + (children.walk touch tokens).2) := by
  rw [walk, if_pos (head?_append_ne nonempty).symm, if_pos (List.prefix_append _ _), List.drop_left]

theorem setLeaf_leaves {leaf : List τ} {value : π} (missing : ∀ entry ∈ entries, entry.1.head? ≠ leaf.head?) :
    setLeaf leaf value (leaves entries) = leaves (entries ++ [(leaf, value)]) := by
  induction entries with
  | nil => rfl
  | cons entry rest inductionHypothesis =>
    obtain ⟨edge, payload⟩ := entry
    rw [List.forall_mem_cons] at missing
    rw [leaves, setLeaf, if_neg missing.1, inductionHypothesis missing.2, List.cons_append, leaves]

/-- A leaf that is taken off leaves the others as they are. -/
theorem removeAt_leaves (apart : Apart entries) {entry : List τ × π} (member : entry ∈ entries) :
    ∃ rest, rest.Sublist entries ∧ entries.Perm (entry :: rest) ∧ (leaves entries).removeAt entry.1 = leaves rest := by
  induction entries with
  | nil => exact absurd member List.not_mem_nil
  | cons first others inductionHypothesis =>
    obtain ⟨edge, payload⟩ := first
    obtain ⟨nonempty, pairwise⟩ := apart
    rw [List.pairwise_cons] at pairwise
    obtain here | beyond := List.mem_cons.1 member
    · subst here
      refine ⟨others, List.sublist_cons_self _ _, List.Perm.refl _, ?_⟩
      rw [leaves, removeAt, if_pos rfl]
    · have otherHead : edge.head? ≠ entry.1.head? := pairwise.1 entry beyond
      have notHere : edge ≠ entry.1 := fun same => otherHead (congrArg List.head? same)
      obtain ⟨rest, fewer, permuted, removed⟩ := inductionHypothesis
        ⟨fun other isOther => nonempty other (List.mem_cons_of_mem _ isOther), pairwise.2⟩ beyond
      refine ⟨(edge, payload) :: rest, fewer.cons_cons _, ?_, ?_⟩
      · exact (permuted.cons _).trans (List.Perm.swap _ _ _)
      · rw [leaves, removeAt, if_neg notHere, if_neg otherHead, removed, leaves]

end Agentfork.RadixForest

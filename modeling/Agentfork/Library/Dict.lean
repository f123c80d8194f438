import Mathlib.Data.List.Nodup
import Mathlib.Data.List.Basic
import Mathlib.Algebra.BigOperators.Group.Finset.Basic
import Mathlib.Tactic.Ring

/-! # Insertion-ordered dictionaries

A `Dict` is a finite map that remembers the order in which its keys were first
inserted: overwriting a key keeps its place, a new key goes to the end. The
keys are distinct by construction, so a dictionary with two rows for one key
cannot be built. Everything a client needs is `get?` after each update, together
with the membership and sum lemmas at the end. -/

namespace Agentfork

/-- A finite map as the list of its rows, oldest key first. -/
structure Dict (κ υ : Type) where
  entries : List (κ × υ)
  nodup : (entries.map Prod.fst).Nodup

namespace Dict

variable {κ υ : Type} [DecidableEq κ]

instance [DecidableEq υ] : DecidableEq (Dict κ υ) := fun first second =>
  decidable_of_iff (first.entries = second.entries) (by cases first; cases second; simp)

def lookupEntry (key : κ) : List (κ × υ) → Option υ
  | [] => none
  | (first, value) :: rest => if key = first then some value else lookupEntry key rest

def insertEntry (key : κ) (value : υ) : List (κ × υ) → List (κ × υ)
  | [] => [(key, value)]
  | (first, old) :: rest =>
    if key = first then (key, value) :: rest else (first, old) :: insertEntry key value rest

def eraseEntry (key : κ) : List (κ × υ) → List (κ × υ)
  | [] => []
  | (first, value) :: rest => if key = first then rest else (first, value) :: eraseEntry key rest

theorem insertEntry_keys (key : κ) (value : υ) (entries : List (κ × υ)) (other : κ) :
    other ∈ (insertEntry key value entries).map Prod.fst ↔
      other = key ∨ other ∈ entries.map Prod.fst := by
  induction entries with
  | nil => simp [insertEntry]
  | cons entry rest inductionHypothesis =>
    obtain ⟨first, old⟩ := entry
    by_cases same : key = first
    · subst same; simp [insertEntry]
    · simp only [insertEntry, if_neg same, List.map_cons, List.mem_cons, inductionHypothesis]
      tauto

theorem insertEntry_nodup (key : κ) (value : υ) (entries : List (κ × υ))
    (distinct : (entries.map Prod.fst).Nodup) :
    ((insertEntry key value entries).map Prod.fst).Nodup := by
  induction entries with
  | nil => simp [insertEntry]
  | cons entry rest inductionHypothesis =>
    obtain ⟨first, old⟩ := entry
    simp only [List.map_cons, List.nodup_cons] at distinct
    by_cases same : key = first
    · subst same; simpa [insertEntry] using distinct
    · simp only [insertEntry, if_neg same, List.map_cons, List.nodup_cons, insertEntry_keys]
      refine ⟨?_, inductionHypothesis distinct.2⟩
      rintro (equal | member)
      · exact same equal.symm
      · exact distinct.1 member

theorem eraseEntry_sublist (key : κ) (entries : List (κ × υ)) :
    (eraseEntry key entries).Sublist entries := by
  induction entries with
  | nil => exact List.Sublist.refl _
  | cons entry rest inductionHypothesis =>
    simp only [eraseEntry]
    split
    · exact List.sublist_cons_self _ _
    · exact inductionHypothesis.cons_cons _

def empty : Dict κ υ := ⟨[], List.nodup_nil⟩

def get? (dict : Dict κ υ) (key : κ) : Option υ := lookupEntry key dict.entries

def insert (dict : Dict κ υ) (key : κ) (value : υ) : Dict κ υ :=
  ⟨insertEntry key value dict.entries, insertEntry_nodup key value dict.entries dict.nodup⟩

def erase (dict : Dict κ υ) (key : κ) : Dict κ υ :=
  ⟨eraseEntry key dict.entries, dict.nodup.sublist ((eraseEntry_sublist key dict.entries).map _)⟩

/-- Replace every value, keeping keys and order. -/
def mapValues (update : υ → υ) (dict : Dict κ υ) : Dict κ υ :=
  ⟨dict.entries.map fun entry => (entry.1, update entry.2), by
    simpa only [List.map_map, Function.comp_def] using dict.nodup⟩

/-- `mapValues` with an update that looks at the key as well. -/
def mapRows (update : κ → υ → υ) (dict : Dict κ υ) : Dict κ υ :=
  ⟨dict.entries.map fun entry => (entry.1, update entry.1 entry.2), by
    simpa only [List.map_map, Function.comp_def] using dict.nodup⟩

def keys (dict : Dict κ υ) : List κ := dict.entries.map Prod.fst

def values (dict : Dict κ υ) : List υ := dict.entries.map Prod.snd

instance : Membership κ (Dict κ υ) := ⟨fun dict key => key ∈ dict.keys⟩

instance (key : κ) (dict : Dict κ υ) : Decidable (key ∈ dict) :=
  inferInstanceAs (Decidable (key ∈ dict.keys))

/-! ## Lookup after an update -/

theorem lookupEntry_insertEntry (key other : κ) (value : υ) (entries : List (κ × υ)) :
    lookupEntry other (insertEntry key value entries) =
      if other = key then some value else lookupEntry other entries := by
  induction entries with
  | nil => rfl
  | cons entry rest inductionHypothesis =>
    obtain ⟨first, old⟩ := entry
    by_cases same : key = first
    · subst same
      simp only [insertEntry, if_true, lookupEntry]
      split <;> rfl
    · simp only [insertEntry, if_neg same, lookupEntry, inductionHypothesis]
      by_cases atFirst : other = first
      · subst atFirst; simp [Ne.symm same]
      · simp [atFirst]

theorem lookupEntry_none (key : κ) (entries : List (κ × υ)) :
    lookupEntry key entries = none ↔ key ∉ entries.map Prod.fst := by
  induction entries with
  | nil => simp [lookupEntry]
  | cons entry rest inductionHypothesis =>
    obtain ⟨first, value⟩ := entry
    by_cases same : key = first <;> simp [lookupEntry, same, inductionHypothesis]

theorem lookupEntry_eraseEntry (key other : κ) (entries : List (κ × υ))
    (distinct : (entries.map Prod.fst).Nodup) :
    lookupEntry other (eraseEntry key entries) =
      if other = key then none else lookupEntry other entries := by
  induction entries with
  | nil => simp [eraseEntry, lookupEntry]
  | cons entry rest inductionHypothesis =>
    obtain ⟨first, value⟩ := entry
    simp only [List.map_cons, List.nodup_cons] at distinct
    by_cases same : key = first
    · subst same
      simp only [eraseEntry, if_true, lookupEntry]
      split
      · next equal => subst equal; exact (lookupEntry_none _ _).2 distinct.1
      · rfl
    · simp only [eraseEntry, if_neg same, lookupEntry, inductionHypothesis distinct.2]
      by_cases atFirst : other = first
      · subst atFirst; simp [Ne.symm same]
      · simp [atFirst]

@[simp] theorem get?_empty (key : κ) : (empty : Dict κ υ).get? key = none := rfl

@[simp] theorem get?_insert (dict : Dict κ υ) (key other : κ) (value : υ) :
    (dict.insert key value).get? other = if other = key then some value else dict.get? other :=
  lookupEntry_insertEntry key other value dict.entries

@[simp] theorem get?_erase (dict : Dict κ υ) (key other : κ) :
    (dict.erase key).get? other = if other = key then none else dict.get? other :=
  lookupEntry_eraseEntry key other dict.entries dict.nodup

@[simp] theorem get?_mapValues (update : υ → υ) (dict : Dict κ υ) (key : κ) :
    (dict.mapValues update).get? key = (dict.get? key).map update := by
  obtain ⟨entries, distinct⟩ := dict
  simp only [get?, mapValues]
  clear distinct
  induction entries with
  | nil => rfl
  | cons entry rest inductionHypothesis =>
    simp only [List.map_cons, lookupEntry, inductionHypothesis]
    split <;> rfl

@[simp] theorem get?_mapRows (update : κ → υ → υ) (dict : Dict κ υ) (key : κ) :
    (dict.mapRows update).get? key = (dict.get? key).map (update key) := by
  obtain ⟨entries, distinct⟩ := dict
  simp only [get?, mapRows]
  clear distinct
  induction entries with
  | nil => rfl
  | cons entry rest inductionHypothesis =>
    simp only [List.map_cons, lookupEntry, inductionHypothesis]
    split
    next here => rw [here]; rfl
    next => rfl

/-! ## Membership -/

theorem get?_eq_none {dict : Dict κ υ} {key : κ} : dict.get? key = none ↔ key ∉ dict :=
  lookupEntry_none key dict.entries

theorem mem_iff_get? {dict : Dict κ υ} {key : κ} : key ∈ dict ↔ ∃ value, dict.get? key = some value := by
  rw [← not_iff_not, ← get?_eq_none]
  cases dict.get? key <;> simp

theorem mem_of_get? {dict : Dict κ υ} {key : κ} {value : υ} (found : dict.get? key = some value) :
    key ∈ dict :=
  mem_iff_get?.2 ⟨value, found⟩

@[simp] theorem not_mem_empty (key : κ) : key ∉ (empty : Dict κ υ) := by
  simp [← get?_eq_none]

@[simp] theorem mem_insert {dict : Dict κ υ} {key other : κ} {value : υ} :
    other ∈ dict.insert key value ↔ other = key ∨ other ∈ dict :=
  insertEntry_keys key value dict.entries other

@[simp] theorem mem_mapValues {update : υ → υ} {dict : Dict κ υ} {key : κ} :
    key ∈ dict.mapValues update ↔ key ∈ dict := by
  rw [mem_iff_get?, mem_iff_get?, get?_mapValues]
  cases dict.get? key <;> simp

@[simp] theorem mem_erase {dict : Dict κ υ} {key other : κ} :
    other ∈ dict.erase key ↔ other ≠ key ∧ other ∈ dict := by
  rw [mem_iff_get?, mem_iff_get?, get?_erase]
  by_cases same : other = key <;> simp [same]

omit [DecidableEq κ] in
@[simp] theorem mem_keys {dict : Dict κ υ} {key : κ} : key ∈ dict.keys ↔ key ∈ dict := Iff.rfl

theorem mem_entries {dict : Dict κ υ} {key : κ} {value : υ} :
    (key, value) ∈ dict.entries ↔ dict.get? key = some value := by
  obtain ⟨entries, distinct⟩ := dict
  simp only [get?]
  induction entries with
  | nil => simp [lookupEntry]
  | cons entry rest inductionHypothesis =>
    obtain ⟨first, old⟩ := entry
    simp only [List.map_cons, List.nodup_cons] at distinct
    simp only [List.mem_cons, Prod.mk.injEq, lookupEntry, inductionHypothesis distinct.2]
    by_cases same : key = first
    · subst same
      have absent := (lookupEntry_none key rest).2 distinct.1
      simp [absent, eq_comm]
    · simp [same]

theorem mem_values {dict : Dict κ υ} {value : υ} :
    value ∈ dict.values ↔ ∃ key, dict.get? key = some value := by
  simp only [values, List.mem_map, Prod.exists, mem_entries, exists_eq_right]

omit [DecidableEq κ] in
theorem keys_nodup (dict : Dict κ υ) : dict.keys.Nodup := dict.nodup

/-- The values after an update are the new one and those of the other rows. -/
theorem values_insert (dict : Dict κ υ) (key : κ) (value : υ) :
    ((dict.insert key value).values : Multiset υ) = value ::ₘ (dict.erase key).values := by
  obtain ⟨entries, distinct⟩ := dict
  simp only [values, insert, erase]
  clear distinct
  induction entries with
  | nil => rfl
  | cons entry rest inductionHypothesis =>
    obtain ⟨first, old⟩ := entry
    by_cases same : key = first
    · simp [insertEntry, eraseEntry, same]
    · simp only [insertEntry, eraseEntry, if_neg same, List.map_cons, ← Multiset.cons_coe,
        inductionHypothesis]
      exact Multiset.cons_swap _ _ _

theorem values_of_get? {dict : Dict κ υ} {key : κ} {value : υ} (found : dict.get? key = some value) :
    (dict.values : Multiset υ) = value ::ₘ (dict.erase key).values := by
  obtain ⟨entries, distinct⟩ := dict
  simp only [get?, values, erase] at found ⊢
  clear distinct
  induction entries with
  | nil => cases found
  | cons entry rest inductionHypothesis =>
    obtain ⟨first, old⟩ := entry
    by_cases same : key = first
    · simp only [lookupEntry, if_pos same, Option.some.injEq] at found
      simp [eraseEntry, same, found]
    · simp only [lookupEntry, if_neg same] at found
      simp only [eraseEntry, if_neg same, List.map_cons, ← Multiset.cons_coe, inductionHypothesis found]
      exact Multiset.cons_swap _ _ _

theorem values_erase_of_absent {dict : Dict κ υ} {key : κ} (absent : dict.get? key = none) :
    (dict.erase key).values = dict.values := by
  obtain ⟨entries, distinct⟩ := dict
  simp only [get?, values, erase] at absent ⊢
  clear distinct
  induction entries with
  | nil => rfl
  | cons entry rest inductionHypothesis =>
    obtain ⟨first, old⟩ := entry
    by_cases same : key = first
    · simp [lookupEntry, same] at absent
    · simp only [lookupEntry, if_neg same] at absent
      simp only [eraseEntry, if_neg same, List.map_cons, inductionHypothesis absent]

/-- Erasing a key forgets what was stored under it. -/
theorem erase_insert (dict : Dict κ υ) (key : κ) (value : υ) :
    ((dict.insert key value).erase key).entries = (dict.erase key).entries := by
  obtain ⟨entries, distinct⟩ := dict
  simp only [insert, erase]
  clear distinct
  induction entries with
  | nil => simp [insertEntry, eraseEntry]
  | cons entry rest inductionHypothesis =>
    obtain ⟨first, old⟩ := entry
    by_cases same : key = first
    · simp [insertEntry, eraseEntry, same]
    · simp only [insertEntry, eraseEntry, if_neg same, inductionHypothesis]

/-! ## Sums over the values -/

/-- The sum of `weight` over all values. -/
def total (weight : υ → Nat) (dict : Dict κ υ) : Nat := (dict.values.map weight).sum

omit [DecidableEq κ] in
@[simp] theorem total_empty (weight : υ → Nat) : (empty : Dict κ υ).total weight = 0 := rfl

omit [DecidableEq κ] in
theorem total_mapValues (weight : υ → Nat) (update : υ → υ) (dict : Dict κ υ)
    (kept : ∀ value, weight (update value) = weight value) :
    (dict.mapValues update).total weight = dict.total weight := by
  simp only [total, values, mapValues, List.map_map, Function.comp_def, kept]

theorem total_insert (weight : υ → Nat) (dict : Dict κ υ) (key : κ) (value : υ) :
    (dict.insert key value).total weight + ((dict.get? key).map weight).getD 0 =
      dict.total weight + weight value := by
  obtain ⟨entries, distinct⟩ := dict
  simp only [total, values, insert, get?]
  clear distinct
  induction entries with
  | nil => simp [insertEntry, lookupEntry]
  | cons entry rest inductionHypothesis =>
    obtain ⟨first, old⟩ := entry
    by_cases same : key = first
    · subst same; simp [insertEntry, lookupEntry]; ring
    · simp only [insertEntry, if_neg same, lookupEntry, List.map_cons, List.sum_cons]
      omega

theorem total_erase (weight : υ → Nat) (dict : Dict κ υ) (key : κ) :
    (dict.erase key).total weight + ((dict.get? key).map weight).getD 0 = dict.total weight := by
  obtain ⟨entries, distinct⟩ := dict
  simp only [total, values, erase, get?]
  clear distinct
  induction entries with
  | nil => simp [eraseEntry, lookupEntry]
  | cons entry rest inductionHypothesis =>
    obtain ⟨first, old⟩ := entry
    by_cases same : key = first
    · subst same; simp [eraseEntry, lookupEntry]; ring
    · simp only [eraseEntry, if_neg same, lookupEntry, List.map_cons, List.sum_cons]
      omega

/-- The total as a sum over the set of keys. -/
theorem total_eq_sum (weight : υ → Nat) (dict : Dict κ υ) :
    dict.total weight = ∑ key ∈ dict.keys.toFinset, ((dict.get? key).map weight).getD 0 := by
  rw [List.sum_toFinset _ dict.keys_nodup, keys, total, values, List.map_map, List.map_map]
  refine congrArg List.sum (List.map_congr_left fun entry member => ?_)
  obtain ⟨key, value⟩ := entry
  simp only [Function.comp_apply, mem_entries.1 member, Option.map_some, Option.getD_some]

/-- Dictionaries with the same lookups have the same total. -/
theorem total_congr (weight : υ → Nat) {first second : Dict κ υ}
    (same : ∀ key, first.get? key = second.get? key) : first.total weight = second.total weight := by
  have sameKeys : first.keys.toFinset = second.keys.toFinset := by
    ext key
    rw [List.mem_toFinset, List.mem_toFinset, mem_keys, mem_keys, mem_iff_get?, mem_iff_get?, same]
  rw [total_eq_sum, total_eq_sum, sameKeys]
  exact Finset.sum_congr rfl fun key _ => by rw [same]

end Dict

end Agentfork

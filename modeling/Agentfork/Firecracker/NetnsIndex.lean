import Agentfork.Library.IndexPool
import Agentfork.Library.Transition
import Agentfork.Firecracker.Sandbox

/-! # The network index of a branch

Every branch of a networked sandbox has a /30 of its own, told by an index. The
index is in a file of the branch's directory, so that an adapter that starts
after a crash can mark the indices of the branches that are left as in use.

The calls are made one at a time, and the process may crash between any two of
their steps. A branch has a directory of its own, the files there can be read and
removed, and the digits of an index go to its file in one write. -/

namespace Agentfork.Firecracker

open Transition

/-- The /30 networks of an IPv4 subnet: `num_addresses // 4` -/
def subnetCapacity (prefixLength : Nat) : Nat := 2 ^ (32 - prefixLength) / 4

/-- Where the call in progress is. -/
inductive NetnsPhase where
  | idle
  /-- in `NetnsManager.setup` -/
  | allocate (branchId : BranchId)
  /-- the pool has no index left: a `RuntimeError` -/
  | exhausted (branchId : BranchId)
  | build (branchId : BranchId) (index : Nat)
  /-- in `_setup_netns`, with the index in `_netns_index` -/
  | openFile (branchId : BranchId) (index : Nat)
  | writeFile (branchId : BranchId) (index : Nat)
  | boot (branchId : BranchId)
  /-- at the start of `_teardown_netns` -/
  | unwind (branchId : BranchId)
  | release (branchId : BranchId) (index : Nat)
  | unlink (branchId : BranchId)
  /-- in `_cleanup_artifacts` -/
  | cleanup (branchId : BranchId)
  deriving DecidableEq, Repr

structure Host where
  /-- the bodies of the `netns.idx` files, `none` for one without an index -/
  journal : Dict BranchId (Option Nat)
  pool : IndexPool
  /-- `_netns_index` -/
  indices : Dict BranchId Nat
  /-- the branches in `_vms` -/
  vms : Finset BranchId
  /-- the branches whose index the adapter has found when it began; no step reads it -/
  survivors : Finset BranchId
  phase : NetnsPhase

inductive HostAction where
  | spawn (branchId : BranchId)
  /-- without a handle, a pid record that cannot be parsed makes `kill` raise -/
  | kill (branchId : BranchId) (parses : Bool)
  | proceed (succeeds : Bool)
  /-- the process crashes, and a new adapter lists the directories in this order -/
  | crash (listing : List BranchId)
  deriving DecidableEq, Repr

namespace Host

def start : Host := ⟨Dict.empty, .empty, Dict.empty, ∅, ∅, .idle⟩

/-- The index that the file of a branch holds. -/
def journaled (host : Host) (branchId : BranchId) : Option Nat := (host.journal.get? branchId).join

/-- `_recover_netns_indices` -/
def recover (listing : List BranchId) (host : Host) : Host :=
  { host with
    pool := (listing.filterMap host.journaled).foldl (fun pool index => pool.reserve index) .empty
    indices := Dict.empty
    vms := ∅
    survivors := (listing.filter fun branchId => (host.journaled branchId).isSome).toFinset
    phase := .idle }

/-- `NetnsManager.teardown`; its commands can not be made for an index beyond the subnet. -/
def teardown (capacity index : Nat) (pool : IndexPool) : Option IndexPool :=
  if index < capacity then some (pool.release index) else none

def proceed (capacity : Nat) (succeeds : Bool) (host : Host) : Option Host :=
  match host.phase with
  | .idle => none
  | .allocate branchId =>
    match host.pool.allocate capacity with
    | some (index, pool) => some { host with pool := pool, phase := .build branchId index }
    | none => some { host with phase := .exhausted branchId }
  | .exhausted branchId => some { host with phase := .unwind branchId }
  | .build branchId index =>
    if succeeds then
      some { host with indices := host.indices.insert branchId index, phase := .openFile branchId index }
    else
      -- `setup` takes down what it has built before the error goes on to `spawn`
      some { host with pool := (teardown capacity index host.pool).getD host.pool, phase := .unwind branchId }
  | .openFile branchId index =>
    -- an open for writing leaves an empty file until the digits are written
    if succeeds then
      some { host with journal := host.journal.insert branchId none, phase := .writeFile branchId index }
    else some { host with phase := .unwind branchId }
  | .writeFile branchId index =>
    if succeeds then
      some { host with journal := host.journal.insert branchId (some index), phase := .boot branchId }
    else some { host with phase := .unwind branchId }
  | .boot branchId =>
    if succeeds then some { host with vms := insert branchId host.vms, phase := .idle }
    else some { host with phase := .unwind branchId }
  | .unwind branchId =>
    match host.indices.get? branchId with
    | some index => some { host with indices := host.indices.erase branchId, phase := .release branchId index }
    | none =>
      match host.journaled branchId with
      | some index => some { host with phase := .release branchId index }
      | none => some { host with phase := .cleanup branchId }
  | .release branchId index =>
    match teardown capacity index host.pool with
    | some pool => some { host with pool := pool, phase := .unlink branchId }
    | none => some { host with phase := .idle }
  | .unlink branchId => some { host with journal := host.journal.erase branchId, phase := .cleanup branchId }
  | .cleanup branchId =>
    if succeeds then some { host with journal := host.journal.erase branchId, phase := .idle }
    else some { host with phase := .idle }

def step (capacity : Nat) (host : Host) : HostAction → Option Host
  | .spawn branchId =>
    if host.phase ≠ .idle then none
    else if branchId ∈ host.vms then some host
    else some { host with phase := .allocate branchId }
  | .kill branchId parses =>
    if host.phase ≠ .idle then none
    else if branchId ∉ host.vms ∧ parses = false then some host
    else some { host with vms := host.vms.erase branchId, phase := .unwind branchId }
  | .proceed succeeds => host.proceed capacity succeeds
  | .crash listing => if listing.Perm host.journal.keys then some (host.recover listing) else none

def Step (capacity : Nat) (before : Host) (action : HostAction) (after : Host) : Prop :=
  before.step capacity action = some after

/-- Nobody spawns a branch that an earlier process has left. -/
def SpawnsNew (host : Host) : HostAction → Prop
  | .spawn branchId => branchId ∈ host.vms ∨ host.journaled branchId = none
  | _ => True

instance (host : Host) (action : HostAction) : Decidable (host.SpawnsNew action) := by
  cases action <;> unfold SpawnsNew <;> infer_instance

/-! ## The journal -/

variable {capacity index : Nat} {branchId other : BranchId} {host after : Host}

theorem journaled_eq_some : host.journaled branchId = some index ↔ host.journal.get? branchId = some (some index) := by
  unfold journaled
  exact Option.join_eq_some_iff

/-! ## The books

Every index that the pool holds is in the hand of the call in progress or in a
file that is not about to be removed. -/

/-- The index that the call in progress has, and for whom. -/
def inHand (host : Host) : Option (BranchId × Nat) :=
  match host.phase with
  | .build branchId index | .openFile branchId index | .writeFile branchId index | .release branchId index =>
    some (branchId, index)
  | .unwind branchId => (host.indices.get? branchId).map fun index => (branchId, index)
  | _ => none

/-- The branch whose index is free though its file is still there. -/
def leaving (host : Host) : Option BranchId :=
  match host.phase with
  | .unlink branchId => some branchId
  | _ => none

end Host

structure Books (capacity : Nat) (pool : IndexPool) (journaled : BranchId → Option Nat)
    (inHand : Option (BranchId × Nat)) (leaving : Option BranchId) : Prop where
  wellFormed : pool.WellFormed capacity
  held : ∀ index, pool.Held index ↔
    (∃ branchId, inHand = some (branchId, index)) ∨
      ∃ branchId, journaled branchId = some index ∧ leaving ≠ some branchId
  distinct : ∀ first second index, journaled first = some index → journaled second = some index → first = second
  bounded : ∀ branchId index, journaled branchId = some index → index < capacity
  /-- the index in hand is in no file but that of its branch, which holds no other one -/
  ours : ∀ branchId index, inHand = some (branchId, index) → ∀ other stored, journaled other = some stored →
    (other = branchId ↔ stored = index)

namespace Books

variable {capacity index : Nat} {pool after : IndexPool} {journaled : BranchId → Option Nat} {branchId : BranchId}

theorem take (books : Books capacity pool journaled none none) (unrecorded : journaled branchId = none)
    (allocated : pool.allocate capacity = some (index, after)) :
    index < capacity ∧ Books capacity after journaled (some (branchId, index)) none := by
  obtain ⟨wellFormed, inside, notHeld, held⟩ := IndexPool.allocate_some books.wellFormed allocated
  have notStored : ∀ other, journaled other ≠ some index := fun other stored =>
    notHeld ((books.held index).2 (.inr ⟨other, stored, nofun⟩))
  refine ⟨inside, wellFormed, fun some => ?_, books.distinct, books.bounded, ?_⟩
  · rw [held, books.held]
    constructor
    · rintro (rfl | ⟨holder, nothing⟩ | stored)
      · exact .inl ⟨branchId, rfl⟩
      · cases nothing
      · exact .inr stored
    · rintro (⟨holder, same⟩ | stored)
      · cases same
        exact .inl rfl
      · exact .inr (.inr stored)
  · intro holder taken same other stored isStored
    cases same
    constructor
    · intro here
      rw [here, unrecorded] at isStored
      cases isStored
    · intro here
      exact absurd (here ▸ isStored) (notStored other)

theorem exhausted (books : Books capacity pool journaled none none) (exhausted : pool.allocate capacity = none)
    (inside : index < capacity) : ∃ branchId, journaled branchId = some index := by
  obtain ⟨holder, nothing⟩ | ⟨holder, stored, _⟩ := (books.held index).1 (IndexPool.allocate_none exhausted inside)
  · cases nothing
  · exact ⟨holder, stored⟩

theorem inside (books : Books capacity pool journaled (some (branchId, index)) none) : index < capacity :=
  Nat.lt_of_lt_of_le ((books.held index).2 (.inl ⟨branchId, rfl⟩)).1 books.wellFormed.bounded

theorem putBack (books : Books capacity pool journaled (some (branchId, index)) none) :
    Books capacity (pool.release index) journaled none (some branchId) := by
  have isHeld : pool.Held index := (books.held index).2 (.inl ⟨branchId, rfl⟩)
  obtain ⟨wellFormed, held⟩ := IndexPool.release_spec books.wellFormed isHeld
  refine ⟨wellFormed, fun other => ?_, books.distinct, books.bounded, fun _ _ nothing => nomatch nothing⟩
  rw [held, books.held]
  constructor
  · rintro ⟨⟨holder, same⟩ | ⟨holder, stored, _⟩, notIndex⟩
    · cases same
      exact absurd rfl notIndex
    · refine .inr ⟨holder, stored, fun same => notIndex ?_⟩
      cases same
      exact (books.ours branchId index rfl branchId other stored).1 rfl
  · rintro (⟨holder, nothing⟩ | ⟨holder, stored, notLeaving⟩)
    · cases nothing
    · refine ⟨.inr ⟨holder, stored, nofun⟩, fun same => notLeaving ?_⟩
      rw [(books.ours branchId index rfl holder other stored).2 same]

/-- Without a file there is nothing that leaves. -/
theorem forget (books : Books capacity pool journaled none (some branchId)) (unrecorded : journaled branchId = none) :
    Books capacity pool journaled none none := by
  refine ⟨books.wellFormed, fun index => ?_, books.distinct, books.bounded, fun _ _ nothing => nomatch nothing⟩
  rw [books.held]
  refine or_congr Iff.rfl (exists_congr fun holder => and_congr_right fun stored => ?_)
  refine ⟨fun _ => nofun, fun _ same => ?_⟩
  cases same
  rw [unrecorded] at stored
  cases stored

/-- A branch is asked for the index that it has. -/
theorem pickUp (books : Books capacity pool journaled none none) (stored : journaled branchId = some index) :
    Books capacity pool journaled (some (branchId, index)) none := by
  refine ⟨books.wellFormed, fun other => ?_, books.distinct, books.bounded, ?_⟩
  · rw [books.held]
    constructor
    · rintro (⟨holder, nothing⟩ | held)
      · cases nothing
      · exact .inr held
    · rintro (⟨holder, same⟩ | held)
      · cases same
        exact .inr ⟨branchId, stored, nofun⟩
      · exact .inr held
  · intro holder taken same other otherIndex otherStored
    cases same
    constructor
    · intro here
      rw [here, stored] at otherStored
      exact (Option.some.inj otherStored).symm
    · intro here
      exact books.distinct other branchId index (here ▸ otherStored) stored

theorem write (books : Books capacity pool journaled (some (branchId, index)) none) (inside : index < capacity) :
    Books capacity pool (Function.update journaled branchId (some index)) none none := by
  have stored : ∀ {other otherIndex}, Function.update journaled branchId (some index) other = some otherIndex ↔
      (other = branchId ∧ otherIndex = index) ∨ (other ≠ branchId ∧ journaled other = some otherIndex) := by
    intro other otherIndex
    by_cases here : other = branchId
    · subst here
      rw [Function.update_self, Option.some.injEq]
      simp [eq_comm]
    · rw [Function.update_of_ne here]
      simp [here]
  refine ⟨books.wellFormed, fun otherIndex => ?_, ?_, ?_, fun _ _ nothing => nomatch nothing⟩
  · rw [books.held]
    constructor
    · rintro (⟨holder, same⟩ | ⟨holder, isStored, _⟩)
      · cases same
        exact .inr ⟨branchId, stored.2 (.inl ⟨rfl, rfl⟩), nofun⟩
      · refine .inr ⟨holder, stored.2 ?_, nofun⟩
        by_cases here : holder = branchId
        · exact .inl ⟨here, (books.ours branchId index rfl holder otherIndex isStored).1 here⟩
        · exact .inr ⟨here, isStored⟩
    · rintro (⟨holder, nothing⟩ | ⟨holder, isStored, _⟩)
      · cases nothing
      · obtain ⟨_, same⟩ | ⟨_, before⟩ := stored.1 isStored
        · exact .inl ⟨branchId, by rw [same]⟩
        · exact .inr ⟨holder, before, nofun⟩
  · intro first second otherIndex firstStored secondStored
    obtain ⟨firstHere, firstIndex⟩ | ⟨firstElsewhere, firstBefore⟩ := stored.1 firstStored
    · obtain ⟨secondHere, _⟩ | ⟨secondElsewhere, secondBefore⟩ := stored.1 secondStored
      · exact firstHere.trans secondHere.symm
      · exact absurd ((books.ours branchId index rfl second otherIndex secondBefore).2 firstIndex) secondElsewhere
    · obtain ⟨_, secondIndex⟩ | ⟨_, secondBefore⟩ := stored.1 secondStored
      · exact absurd ((books.ours branchId index rfl first otherIndex firstBefore).2 secondIndex) firstElsewhere
      · exact books.distinct first second otherIndex firstBefore secondBefore
  · intro holder otherIndex isStored
    obtain ⟨_, same⟩ | ⟨_, before⟩ := stored.1 isStored
    · exact same ▸ inside
    · exact books.bounded holder otherIndex before

theorem remove (books : Books capacity pool journaled none (some branchId)) :
    Books capacity pool (Function.update journaled branchId none) none none := by
  have stored : ∀ {other otherIndex}, Function.update journaled branchId none other = some otherIndex ↔
      journaled other = some otherIndex ∧ some branchId ≠ some other := by
    intro other otherIndex
    by_cases here : other = branchId
    · subst here
      simp
    · rw [Function.update_of_ne here]
      simp [Ne.symm here]
  refine ⟨books.wellFormed, fun index => ?_, fun first second index firstStored secondStored => ?_,
    fun holder index isStored => ?_, fun _ _ nothing => nomatch nothing⟩
  · rw [books.held]
    refine or_congr Iff.rfl (exists_congr fun holder => ?_)
    rw [stored]
    exact ⟨fun kept => ⟨kept, nofun⟩, fun kept => kept.1⟩
  · exact books.distinct first second index (stored.1 firstStored).1 (stored.1 secondStored).1
  · exact books.bounded holder index (stored.1 isStored).1

/-- The files make up a pool whose books are in order, in whatever order they are read. -/
theorem recover {inHand : Option (BranchId × Nat)} {leaving : Option BranchId}
    (books : Books capacity pool journaled inHand leaving) {listing : List BranchId}
    (complete : ∀ branchId index, journaled branchId = some index → branchId ∈ listing) :
    Books capacity ((listing.filterMap journaled).foldl (fun pool index => pool.reserve index) .empty) journaled
      none none := by
  have inside : ∀ index ∈ listing.filterMap journaled, index < capacity := by
    intro index member
    obtain ⟨holder, _, stored⟩ := List.mem_filterMap.1 member
    exact books.bounded holder index stored
  obtain ⟨wellFormed, held⟩ := IndexPool.reserveAll_spec (IndexPool.wellFormed_empty capacity) inside
  refine ⟨wellFormed, fun index => ?_, books.distinct, books.bounded, fun _ _ nothing => nomatch nothing⟩
  rw [held, List.mem_filterMap]
  constructor
  · rintro (isHeld | ⟨holder, _, stored⟩)
    · exact absurd isHeld (IndexPool.not_held_empty index)
    · exact .inr ⟨holder, stored, nofun⟩
  · rintro (⟨holder, nothing⟩ | ⟨holder, stored, _⟩)
    · cases nothing
    · exact .inr ⟨holder, complete holder index stored, stored⟩

end Books

namespace Host

/-! ## The phases of a call -/

variable {capacity index : Nat} {branchId : BranchId} {host after : Host}

/-- The branch of the call in progress. -/
def busy (host : Host) : Option BranchId :=
  match host.phase with
  | .idle => none
  | .allocate branchId | .exhausted branchId | .build branchId _ | .openFile branchId _ | .writeFile branchId _
  | .boot branchId | .unwind branchId | .release branchId _ | .unlink branchId | .cleanup branchId => some branchId

/-- What the memory and the file of its branch say at each phase of a call. -/
def Stands (capacity : Nat) (host : Host) : Prop :=
  match host.phase with
  | .idle => True
  | .allocate branchId | .build branchId _ | .cleanup branchId =>
    host.journaled branchId = none ∧ host.indices.get? branchId = none
  | .exhausted branchId =>
    host.journaled branchId = none ∧ host.indices.get? branchId = none ∧ host.pool.allocate capacity = none
  | .openFile branchId index | .writeFile branchId index =>
    host.journaled branchId = none ∧ host.indices.get? branchId = some index
  | .boot branchId => ∃ index, host.journaled branchId = some index ∧ host.indices.get? branchId = some index
  | .unwind _ => True
  | .release branchId _ | .unlink branchId => host.indices.get? branchId = none

structure Sound (capacity : Nat) (host : Host) : Prop where
  books : Books capacity host.pool host.journaled host.inHand host.leaving
  stands : host.Stands capacity
  remembered : ∀ branchId index, host.indices.get? branchId = some index → host.busy ≠ some branchId →
    host.journaled branchId = some index
  known : ∀ branchId index, host.journaled branchId = some index →
    branchId ∈ host.vms ∨ branchId ∈ host.survivors ∨ host.busy = some branchId

theorem sound_start (capacity : Nat) : start.Sound capacity := by
  have unrecorded : ∀ {branchId index}, start.journaled branchId ≠ some index := nofun
  refine ⟨⟨IndexPool.wellFormed_empty capacity, fun index => ?_, fun _ _ _ stored => absurd stored unrecorded,
    fun _ _ stored => absurd stored unrecorded, fun _ _ nothing => nomatch nothing⟩, trivial,
    (fun _ _ stored => nomatch stored), fun _ _ stored => absurd stored unrecorded⟩
  refine iff_of_false (IndexPool.not_held_empty index) ?_
  rintro (⟨_, nothing⟩ | ⟨_, stored, _⟩)
  · cases nothing
  · exact unrecorded stored

theorem journaled_insert (host : Host) (body : Option Nat) :
    { host with journal := host.journal.insert branchId body }.journaled =
      Function.update host.journaled branchId body := by
  funext other
  unfold journaled
  by_cases here : other = branchId
  · subst here
    rw [Function.update_self, Dict.get?_insert, if_pos rfl]
    rfl
  · rw [Function.update_of_ne here, Dict.get?_insert, if_neg here]

theorem journaled_erase (host : Host) :
    { host with journal := host.journal.erase branchId }.journaled = Function.update host.journaled branchId none := by
  funext other
  unfold journaled
  by_cases here : other = branchId
  · subst here
    rw [Function.update_self, Dict.get?_erase, if_pos rfl]
    rfl
  · rw [Function.update_of_ne here, Dict.get?_erase, if_neg here]

namespace Sound

/-- A step of a call leaves other branches as they are. -/
theorem onward (sound : host.Sound capacity) (branchId : BranchId) (isBusy : host.busy = some branchId)
    (stillBusy : after.busy = some branchId)
    (files : ∀ other, other ≠ branchId → after.journaled other = host.journaled other)
    (memory : ∀ other, other ≠ branchId → after.indices.get? other = host.indices.get? other)
    (vms : after.vms = host.vms) (survivors : after.survivors = host.survivors)
    (books : Books capacity after.pool after.journaled after.inHand after.leaving) (stands : after.Stands capacity) :
    after.Sound capacity where
  books := books
  stands := stands
  remembered other index stored elsewhere := by
    have notHere : other ≠ branchId := fun here => elsewhere (here ▸ stillBusy)
    rw [memory other notHere] at stored
    rw [files other notHere]
    exact sound.remembered other index stored (by rw [isBusy]; exact fun same => notHere (Option.some.inj same).symm)
  known other index stored := by
    by_cases here : other = branchId
    · exact .inr (.inr (here ▸ stillBusy))
    · rw [files other here] at stored
      rw [vms, survivors, stillBusy, ← isBusy]
      exact sound.known other index stored

/-- What a step that is not the last one of a call comes to. -/
theorem proceed (sound : host.Sound capacity) {succeeds : Bool} (taken : host.proceed capacity succeeds = some after) :
    after.Sound capacity := by
  obtain ⟨journal, pool, indices, vms, survivors, phase⟩ := host
  have books := sound.books
  have stands := sound.stands
  cases phase with
  | idle => cases taken
  | allocate branchId =>
    unfold Host.proceed at taken
    simp only at taken
    split at taken
    · next index rest allocated =>
      cases taken
      exact sound.onward branchId rfl rfl (fun _ _ => rfl) (fun _ _ => rfl) rfl rfl
        (books.take stands.1 allocated).2 stands
    · next noneLeft =>
      cases taken
      exact sound.onward branchId rfl rfl (fun _ _ => rfl) (fun _ _ => rfl) rfl rfl books
        ⟨stands.1, stands.2, noneLeft⟩
  | exhausted branchId =>
    cases taken
    refine sound.onward branchId rfl rfl (fun _ _ => rfl) (fun _ _ => rfl) rfl rfl ?_ trivial
    unfold inHand
    simp only [stands.2.1, Option.map_none]
    exact books
  | build branchId index =>
    cases succeeds with
    | true =>
      cases taken
      refine sound.onward branchId rfl rfl (fun _ _ => rfl) (fun other elsewhere => ?_) rfl rfl books ⟨stands.1, ?_⟩
      · rw [Dict.get?_insert, if_neg elsewhere]
      · rw [Dict.get?_insert, if_pos rfl]
    | false =>
      have inside : index < capacity := books.inside
      cases taken
      refine sound.onward branchId rfl rfl (fun _ _ => rfl) (fun _ _ => rfl) rfl rfl ?_ trivial
      unfold teardown inHand
      simp only [if_pos inside, Option.getD_some, stands.2, Option.map_none]
      exact books.putBack.forget stands.1
  | openFile branchId index =>
    cases succeeds with
    | true =>
      cases taken
      have same : Host.journaled ⟨journal.insert branchId none, pool, indices, vms, survivors, .writeFile branchId index⟩ =
          Host.journaled ⟨journal, pool, indices, vms, survivors, .openFile branchId index⟩ := by
        rw [← Function.update_eq_self branchId (Host.journaled ⟨journal, _, _, _, _, _⟩), stands.1]
        exact journaled_insert ⟨journal, pool, indices, vms, survivors, .openFile branchId index⟩ none
      refine sound.onward branchId rfl rfl (fun other _ => congrFun same other) (fun _ _ => rfl) rfl rfl
        (by rw [same]; exact books) ⟨by rw [same]; exact stands.1, stands.2⟩
    | false =>
      cases taken
      refine sound.onward branchId rfl rfl (fun _ _ => rfl) (fun _ _ => rfl) rfl rfl ?_ trivial
      unfold inHand
      simp only [stands.2, Option.map_some]
      exact books
  | writeFile branchId index =>
    cases succeeds with
    | true =>
      have inside : index < capacity := books.inside
      cases taken
      have written : Host.journaled ⟨journal.insert branchId (some index), pool, indices, vms, survivors, .boot branchId⟩ =
          Function.update (Host.journaled ⟨journal, pool, indices, vms, survivors, .writeFile branchId index⟩) branchId
            (some index) := journaled_insert ⟨journal, pool, indices, vms, survivors, .writeFile branchId index⟩ (some index)
      refine sound.onward branchId rfl rfl (fun other elsewhere => ?_) (fun _ _ => rfl) rfl rfl
        (by rw [written]; exact books.write inside) ⟨index, by rw [written, Function.update_self], stands.2⟩
      rw [written, Function.update_of_ne elsewhere]
    | false =>
      cases taken
      refine sound.onward branchId rfl rfl (fun _ _ => rfl) (fun _ _ => rfl) rfl rfl ?_ trivial
      unfold inHand
      simp only [stands.2, Option.map_some]
      exact books
  | boot branchId =>
    obtain ⟨index, stored, remembers⟩ := stands
    cases succeeds with
    | true =>
      cases taken
      refine ⟨books, trivial, fun other otherIndex isRemembered _ => ?_, fun other otherIndex isStored => ?_⟩
      · by_cases here : other = branchId
        · subst here
          exact (Option.some.inj (remembers.symm.trans isRemembered)) ▸ stored
        · exact sound.remembered other otherIndex isRemembered fun same => here (Option.some.inj same).symm
      · obtain inVms | survives | isBusy := sound.known other otherIndex isStored
        · exact .inl (Finset.mem_insert_of_mem inVms)
        · exact .inr (.inl survives)
        · exact .inl (Finset.mem_insert.2 (.inl (Option.some.inj isBusy).symm))
    | false =>
      cases taken
      refine sound.onward branchId rfl rfl (fun _ _ => rfl) (fun _ _ => rfl) rfl rfl ?_ trivial
      unfold inHand
      simp only [remembers, Option.map_some]
      exact books.pickUp stored
  | unwind branchId =>
    unfold Host.proceed at taken
    unfold inHand at books
    cases remembers : indices.get? branchId with
    | some index =>
      simp only [remembers, Option.map_some] at taken books
      cases taken
      refine sound.onward branchId rfl rfl (fun _ _ => rfl) (fun other elsewhere => ?_) rfl rfl books ?_
      · rw [Dict.get?_erase, if_neg elsewhere]
      · exact (Dict.get?_erase _ _ _).trans (if_pos rfl)
    | none =>
      simp only [remembers, Option.map_none] at taken books
      split at taken
      · next index stored =>
        cases taken
        exact sound.onward branchId rfl rfl (fun _ _ => rfl) (fun _ _ => rfl) rfl rfl (books.pickUp stored) remembers
      · next unrecorded =>
        cases taken
        exact sound.onward branchId rfl rfl (fun _ _ => rfl) (fun _ _ => rfl) rfl rfl books ⟨unrecorded, remembers⟩
  | release branchId index =>
    unfold Host.proceed teardown at taken
    simp only [if_pos (show index < capacity from books.inside)] at taken
    cases taken
    exact sound.onward branchId rfl rfl (fun _ _ => rfl) (fun _ _ => rfl) rfl rfl books.putBack stands
  | unlink branchId =>
    cases taken
    have removed : Host.journaled ⟨journal.erase branchId, pool, indices, vms, survivors, .cleanup branchId⟩ =
        Function.update (Host.journaled ⟨journal, pool, indices, vms, survivors, .unlink branchId⟩) branchId none :=
      journaled_erase ⟨journal, pool, indices, vms, survivors, .unlink branchId⟩
    refine sound.onward branchId rfl rfl (fun other elsewhere => ?_) (fun _ _ => rfl) rfl rfl
      (by rw [removed]; exact books.remove) ⟨by rw [removed, Function.update_self], stands⟩
    rw [removed, Function.update_of_ne elsewhere]
  | cleanup branchId =>
    have finished : ∀ journal', Host.journaled ⟨journal', pool, indices, vms, survivors, .idle⟩ =
        Host.journaled ⟨journal, pool, indices, vms, survivors, .cleanup branchId⟩ →
          Host.Sound capacity ⟨journal', pool, indices, vms, survivors, .idle⟩ := by
      intro journal' same
      refine ⟨by rw [same]; exact books, trivial, fun other index remembers _ => ?_, fun other index stored => ?_⟩
      · rw [same]
        refine sound.remembered other index remembers fun here => ?_
        cases here
        exact Option.some_ne_none index (remembers.symm.trans stands.2)
      · rw [same] at stored
        obtain inVms | survives | isBusy := sound.known other index stored
        · exact .inl inVms
        · exact .inr (.inl survives)
        · cases isBusy
          exact absurd (stored.symm.trans stands.1) (Option.some_ne_none index)
    cases succeeds with
    | true =>
      cases taken
      refine finished _ ?_
      rw [← Function.update_eq_self branchId (Host.journaled ⟨journal, _, _, _, _, _⟩), stands.1]
      exact journaled_erase ⟨journal, pool, indices, vms, survivors, .cleanup branchId⟩
    | false =>
      cases taken
      exact finished journal rfl

theorem spawn (sound : host.Sound capacity) (isIdle : host.phase = .idle) (unrecorded : host.journaled branchId = none) :
    { host with phase := .allocate branchId }.Sound capacity := by
  obtain ⟨journal, pool, indices, vms, survivors, phase⟩ := host
  cases isIdle
  have forgotten : indices.get? branchId = none := by
    cases remembers : indices.get? branchId with
    | none => rfl
    | some index =>
      have stored := sound.remembered branchId index remembers nofun
      rw [unrecorded] at stored
      cases stored
  refine ⟨sound.books, ⟨unrecorded, forgotten⟩, fun other index remembers _ => ?_, fun other index stored => ?_⟩
  · exact sound.remembered other index remembers nofun
  · obtain inVms | survives | isBusy := sound.known other index stored
    · exact .inl inVms
    · exact .inr (.inl survives)
    · cases isBusy

theorem kill (sound : host.Sound capacity) (isIdle : host.phase = .idle) :
    { host with vms := host.vms.erase branchId, phase := .unwind branchId }.Sound capacity := by
  obtain ⟨journal, pool, indices, vms, survivors, phase⟩ := host
  cases isIdle
  refine ⟨?_, trivial, fun other index remembers _ => ?_, fun other index stored => ?_⟩
  · unfold inHand
    cases remembers : indices.get? branchId with
    | none =>
      simp only [remembers, Option.map_none]
      exact sound.books
    | some index =>
      simp only [remembers, Option.map_some]
      exact sound.books.pickUp (sound.remembered branchId index remembers nofun)
  · exact sound.remembered other index remembers nofun
  · by_cases here : other = branchId
    · exact .inr (.inr (congrArg some here.symm))
    · obtain inVms | survives | isBusy := sound.known other index stored
      · exact .inl (Finset.mem_erase.2 ⟨here, inVms⟩)
      · exact .inr (.inl survives)
      · cases isBusy

theorem crash (sound : host.Sound capacity) {listing : List BranchId} (complete : listing.Perm host.journal.keys) :
    (host.recover listing).Sound capacity := by
  have listed : ∀ branchId index, host.journaled branchId = some index → branchId ∈ listing := fun branchId index stored =>
    complete.mem_iff.2 (Dict.mem_keys.2 (Dict.mem_of_get? (journaled_eq_some.1 stored)))
  refine ⟨sound.books.recover listed, trivial, (fun _ _ remembers _ => nomatch remembers),
    fun branchId index stored => .inr (.inl ?_)⟩
  change host.journaled branchId = some index at stored
  unfold recover
  rw [List.mem_toFinset, List.mem_filter, stored]
  exact ⟨listed branchId index stored, rfl⟩

theorem step (sound : host.Sound capacity) {action : HostAction} (allowed : host.SpawnsNew action)
    (taken : host.Step capacity action after) : after.Sound capacity := by
  unfold Step Host.step at taken
  cases action with
  | spawn branchId =>
    simp only at taken
    split at taken
    · cases taken
    · next isIdle =>
      split at taken
      · cases taken
        exact sound
      · next notInVms =>
        cases taken
        exact sound.spawn (not_not.1 isIdle) (allowed.resolve_left notInVms)
  | kill branchId parses =>
    simp only at taken
    split at taken
    · cases taken
    · next isIdle =>
      split at taken
      · cases taken
        exact sound
      · cases taken
        exact sound.kill (not_not.1 isIdle)
  | proceed succeeds => exact sound.proceed taken
  | crash listing =>
    simp only at taken
    split at taken
    · next complete =>
      cases taken
      exact sound.crash complete
    · cases taken

end Sound

/-! ## The file of a branch that is not killed -/

/-- A step of a call keeps the files of the other branches. -/
theorem proceed_elsewhere {succeeds : Bool} (elsewhere : host.busy ≠ some branchId)
    (taken : host.proceed capacity succeeds = some after) :
    after.journaled branchId = host.journaled branchId ∧ after.busy ≠ some branchId := by
  obtain ⟨journal, pool, indices, vms, survivors, phase⟩ := host
  have otherBranch : ∀ {other}, busy ⟨journal, pool, indices, vms, survivors, phase⟩ = some other → branchId ≠ other :=
    fun isBusy here => elsewhere (here ▸ isBusy)
  have inserted : ∀ {other} body phase', branchId ≠ other →
      journaled ⟨journal.insert other body, pool, indices, vms, survivors, phase'⟩ branchId =
        journaled ⟨journal, pool, indices, vms, survivors, phase⟩ branchId := by
    intro other body phase' notHere
    unfold journaled
    rw [Dict.get?_insert, if_neg notHere]
  have erased : ∀ {other} phase', branchId ≠ other →
      journaled ⟨journal.erase other, pool, indices, vms, survivors, phase'⟩ branchId =
        journaled ⟨journal, pool, indices, vms, survivors, phase⟩ branchId := by
    intro other phase' notHere
    unfold journaled
    rw [Dict.get?_erase, if_neg notHere]
  cases phase with
  | idle => cases taken
  | allocate other =>
    unfold Host.proceed at taken
    simp only at taken
    split at taken <;> cases taken <;> exact ⟨rfl, elsewhere⟩
  | exhausted other =>
    cases taken
    exact ⟨rfl, elsewhere⟩
  | build other index => cases succeeds <;> cases taken <;> exact ⟨rfl, elsewhere⟩
  | openFile other index =>
    cases succeeds with
    | true =>
      cases taken
      exact ⟨inserted none _ (otherBranch rfl), elsewhere⟩
    | false =>
      cases taken
      exact ⟨rfl, elsewhere⟩
  | writeFile other index =>
    cases succeeds with
    | true =>
      cases taken
      exact ⟨inserted (some index) _ (otherBranch rfl), elsewhere⟩
    | false =>
      cases taken
      exact ⟨rfl, elsewhere⟩
  | boot other =>
    cases succeeds with
    | true =>
      cases taken
      exact ⟨rfl, nofun⟩
    | false =>
      cases taken
      exact ⟨rfl, elsewhere⟩
  | unwind other =>
    unfold Host.proceed at taken
    simp only at taken
    split at taken
    · cases taken
      exact ⟨rfl, elsewhere⟩
    · split at taken <;> cases taken <;> exact ⟨rfl, elsewhere⟩
  | release other index =>
    unfold Host.proceed at taken
    simp only at taken
    split at taken
    · cases taken
      exact ⟨rfl, elsewhere⟩
    · cases taken
      exact ⟨rfl, nofun⟩
  | unlink other =>
    cases taken
    exact ⟨erased _ (otherBranch rfl), elsewhere⟩
  | cleanup other =>
    cases succeeds with
    | true =>
      cases taken
      exact ⟨erased _ (otherBranch rfl), nofun⟩
    | false =>
      cases taken
      exact ⟨rfl, nofun⟩

/-- Nobody kills this branch. -/
def LeavesAlone (branchId : BranchId) (host : Host) (action : HostAction) : Prop :=
  host.SpawnsNew action ∧ ∀ parses, action ≠ .kill branchId parses

/-- The branch has its index on file, and no call is about it. -/
def Keeps (branchId : BranchId) (index : Nat) (host : Host) : Prop :=
  host.journaled branchId = some index ∧ host.busy ≠ some branchId

theorem Keeps.step (keeps : host.Keeps branchId index) {action : HostAction} (allowed : host.LeavesAlone branchId action)
    (taken : host.Step capacity action after) : after.Keeps branchId index := by
  obtain ⟨stored, elsewhere⟩ := keeps
  unfold Step Host.step at taken
  cases action with
  | spawn other =>
    simp only at taken
    split at taken
    · cases taken
    · split at taken
      · cases taken
        exact ⟨stored, elsewhere⟩
      · next notInVms =>
        cases taken
        refine ⟨stored, fun here => ?_⟩
        cases here
        have unrecorded := allowed.1.resolve_left notInVms
        rw [stored] at unrecorded
        cases unrecorded
  | kill other parses =>
    simp only at taken
    split at taken
    · cases taken
    · split at taken
      · cases taken
        exact ⟨stored, elsewhere⟩
      · cases taken
        refine ⟨stored, fun here => ?_⟩
        cases here
        exact allowed.2 parses rfl
  | proceed succeeds =>
    obtain ⟨sameFile, stillElsewhere⟩ := proceed_elsewhere elsewhere taken
    exact ⟨sameFile.trans stored, stillElsewhere⟩
  | crash listing =>
    simp only at taken
    split at taken
    · cases taken
      exact ⟨stored, nofun⟩
    · cases taken

/-- Whatever calls are made and wherever the process crashes: no two files hold one
index; an index that is handed out is one of the subnet's, and in no file; the pool
is exhausted only when all indices of the subnet are in files of branches that are
there; and a branch that was there at a crash has its index until it is killed. -/
theorem indices_exclusive (prefixLength : Nat)
    (reached : Reachable (Step (subnetCapacity prefixLength)) SpawnsNew start host) :
    (∀ first second index, host.journaled first = some index → host.journaled second = some index → first = second) ∧
    (∀ branchId index, host.phase = .build branchId index →
      index < subnetCapacity prefixLength ∧ ∀ other, host.journaled other ≠ some index) ∧
    (∀ branchId, host.phase = .exhausted branchId → ∀ index < subnetCapacity prefixLength,
      ∃ holder ∈ host.vms ∪ host.survivors, host.journaled holder = some index) ∧
    ∀ listing branchId index later, listing.Perm host.journal.keys → host.journaled branchId = some index →
      Reachable (Step (subnetCapacity prefixLength)) (LeavesAlone branchId) (host.recover listing) later →
        later.journaled branchId = some index := by
  have sound : host.Sound (subnetCapacity prefixLength) := by
    refine reached.invariant (sound_start _) ?_
    exact fun before action after sound allowed taken => sound.step allowed taken
  refine ⟨sound.books.distinct, ?_, ?_, ?_⟩
  · intro branchId index building
    have books := sound.books
    have stands := sound.stands
    unfold inHand leaving at books
    unfold Stands at stands
    simp only [building] at books stands
    refine ⟨books.inside, fun other stored => ?_⟩
    have here := (books.ours branchId index rfl other index stored).2 rfl
    rw [here, stands.1] at stored
    cases stored
  · intro branchId isExhausted index inside
    have books := sound.books
    have stands := sound.stands
    unfold inHand leaving at books
    unfold Stands at stands
    simp only [isExhausted] at books stands
    obtain ⟨holder, stored⟩ := books.exhausted stands.2.2 inside
    refine ⟨holder, Finset.mem_union.2 ?_, stored⟩
    obtain inVms | survives | isBusy := sound.known holder index stored
    · exact .inl inVms
    · exact .inr survives
    · unfold busy at isBusy
      simp only [isExhausted] at isBusy
      cases isBusy
      rw [stands.1] at stored
      cases stored
  · intro listing branchId index later _ stored onward
    have keeps : later.Keeps branchId index := by
      refine onward.invariant ⟨stored, nofun⟩ ?_
      exact fun before action after keeps allowed taken => keeps.step allowed taken
    exact keeps.1

/-- A subnet with one /30: a branch survives a crash, and another one finds the pool exhausted. -/
def soloSubnetRun : Host :=
  runFrom (step (subnetCapacity 30)) start
    [.spawn "a", .proceed true, .proceed true, .proceed true, .proceed true, .proceed true, .crash ["a"],
      .spawn "b", .proceed true]

theorem soloSubnetRun_exhausted : soloSubnetRun.phase = .exhausted "b" ∧
    ∃ holder ∈ soloSubnetRun.vms ∪ soloSubnetRun.survivors, soloSubnetRun.journaled holder = some 0 := by
  have reached : Reachable (Step (subnetCapacity 30)) SpawnsNew start soloSubnetRun :=
    reachable_runFrom (by decide) (by decide)
  exact ⟨by decide, (indices_exclusive 30 reached).2.2.1 "b" (by decide) 0 (by decide)⟩

end Host

end Agentfork.Firecracker

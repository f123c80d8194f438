import Mathlib.Logic.Function.Basic
import Agentfork.Library.Dict

/-! # Files, inodes and links

A disk maps paths to inodes and inodes to contents. A write to a path that exists
overwrites its inode in place; a removal takes the path alone, so whoever has the
inode open, or a hard link to it, keeps what it held. Two paths never share an
inode here: hard links are handles.

A handle remembers where it comes from: the path, and how often that path had been
removed when the inode was taken from it. As long as nobody removes the path
again, a write to it reaches the handle, and no other write ever does. -/

namespace Agentfork

structure Disk (κ ι : Type) [DecidableEq κ] where
  inodes : Dict κ Nat
  contents : Nat → ι
  /-- the number of inodes made so far -/
  made : Nat
  /-- how often each path has been removed -/
  removals : κ → Nat
  fresh : ∀ path inode, inodes.get? path = some inode → inode < made
  apart : ∀ path other inode, inodes.get? path = some inode → inodes.get? other = some inode → path = other

/-- An inode that is open or linked; the origin of a copy is none. -/
structure Handle (κ : Type) where
  inode : Nat
  origin : Option (κ × Nat)
  deriving DecidableEq, Repr

namespace Disk

variable {κ ι : Type} [DecidableEq κ]

def inode? (disk : Disk κ ι) (path : κ) : Option Nat := disk.inodes.get? path

/-- The handle to what the path names now. -/
def lookup (disk : Disk κ ι) (path : κ) : Option (Handle κ) :=
  (disk.inode? path).map fun inode => ⟨inode, some (path, disk.removals path)⟩

def read (disk : Disk κ ι) (handle : Handle κ) : ι := disk.contents handle.inode

/-- Overwrite the file at the path in place, or create it. -/
def write (disk : Disk κ ι) (path : κ) (content : ι) : Disk κ ι :=
  match found : disk.inodes.get? path with
  | some inode => { disk with contents := Function.update disk.contents inode content }
  | none => { disk with
      inodes := disk.inodes.insert path disk.made
      contents := Function.update disk.contents disk.made content
      made := disk.made + 1
      fresh := fun other inode stored => by
        rw [Dict.get?_insert] at stored
        split at stored
        · cases stored
          exact Nat.lt_succ_self _
        · exact Nat.lt_succ_of_lt (disk.fresh other inode stored)
      apart := fun first second inode firstStored secondStored => by
        rw [Dict.get?_insert] at firstStored secondStored
        split at firstStored <;> split at secondStored
        · next firstHere secondHere => rw [firstHere, secondHere]
        · cases firstStored
          exact absurd (disk.fresh second _ secondStored) (Nat.lt_irrefl _)
        · cases secondStored
          exact absurd (disk.fresh first _ firstStored) (Nat.lt_irrefl _)
        · exact disk.apart first second inode firstStored secondStored }

def remove (disk : Disk κ ι) (path : κ) : Disk κ ι :=
  { disk with
    inodes := disk.inodes.erase path
    removals := Function.update disk.removals path (disk.removals path + 1)
    fresh := fun other inode stored => by
      rw [Dict.get?_erase] at stored
      split at stored
      · cases stored
      · exact disk.fresh other inode stored
    apart := fun first second inode firstStored secondStored => by
      rw [Dict.get?_erase] at firstStored secondStored
      split at firstStored
      · cases firstStored
      · split at secondStored
        · cases secondStored
        · exact disk.apart first second inode firstStored secondStored }

/-- Copy what the handle holds to an inode of its own. -/
def copy (disk : Disk κ ι) (handle : Handle κ) : Handle κ × Disk κ ι :=
  (⟨disk.made, none⟩, { disk with
    contents := Function.update disk.contents disk.made (disk.read handle)
    made := disk.made + 1
    fresh := fun path inode stored => Nat.lt_succ_of_lt (disk.fresh path inode stored) })

/-- The path that the handle comes from, unless it was removed since, and no other
still names the inode. -/
structure Follows (disk : Disk κ ι) (handle : Handle κ) : Prop where
  made : handle.inode < disk.made
  origin : ∀ path, disk.inode? path = some handle.inode → handle.origin = some (path, disk.removals path)
  named : ∀ path count, handle.origin = some (path, count) → count ≤ disk.removals path ∧
    (count = disk.removals path → disk.inode? path = some handle.inode)

variable {disk : Disk κ ι} {handle other : Handle κ} {path : κ} {content : ι}

theorem lookup_some (found : disk.lookup path = some handle) :
    disk.inode? path = some handle.inode ∧ handle.origin = some (path, disk.removals path) := by
  obtain ⟨inode, isInode, rfl⟩ := Option.map_eq_some_iff.1 found
  exact ⟨isInode, rfl⟩

theorem lookup_of_inode {inode : Nat} (found : disk.inode? path = some inode) :
    disk.lookup path = some ⟨inode, some (path, disk.removals path)⟩ := by
  rw [lookup, found, Option.map_some]

theorem Follows.of_lookup (found : disk.lookup path = some handle) : disk.Follows handle := by
  obtain ⟨isInode, isOrigin⟩ := lookup_some found
  refine ⟨disk.fresh path _ isInode, fun other stored => ?_, fun other count isOther => ?_⟩
  · have same : path = other := disk.apart path other _ isInode stored
    rw [isOrigin, same]
  · rw [isOrigin] at isOther
    cases isOther
    exact ⟨Nat.le_refl _, fun _ => isInode⟩

/-! ## Writes -/

theorem write_some {inode : Nat} (found : disk.inode? path = some inode) :
    disk.write path content =
      { disk with contents := Function.update disk.contents inode content } := by
  unfold write
  split
  · next stored =>
    cases stored.symm.trans found
    rfl
  · next absent =>
    cases absent.symm.trans found

theorem write_removals : (disk.write path content).removals = disk.removals := by
  unfold write
  split <;> rfl

theorem made_le_write : disk.made ≤ (disk.write path content).made := by
  unfold write
  split
  · exact Nat.le_refl _
  · exact Nat.le_succ _

/-- A write creates at most the file it writes. -/
theorem inode?_write (disk : Disk κ ι) (path : κ) (content : ι) (other : κ) : (disk.write path content).inode? other = disk.inode? other ∨
    other = path ∧ disk.inode? path = none ∧ (disk.write path content).inode? path = some disk.made := by
  unfold write
  split
  · exact .inl rfl
  · next absent =>
    by_cases here : other = path
    · exact .inr ⟨here, absent, by simp [inode?]⟩
    · exact .inl (by simp [inode?, here])

/-- After a write the path names a file that holds what was written. -/
theorem write_here (disk : Disk κ ι) (path : κ) (content : ι) : ∃ inode, (disk.write path content).inode? path = some inode ∧
    (disk.write path content).contents inode = content := by
  unfold write
  split
  · next inode stored => exact ⟨inode, stored, Function.update_self ..⟩
  · exact ⟨disk.made, by simp [inode?], Function.update_self ..⟩

theorem write_contents {inode : Nat} (bound : inode < disk.made)
    (differs : disk.inode? path ≠ some inode) :
    (disk.write path content).contents inode = disk.contents inode := by
  unfold write
  split
  · next found stored =>
    refine Function.update_of_ne ?_ _ _
    intro same
    exact differs (same ▸ stored)
  · exact Function.update_of_ne (Nat.ne_of_lt bound) _ _

theorem Follows.write (follows : disk.Follows handle) : (disk.write path content).Follows handle := by
  refine ⟨Nat.lt_of_lt_of_le follows.made made_le_write, fun other stored => ?_, fun other count isOther => ?_⟩
  · rw [write_removals]
    obtain same | ⟨rfl, _, created⟩ := inode?_write disk path content other
    · exact follows.origin other (same ▸ stored)
    · have isNew : handle.inode = disk.made := Option.some.inj (stored.symm.trans created)
      exact absurd follows.made (isNew ▸ Nat.lt_irrefl _)
  · rw [write_removals]
    obtain ⟨bound, isNamed⟩ := follows.named other count isOther
    refine ⟨bound, fun current => ?_⟩
    obtain same | ⟨rfl, absent, _⟩ := inode?_write disk path content other
    · rw [same]
      exact isNamed current
    · cases absent.symm.trans (isNamed current)

/-- A write reaches no handle but those from its path. -/
theorem Follows.read_write (follows : disk.Follows handle)
    (differs : handle.origin ≠ some (path, disk.removals path)) :
    (disk.write path content).read handle = disk.read handle :=
  write_contents follows.made fun stored => differs (follows.origin path stored)

/-! ## Removals and copies -/

theorem inode?_remove (other : κ) :
    (disk.remove path).inode? other = if other = path then none else disk.inode? other :=
  Dict.get?_erase disk.inodes path other

theorem removals_remove (other : κ) :
    (disk.remove path).removals other = if other = path then disk.removals path + 1 else disk.removals other :=
  Function.update_apply ..

@[simp] theorem read_remove : (disk.remove path).read handle = disk.read handle := rfl

theorem Follows.remove (follows : disk.Follows handle) : (disk.remove path).Follows handle := by
  refine ⟨follows.made, fun other stored => ?_, fun other count isOther => ?_⟩
  · rw [inode?_remove] at stored
    split at stored
    · cases stored
    · next differs =>
      rw [removals_remove, if_neg differs]
      exact follows.origin other stored
  · obtain ⟨bound, isNamed⟩ := follows.named other count isOther
    rw [removals_remove, inode?_remove]
    split
    · next here =>
      subst here
      exact ⟨Nat.le_succ_of_le bound, fun current => absurd bound (current ▸ Nat.not_succ_le_self _)⟩
    · exact ⟨bound, isNamed⟩

@[simp] theorem inode?_copy (other : κ) : (disk.copy handle).2.inode? other = disk.inode? other := rfl

@[simp] theorem copy_removals : (disk.copy handle).2.removals = disk.removals := rfl

theorem read_copy (follows : disk.Follows other) :
    (disk.copy handle).2.read other = disk.read other :=
  Function.update_of_ne (Nat.ne_of_lt follows.made) _ _

/-- The copy holds what was copied. -/
theorem read_copied : (disk.copy handle).2.read (disk.copy handle).1 = disk.read handle :=
  Function.update_self ..

theorem Follows.copy (follows : disk.Follows other) : (disk.copy handle).2.Follows other :=
  ⟨Nat.lt_succ_of_lt follows.made, follows.origin, follows.named⟩

theorem Follows.copied : (disk.copy handle).2.Follows (disk.copy handle).1 := by
  refine ⟨Nat.lt_succ_self _, fun path stored => ?_, fun _ _ isOther => by cases isOther⟩
  exact absurd (disk.fresh path _ stored) (Nat.lt_irrefl _)

/-! ## Handles from a path -/

/-- The handle was taken from the path, or is a copy. -/
structure Opened (disk : Disk κ ι) (path : κ) (handle : Handle κ) : Prop where
  follows : disk.Follows handle
  origin : ∀ source, handle.origin = some source → source.1 = path

theorem Opened.of_lookup (found : disk.lookup path = some handle) : disk.Opened path handle := by
  refine ⟨.of_lookup found, fun source isSource => ?_⟩
  rw [(lookup_some found).2] at isSource
  cases isSource
  rfl

theorem Opened.copied : (disk.copy handle).2.Opened path (disk.copy handle).1 :=
  ⟨.copied, fun _ isSource => by cases isSource⟩

/-! ## Changes

What a handle, or a path, may see of several operations that write one content. -/

structure Changes (before after : Disk κ ι) (touched : κ → Prop) (content : ι) : Prop where
  follows : ∀ handle, before.Follows handle → after.Follows handle
  read : ∀ handle, before.Follows handle → after.read handle = before.read handle ∨
    after.read handle = content ∧ ∃ path, touched path ∧ handle.origin = some (path, before.removals path)
  named : ∀ path inode, after.inode? path = some inode →
    before.inode? path = some inode ∧ after.contents inode = before.contents inode ∨
      touched path ∧ after.contents inode = content

namespace Changes

variable {before middle after : Disk κ ι} {touched : κ → Prop}

theorem refl (disk : Disk κ ι) : disk.Changes disk touched content :=
  ⟨fun _ follows => follows, fun _ _ => .inl rfl, fun _ _ stored => .inl ⟨stored, rfl⟩⟩

theorem opened (changes : before.Changes after touched content) (opened : before.Opened path handle) :
    after.Opened path handle :=
  ⟨changes.follows handle opened.follows, opened.origin⟩

theorem weaken {wider : κ → Prop} (changes : before.Changes after touched content)
    (implied : ∀ path, touched path → wider path) : before.Changes after wider content := by
  refine ⟨changes.follows, fun handle follows => ?_, fun path inode stored => ?_⟩
  · obtain same | ⟨written, path, isTouched, isOrigin⟩ := changes.read handle follows
    · exact .inl same
    · exact .inr ⟨written, path, implied path isTouched, isOrigin⟩
  · obtain same | ⟨isTouched, written⟩ := changes.named path inode stored
    · exact .inl same
    · exact .inr ⟨implied path isTouched, written⟩

theorem trans (first : before.Changes middle touched content) (second : middle.Changes after touched content)
    (kept : ∀ path, touched path → middle.removals path = before.removals path) :
    before.Changes after touched content := by
  refine ⟨fun handle follows => second.follows handle (first.follows handle follows), ?_, ?_⟩
  · intro handle follows
    obtain same | ⟨written, path, isTouched, isOrigin⟩ := second.read handle (first.follows handle follows)
    · rw [same]
      exact first.read handle follows
    · rw [kept path isTouched] at isOrigin
      exact .inr ⟨written, path, isTouched, isOrigin⟩
  · intro path inode stored
    obtain ⟨stored, same⟩ | written := second.named path inode stored
    · rw [same]
      exact first.named path inode stored
    · exact .inr written

theorem write (isTouched : touched path) : disk.Changes (disk.write path content) touched content := by
  refine ⟨fun handle follows => follows.write, fun handle follows => ?_, fun other inode stored => ?_⟩
  · by_cases same : handle.origin = some (path, disk.removals path)
    · by_cases here : disk.inode? path = some handle.inode
      · have overwritten : (disk.write path content).read handle = content := by
          rw [write_some here]
          exact Function.update_self ..
        exact .inr ⟨overwritten, path, isTouched, same⟩
      · exact .inl (write_contents follows.made here)
    · exact .inl (follows.read_write same)
  · by_cases here : other = path
    · subst here
      obtain ⟨found, isFound, written⟩ := write_here disk other content
      have same : found = inode := Option.some.inj (isFound.symm.trans stored)
      exact .inr ⟨isTouched, same ▸ written⟩
    · obtain same | ⟨isPath, _⟩ := inode?_write disk path content other
      · rw [same] at stored
        refine .inl ⟨stored, write_contents (disk.fresh other inode stored) fun atPath => ?_⟩
        exact here (disk.apart other path inode stored atPath)
      · exact absurd isPath here

theorem remove : disk.Changes (disk.remove path) touched content := by
  refine ⟨fun handle follows => follows.remove, fun _ _ => .inl rfl, fun other inode stored => ?_⟩
  rw [inode?_remove] at stored
  split at stored
  · cases stored
  · exact .inl ⟨stored, rfl⟩

theorem copy : disk.Changes (disk.copy handle).2 touched content := by
  refine ⟨fun _ follows => follows.copy, fun _ follows => .inl (read_copy follows), ?_⟩
  intro other inode stored
  have bound : inode < disk.made := disk.fresh other inode stored
  exact .inl ⟨stored, Function.update_of_ne (Nat.ne_of_lt bound) _ _⟩

end Changes

end Disk

end Agentfork

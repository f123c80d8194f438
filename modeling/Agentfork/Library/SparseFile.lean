import Mathlib.Data.List.Basic

/-! # Files with holes

A file is its bytes together with a layout that tells its data from its holes, which
read as zeros. `seekData` and `seekHole` are the two searches of POSIX over the layout,
`resize` and `writeAt` what the other calls do to the bytes of a file. A copy that is
under way agrees with its source up to an offset and has zeros or the source's bytes
from there on. -/

namespace Agentfork

structure SparseFile where
  bytes : List UInt8
  isData : Nat → Bool
  holes : ∀ offset, offset < bytes.length → isData offset = false → bytes[offset]? = some 0

namespace SparseFile

variable {file : SparseFile} {pos found upto offset : Nat} {target : List UInt8}

def size (file : SparseFile) : Nat := file.bytes.length

/-- The first data at an offset or after it. -/
def seekData (file : SparseFile) (pos : Nat) : Option Nat := (List.range' pos (file.size - pos)).find? file.isData

/-- The first hole at an offset or after it; the end of the file counts as one. -/
def seekHole (file : SparseFile) (pos : Nat) : Nat :=
  ((List.range' pos (file.size - pos)).find? fun offset => !file.isData offset).getD file.size

/-- The bytes after the size has been set: cut off or filled up with zeros. -/
def resize (size : Nat) (target : List UInt8) : List UInt8 := target.take size ++ List.replicate (size - target.length) 0

/-- The bytes after some have been written at an offset, behind zeros where the file ends before it. -/
def writeAt (target : List UInt8) (pos : Nat) (written : List UInt8) : List UInt8 :=
  resize pos target ++ written ++ target.drop (pos + written.length)

theorem seekData_some (isFound : file.seekData pos = some found) : pos ≤ found ∧ found < file.size ∧
    file.isData found = true ∧ ∀ offset, pos ≤ offset → offset < found → file.isData offset = false := by
  rw [seekData, List.find?_range'_eq_some] at isFound
  obtain ⟨isData, member, before⟩ := isFound
  rw [List.mem_range'_1] at member
  exact ⟨by omega, by omega, isData, fun offset above below => by simpa using before offset above below⟩

theorem seekData_none (nothing : file.seekData pos = none) (above : pos ≤ offset) (within : offset < file.size) :
    file.isData offset = false := by
  rw [seekData, List.find?_eq_none] at nothing
  have member : offset ∈ List.range' pos (file.size - pos) := by
    rw [List.mem_range'_1]
    omega
  simpa using nothing offset member

/-- From data on there is something to read before the next hole. -/
theorem seekHole_spec (isData : file.isData pos = true) (within : pos < file.size) :
    pos < file.seekHole pos ∧ file.seekHole pos ≤ file.size := by
  rw [seekHole]
  cases isFound : (List.range' pos (file.size - pos)).find? fun offset => !file.isData offset with
  | none => exact ⟨within, Nat.le_refl _⟩
  | some hole =>
    rw [List.find?_range'_eq_some] at isFound
    obtain ⟨isHole, member, -⟩ := isFound
    rw [List.mem_range'_1] at member
    have differs : pos ≠ hole := by
      rintro rfl
      rw [isData] at isHole
      cases isHole
    exact ⟨by change pos < hole; omega, by change hole ≤ file.size; omega⟩

@[simp] theorem length_resize (size : Nat) (target : List UInt8) : (resize size target).length = size := by
  rw [resize, List.length_append, List.length_take, List.length_replicate]
  omega

theorem getElem?_resize {size : Nat} (within : offset < size) :
    (resize size target)[offset]? = if offset < target.length then target[offset]? else some 0 := by
  rw [resize, List.getElem?_append, List.length_take]
  split
  · next inside => rw [List.getElem?_take_of_lt within, if_pos (by omega)]
  · next outside => rw [if_neg (by omega), List.getElem?_replicate, if_pos (by omega)]

theorem length_writeAt {written : List UInt8} (within : pos + written.length ≤ target.length) :
    (writeAt target pos written).length = target.length := by
  rw [writeAt, List.length_append, List.length_append, length_resize, List.length_drop]
  omega

theorem getElem?_writeAt {written : List UInt8} (within : pos + written.length ≤ target.length) (offset : Nat) :
    (writeAt target pos written)[offset]? =
      if pos ≤ offset ∧ offset < pos + written.length then written[offset - pos]? else target[offset]? := by
  rw [writeAt, List.append_assoc, List.getElem?_append, length_resize]
  split
  · next before =>
    rw [getElem?_resize before, if_pos (by omega), if_neg (by omega)]
  · next notBefore =>
    rw [List.getElem?_append]
    split
    · rw [if_pos (by omega)]
    · rw [if_neg (by omega), List.getElem?_drop]
      congr 1
      omega

/-! ## Copies that are under way -/

/-- Up to an offset the bytes are the source's, and from there on they are that or zero. -/
structure Copied (file : SparseFile) (upto : Nat) (target : List UInt8) : Prop where
  size : target.length = file.size
  bytes : ∀ offset, offset < file.size → target[offset]? = file.bytes[offset]? ∨ upto ≤ offset ∧ target[offset]? = some 0

namespace Copied

/-- A hole needs no copying. -/
theorem skip (copied : Copied file pos target)
    (hole : ∀ offset, pos ≤ offset → offset < upto → offset < file.size → file.isData offset = false) :
    Copied file upto target := by
  refine ⟨copied.size, fun offset within => ?_⟩
  obtain same | ⟨above, isZero⟩ := copied.bytes offset within
  · exact .inl same
  · by_cases below : offset < upto
    · exact .inl (isZero.trans (file.holes offset within (hole offset above below within)).symm)
    · exact .inr ⟨by omega, isZero⟩

theorem eq_bytes (copied : Copied file upto target) (whole : file.size ≤ upto) : target = file.bytes := by
  refine List.ext_getElem? fun offset => ?_
  by_cases within : offset < file.size
  · obtain same | ⟨above, -⟩ := copied.bytes offset within
    · exact same
    · omega
  · rw [List.getElem?_eq_none (by rw [copied.size]; omega), List.getElem?_eq_none (Nat.le_of_not_lt within)]

theorem write (copied : Copied file pos target) {count : Nat} (within : pos + count ≤ file.size) :
    Copied file (pos + count) (writeAt target pos ((file.bytes.drop pos).take count)) := by
  have length : ((file.bytes.drop pos).take count).length = count := by
    rw [List.length_take, List.length_drop]
    exact Nat.min_eq_left (Nat.le_sub_of_add_le' within)
  have inside : pos + ((file.bytes.drop pos).take count).length ≤ target.length := by
    rw [length, copied.size]
    exact within
  refine ⟨(length_writeAt inside).trans copied.size, fun offset isOffset => ?_⟩
  rw [getElem?_writeAt inside, length]
  split
  · next here =>
    rw [List.getElem?_take_of_lt (by omega), List.getElem?_drop, Nat.add_sub_cancel' here.1]
    exact .inl rfl
  · next elsewhere =>
    obtain same | ⟨above, isZero⟩ := copied.bytes offset isOffset
    · exact .inl same
    · exact .inr ⟨by omega, isZero⟩

/-- Bytes that are the source's or zero are a copy that has only been begun. -/
theorem of_resize (partly : ∀ offset, offset < target.length → target[offset]? = file.bytes[offset]? ∨ target[offset]? = some 0) :
    Copied file 0 (resize file.size target) := by
  refine ⟨length_resize _ _, fun offset within => ?_⟩
  rw [getElem?_resize within]
  split
  · next inside => exact (partly offset inside).imp_right fun isZero => ⟨Nat.zero_le _, isZero⟩
  · exact .inr ⟨Nat.zero_le _, rfl⟩

end Copied

end SparseFile

end Agentfork

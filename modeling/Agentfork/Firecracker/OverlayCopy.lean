import Agentfork.Library.SparseFile
import Agentfork.Library.Transition
import Mathlib.Algebra.Group.Nat.Defs

/-! # Copying an overlay image

`_copy_overlay` as a program that waits for the answer of one system call at a time:

* a reflink, where `fcntl` has `FICLONE`;
* else `_sparse_copy`, which goes from one extent of data to the next and copies
  each by reads and writes that may both be short;
* else `shutil.copyfile`.

What the operating system may answer is a relation of its own (`Serves`). It may let
any call of the first two ways fail, with any of the bytes written. -/

namespace Agentfork.Firecracker.OverlayCopy

open Transition
open SparseFile (Copied resize writeAt)

/-- The call that the program waits for, with the local variables of `_sparse_copy`. -/
inductive Point where
  | cloning
  /-- `end = os.lseek(src_fd, 0, os.SEEK_END)` -/
  | measuring
  /-- `os.ftruncate(dst_fd, end)` -/
  | sizing (size : Nat)
  /-- `data_start = os.lseek(src_fd, pos, os.SEEK_DATA)` -/
  | scanning (size pos : Nat)
  /-- `hole = os.lseek(src_fd, data_start, os.SEEK_HOLE)` -/
  | edging (size dataStart : Nat)
  | seekingSource (size dataStart hole : Nat)
  | seekingTarget (size dataStart hole : Nat)
  | reading (size hole remaining : Nat)
  | writing (size hole remaining : Nat) (chunk view : List UInt8)
  | copying
  | returned
  | raised
  deriving DecidableEq, Repr

/-- What a system call returns, or the errno of its OSError. -/
inductive Answer where
  | success
  | offset (offset : Nat)
  | chunk (bytes : List UInt8)
  | written (count : Nat)
  | error (errno : Nat)
  deriving DecidableEq, Repr

def enxio : Nat := 6

/-- `1 << 20` -/
def maxRead : Nat := 2 ^ 20

/-! ## The program -/

/-- `while pos < end` -/
def scan (size pos : Nat) : Point := if pos < size then .scanning size pos else .returned

/-- `while remaining`, after it `pos = hole` -/
def read (size hole remaining : Nat) : Point := if remaining = 0 then scan size hole else .reading size hole remaining

/-- `while view`, after it `remaining -= len(chunk)` -/
def write (size hole remaining : Nat) (chunk view : List UInt8) : Point :=
  if view = [] then read size hole (remaining - chunk.length) else .writing size hole remaining chunk view

def react : Point → Answer → Point
  | .cloning, .success => .returned
  | .cloning, .error _ => .measuring
  | .measuring, .offset size => .sizing size
  | .sizing size, .success => scan size 0
  | .scanning size _, .offset dataStart => .edging size dataStart
  -- ENXIO: only holes remain to the end
  | .scanning _ _, .error errno => if errno = enxio then .returned else .copying
  | .edging size dataStart, .offset hole => .seekingSource size dataStart hole
  | .seekingSource size dataStart hole, .offset _ => .seekingTarget size dataStart hole
  | .seekingTarget size dataStart hole, .offset _ => read size hole (hole - dataStart)
  | .reading size hole remaining, .chunk bytes => write size hole remaining bytes bytes
  | .writing size hole remaining chunk view, .written count => write size hole remaining chunk (view.drop count)
  | .copying, .success => .returned
  | .copying, .error _ => .raised
  | _, .error _ => .copying
  | point, _ => point

def start (hasFiclone : Bool) : Point := if hasFiclone then .cloning else .measuring

/-! ## The operating system -/

/-- The offsets of both descriptors, and the bytes of the destination. -/
structure World where
  sourceAt : Nat
  targetAt : Nat
  target : List UInt8
  deriving DecidableEq, Repr

/-- The calls of `_sparse_copy`. -/
def Point.sparse : Point → Bool
  | .cloning | .copying | .returned | .raised => false
  | _ => true

/-- The answer that a call may get, and what it does. -/
inductive Serves (source : SparseFile) : Point → World → Answer → World → Prop where
  | cloned {world : World} : Serves source .cloning world .success { world with target := source.bytes }
  /-- a reflink that fails may have cloned some of the extents -/
  | notCloned {world : World} (errno : Nat) (left : List UInt8) (partly : ∀ offset, offset < left.length →
      left[offset]? = source.bytes[offset]? ∨ left[offset]? = some 0) :
      Serves source .cloning world (.error errno) { world with target := left }
  | measured {world : World} :
      Serves source .measuring world (.offset source.size) { world with sourceAt := source.size }
  | sized {world : World} {size : Nat} :
      Serves source (.sizing size) world .success { world with target := resize size world.target }
  | data {world : World} {size pos dataStart : Nat} (found : source.seekData pos = some dataStart) :
      Serves source (.scanning size pos) world (.offset dataStart) { world with sourceAt := dataStart }
  | noData {world : World} {size pos : Nat} (nothing : source.seekData pos = none) :
      Serves source (.scanning size pos) world (.error enxio) world
  | hole {world : World} {size dataStart : Nat} : Serves source (.edging size dataStart) world
      (.offset (source.seekHole dataStart)) { world with sourceAt := source.seekHole dataStart }
  | soughtSource {world : World} {size dataStart hole : Nat} : Serves source (.seekingSource size dataStart hole) world
      (.offset dataStart) { world with sourceAt := dataStart }
  | soughtTarget {world : World} {size dataStart hole : Nat} : Serves source (.seekingTarget size dataStart hole) world
      (.offset dataStart) { world with targetAt := dataStart }
  /-- a read may be short, but not empty before the end -/
  | read {world : World} {size hole remaining count : Nat} (positive : 0 < count) (few : count ≤ min remaining maxRead)
      (within : world.sourceAt + count ≤ source.size) : Serves source (.reading size hole remaining) world
      (.chunk ((source.bytes.drop world.sourceAt).take count)) { world with sourceAt := world.sourceAt + count }
  /-- a write may be short, but not empty -/
  | written {world : World} {size hole remaining count : Nat} {chunk view : List UInt8} (positive : 0 < count)
      (few : count ≤ view.length) : Serves source (.writing size hole remaining chunk view) world (.written count)
      { world with
        target := writeAt world.target world.targetAt (view.take count)
        targetAt := world.targetAt + count }
  /-- any other call fails with whatever it has done; ENXIO is kept for the search of data -/
  | fails {point : Point} {world after : World} (sparse : point.sparse = true) (errno : Nat)
      (other : ∀ size pos, point = .scanning size pos → errno ≠ enxio) : Serves source point world (.error errno) after
  | copied {world : World} : Serves source .copying world .success { world with target := source.bytes }

/-- The program and its files. -/
structure State where
  point : Point
  world : World
  deriving DecidableEq, Repr

def Step (source : SparseFile) (before : State) (answer : Answer) (after : State) : Prop :=
  Serves source before.point before.world answer after.world ∧ after.point = react before.point answer

/-- The destination has been opened for writing, so it is empty. -/
def opened (hasFiclone : Bool) : State := ⟨start hasFiclone, ⟨0, 0, []⟩⟩

/-! ## What holds at each call -/

/-- Up to the offset that is written next the destination has the bytes of the source. -/
def Consistent (source : SparseFile) : Point → World → Prop
  | .cloning, world | .measuring, world => ∀ offset, offset < world.target.length →
      world.target[offset]? = source.bytes[offset]? ∨ world.target[offset]? = some 0
  | .sizing size, world => size = source.size ∧ ∀ offset, offset < world.target.length →
      world.target[offset]? = source.bytes[offset]? ∨ world.target[offset]? = some 0
  | .scanning size pos, world => size = source.size ∧ pos < size ∧ Copied source pos world.target
  | .edging size dataStart, world =>
      size = source.size ∧ dataStart < size ∧ source.isData dataStart = true ∧ Copied source dataStart world.target
  | .seekingSource size dataStart hole, world =>
      size = source.size ∧ dataStart < hole ∧ hole ≤ size ∧ Copied source dataStart world.target
  | .seekingTarget size dataStart hole, world =>
      size = source.size ∧ dataStart < hole ∧ hole ≤ size ∧ world.sourceAt = dataStart ∧ Copied source dataStart world.target
  | .reading size hole remaining, world =>
      size = source.size ∧ 0 < remaining ∧ hole ≤ size ∧ world.sourceAt + remaining = hole ∧
        world.targetAt = world.sourceAt ∧ Copied source world.targetAt world.target
  | .writing size hole remaining chunk view, world =>
      size = source.size ∧ chunk.length ≤ remaining ∧ hole ≤ size ∧ world.sourceAt + (remaining - chunk.length) = hole ∧
        0 < view.length ∧ world.targetAt + view.length = world.sourceAt ∧
        view = (source.bytes.drop world.targetAt).take view.length ∧ Copied source world.targetAt world.target
  | .copying, _ => True
  | .returned, world => world.target = source.bytes
  | .raised, _ => False

/-- Each call takes at most eight steps for a byte that is still to be copied. -/
def left (source : SparseFile) : Point → Nat
  | .cloning => 8 * source.size + 5
  | .measuring => 8 * source.size + 4
  | .sizing _ => 8 * source.size + 3
  | .scanning _ pos => 8 * (source.size - pos) + 2
  | .edging _ dataStart => 8 * (source.size - dataStart) + 1
  | .seekingSource _ dataStart _ => 8 * (source.size - dataStart)
  | .seekingTarget _ dataStart _ => 8 * (source.size - dataStart) - 1
  | .reading _ hole remaining => 8 * (source.size - hole) + 2 * remaining + 3
  | .writing _ hole remaining chunk view =>
    8 * (source.size - hole) + 2 * (remaining - chunk.length) + view.length + 3
  | .copying => 1
  | .returned | .raised => 0

/-! ## The loops -/

section Loops

variable {source : SparseFile} {size pos hole remaining : Nat} {chunk view : List UInt8} {world : World}

theorem consistent_scan (sized : size = source.size) (within : pos ≤ size) (copied : Copied source pos world.target) :
    Consistent source (scan size pos) world := by
  rw [scan]
  split
  · next more => exact ⟨sized, more, copied⟩
  · next whole => exact copied.eq_bytes (by omega)

theorem left_scan : left source (scan size pos) ≤ 8 * (source.size - pos) + 2 := by
  rw [scan]
  split
  · exact Nat.le_refl _
  · exact Nat.zero_le _

theorem consistent_read (sized : size = source.size) (within : hole ≤ size) (sourceAt : world.sourceAt + remaining = hole)
    (targetAt : world.targetAt = world.sourceAt) (copied : Copied source world.targetAt world.target) :
    Consistent source (read size hole remaining) world := by
  rw [read]
  split
  · next whole =>
    refine consistent_scan sized within ?_
    rwa [← sourceAt, whole, Nat.add_zero, ← targetAt]
  · next more => exact ⟨sized, Nat.pos_of_ne_zero more, within, sourceAt, targetAt, copied⟩

theorem left_read : left source (read size hole remaining) ≤ 8 * (source.size - hole) + 2 * remaining + 3 := by
  rw [read]
  split
  · have scanned := @left_scan source size hole
    omega
  · exact Nat.le_refl _

theorem consistent_write (sized : size = source.size) (within : hole ≤ size)
    (sourceAt : world.sourceAt + (remaining - chunk.length) = hole) (short : chunk.length ≤ remaining)
    (targetAt : world.targetAt + view.length = world.sourceAt)
    (isView : view = (source.bytes.drop world.targetAt).take view.length)
    (copied : Copied source world.targetAt world.target) :
    Consistent source (write size hole remaining chunk view) world := by
  rw [write]
  split
  · next written =>
    rw [written, List.length_nil, Nat.add_zero] at targetAt
    exact consistent_read sized within sourceAt targetAt copied
  · next more => exact ⟨sized, short, within, sourceAt, List.length_pos_of_ne_nil more, targetAt, isView, copied⟩

theorem left_write : left source (write size hole remaining chunk view) ≤
    8 * (source.size - hole) + 2 * (remaining - chunk.length) + view.length + 3 := by
  rw [write]
  split
  · have whole := @left_read source size hole (remaining - chunk.length)
    omega
  · exact Nat.le_refl _

end Loops

/-! ## Steps -/

variable {source : SparseFile} {before after state : State} {answer : Answer}

/-- Every answer keeps what holds at the calls and brings the end nearer. -/
theorem step_consistent (consistent : Consistent source before.point before.world) (taken : Step source before answer after) :
    Consistent source after.point after.world ∧ left source after.point < left source before.point := by
  obtain ⟨point, world⟩ := before
  obtain ⟨next, changed⟩ := after
  obtain ⟨serves, isNext⟩ := taken
  change next = react point answer at isNext
  subst isNext
  change Consistent source point world at consistent
  change Serves source point world answer changed at serves
  change Consistent source (react point answer) changed ∧ left source (react point answer) < left source point
  cases serves with
  | cloned => exact ⟨rfl, by simp [react, left]⟩
  | notCloned errno rest partly => exact ⟨partly, by simp [react, left]⟩
  | measured => exact ⟨⟨rfl, consistent⟩, by simp [react, left]⟩
  | @sized _ size =>
    obtain ⟨sized, partly⟩ := consistent
    refine ⟨consistent_scan sized (Nat.zero_le _) ?_, ?_⟩
    · rw [sized]
      exact Copied.of_resize partly
    · have scanned := @left_scan source size 0
      change left source (scan size 0) < 8 * source.size + 3
      omega
  | @data _ size pos dataStart found =>
    obtain ⟨sized, more, copied⟩ := consistent
    obtain ⟨above, within, isData, before⟩ := SparseFile.seekData_some found
    refine ⟨⟨sized, by omega, isData, copied.skip fun offset after below _ => before offset after below⟩, ?_⟩
    change 8 * (source.size - dataStart) + 1 < 8 * (source.size - pos) + 2
    omega
  | @noData _ size pos nothing =>
    obtain ⟨sized, more, copied⟩ := consistent
    have filled : Copied source source.size world.target :=
      copied.skip fun offset above _ within => SparseFile.seekData_none nothing above within
    have isNext : react (.scanning size pos) (.error enxio) = .returned := rfl
    rw [isNext]
    refine ⟨filled.eq_bytes (Nat.le_refl _), ?_⟩
    change 0 < 8 * (source.size - pos) + 2
    omega
  | @hole _ size dataStart =>
    obtain ⟨sized, within, isData, copied⟩ := consistent
    obtain ⟨longer, inside⟩ := SparseFile.seekHole_spec isData (sized ▸ within)
    refine ⟨⟨sized, longer, by omega, copied⟩, ?_⟩
    exact Nat.lt_succ_self _
  | @soughtSource _ size dataStart hole =>
    obtain ⟨sized, longer, within, copied⟩ := consistent
    refine ⟨⟨sized, longer, within, rfl, copied⟩, ?_⟩
    change 8 * (source.size - dataStart) - 1 < 8 * (source.size - dataStart)
    omega
  | @soughtTarget _ size dataStart hole =>
    obtain ⟨sized, longer, within, sourceAt, copied⟩ := consistent
    refine ⟨consistent_read sized within ?_ sourceAt.symm copied, ?_⟩
    · change world.sourceAt + (hole - dataStart) = hole
      omega
    · have whole := @left_read source size hole (hole - dataStart)
      change left source (read size hole (hole - dataStart)) < 8 * (source.size - dataStart) - 1
      omega
  | @read _ size hole remaining count positive few within =>
    obtain ⟨sized, more, inside, sourceAt, targetAt, copied⟩ := consistent
    have length : ((source.bytes.drop world.sourceAt).take count).length = count := by
      rw [List.length_take, List.length_drop]
      exact Nat.min_eq_left (Nat.le_sub_of_add_le' within)
    have short : count ≤ remaining := Nat.le_trans few (Nat.min_le_left _ _)
    refine ⟨consistent_write sized inside ?_ (Nat.le_trans (Nat.le_of_eq length) short) ?_ ?_ copied, ?_⟩
    · rw [length]
      change world.sourceAt + count + (remaining - count) = hole
      omega
    · rw [length]
      change world.targetAt + count = world.sourceAt + count
      rw [targetAt]
    · rw [length]
      change _ = (source.bytes.drop world.targetAt).take count
      rw [targetAt]
    · have chunked := @left_write source size hole remaining ((source.bytes.drop world.sourceAt).take count)
        ((source.bytes.drop world.sourceAt).take count)
      rw [length] at chunked
      exact Nat.lt_of_le_of_lt chunked (by change _ < 8 * (source.size - hole) + 2 * remaining + 3; omega)
  | @written _ size hole remaining count chunk view positive few =>
    obtain ⟨sized, short, inside, sourceAt, more, targetAt, isView, copied⟩ := consistent
    have length : (view.drop count).length = view.length - count := List.length_drop
    refine ⟨consistent_write sized inside sourceAt short ?_ ?_ ?_, ?_⟩
    · rw [length]
      change world.targetAt + count + (view.length - count) = world.sourceAt
      omega
    · rw [length]
      change view.drop count = (source.bytes.drop (world.targetAt + count)).take (view.length - count)
      rw [← List.drop_drop, ← List.drop_take, ← isView]
    · change Copied source (world.targetAt + count) (writeAt world.target world.targetAt (view.take count))
      have isPart : view.take count = (source.bytes.drop world.targetAt).take count := by
        rw [isView, List.take_take, Nat.min_eq_left few]
      rw [isPart]
      exact copied.write (by omega)
    · have rest := @left_write source size hole remaining chunk (view.drop count)
      rw [length] at rest
      exact Nat.lt_of_le_of_lt rest
        (by change _ < 8 * (source.size - hole) + 2 * (remaining - chunk.length) + view.length + 3; omega)
  | fails sparse errno other =>
    have given : react point (.error errno) = .copying := by
      cases point with
      | scanning size pos => exact if_neg (other size pos rfl)
      | cloning | copying | returned | raised => cases sparse
      | _ => rfl
    rw [given]
    refine ⟨trivial, ?_⟩
    cases point with
    | cloning | copying | returned | raised => cases sparse
    | edging size dataStart =>
      obtain ⟨sized, within, isData, copied⟩ := consistent
      change 1 < 8 * (source.size - dataStart) + 1
      omega
    | seekingSource size dataStart hole =>
      obtain ⟨sized, longer, within, copied⟩ := consistent
      change 1 < 8 * (source.size - dataStart)
      omega
    | seekingTarget size dataStart hole =>
      obtain ⟨sized, longer, within, sourceAt, copied⟩ := consistent
      change 1 < 8 * (source.size - dataStart) - 1
      omega
    | _ =>
      simp only [left]
      omega
  | copied => exact ⟨rfl, Nat.zero_lt_one⟩

/-- At every call there is an answer that the operating system may give. -/
theorem exists_step (consistent : Consistent source before.point before.world) (running : before.point ≠ .returned) :
    ∃ answer after, Step source before answer after := by
  obtain ⟨point, world⟩ := before
  change Consistent source point world at consistent
  cases point with
  | cloning => exact ⟨_, ⟨_, _⟩, .cloned, rfl⟩
  | reading size hole remaining =>
    obtain ⟨sized, more, within, sourceAt, -⟩ := consistent
    have few : 1 ≤ min remaining maxRead := Nat.le_min.2 ⟨more, by decide⟩
    exact ⟨_, ⟨_, _⟩, .read Nat.one_pos few (by change world.sourceAt + 1 ≤ source.size; omega), rfl⟩
  | writing size hole remaining chunk view =>
    obtain ⟨sized, short, within, sourceAt, more, -⟩ := consistent
    exact ⟨_, ⟨_, _⟩, .written Nat.one_pos more, rfl⟩
  | copying => exact ⟨_, ⟨_, _⟩, .copied, rfl⟩
  | returned => exact absurd rfl running
  | raised => exact consistent.elim
  | _ => exact ⟨.error 5, ⟨_, world⟩, .fails rfl 5 (fun _ _ _ => by decide), rfl⟩

/-- However the reflink and the sparse copy are answered, and wherever they fail, the copy comes to an end,
and it ends with the bytes of the source in the destination. -/
theorem copyOverlay_faithful (source : SparseFile) (hasFiclone : Bool) :
    (∀ trace : Nat → State, trace 0 = opened hasFiclone →
      ∃ time, ∀ answer, ¬ Step source (trace time) answer (trace (time + 1))) ∧
    ∀ state, Reachable (Step source) always (opened hasFiclone) state →
      (state.point = .returned → state.world.target = source.bytes) ∧
      (state.point ≠ .returned → ∃ answer after, Step source state answer after) := by
  have initial : Consistent source (opened hasFiclone).point (opened hasFiclone).world := by
    cases hasFiclone <;> exact fun offset within => absurd within (Nat.not_lt_zero _)
  constructor
  · intro trace first
    obtain ⟨time, stops⟩ := @halts _ _ (Step source) always (opened hasFiclone)
      (fun state => Consistent source state.point state.world) (fun state => left source state.point) initial
      (fun _ _ _ consistent _ taken => (step_consistent consistent taken).1)
      (fun _ _ _ consistent _ taken => (step_consistent consistent taken).2) _ first
    exact ⟨time, fun answer => stops answer trivial⟩
  · intro state reached
    have consistent : Consistent source state.point state.world :=
      reached.invariant (motive := fun state => Consistent source state.point state.world) initial
        (fun _ _ _ consistent _ taken => (step_consistent consistent taken).1)
    refine ⟨fun isReturned => ?_, exists_step consistent⟩
    rw [isReturned] at consistent
    exact consistent

end Agentfork.Firecracker.OverlayCopy

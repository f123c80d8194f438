import Mathlib.Data.List.TakeWhile

/-! # Lines over a stream

A stream gives its bytes in reads of any length, and an empty read at its end. A
line is read until the read that holds its newline; what that read holds beyond
it is told apart. -/

namespace Agentfork.Framing

def newline : UInt8 := 10

inductive Outcome where
  | line (bytes trailing : List UInt8)
  | closed (bytes : List UInt8)
  | oversized
  deriving DecidableEq, Repr

/-- Read on, with the bytes of the earlier reads; a read without a newline may not go beyond the limit. -/
def readOn (limit : Nat) (before : List UInt8) : List (List UInt8) → Outcome
  | [] => .closed before
  | read :: reads =>
    if read = [] then .closed before
    else if newline ∈ read then
      .line (before ++ read.takeWhile (· ≠ newline)) (read.dropWhile (· ≠ newline)).tail
    else if limit < (before ++ read).length then .oversized
    else readOn limit (before ++ read) reads

def readLine (limit : Nat) (reads : List (List UInt8)) : Outcome := readOn limit [] reads

/-- The reads are a cutting of the bytes into parts of at most `most` bytes. -/
structure Cuts (most : Nat) (bytes : List UInt8) (reads : List (List UInt8)) : Prop where
  whole : reads.flatten = bytes
  nonempty : ∀ read ∈ reads, read ≠ []
  bounded : ∀ read ∈ reads, read.length ≤ most

variable {limit most : Nat} {line : List UInt8} {reads : List (List UInt8)}

theorem takeWhile_line (notInLine : newline ∉ line) (rest : List UInt8) :
    (line ++ newline :: rest).takeWhile (· ≠ newline) = line := by
  rw [List.takeWhile_append_of_pos]
  · simp
  · intro byte member
    exact decide_eq_true fun here => notInLine (here ▸ member)

theorem dropWhile_line (notInLine : newline ∉ line) (rest : List UInt8) :
    (line ++ newline :: rest).dropWhile (· ≠ newline) = newline :: rest := by
  rw [List.dropWhile_append_of_pos]
  · simp
  · intro byte member
    exact decide_eq_true fun here => notInLine (here ▸ member)

/-- The read that holds the newline is the last one, or the line goes on after the read. -/
theorem line_of_append {read rest : List UInt8} (whole : read ++ rest = line ++ [newline]) :
    read = line ++ [newline] ∧ rest = [] ∨ ∃ after, line = read ++ after ∧ rest = after ++ [newline] := by
  obtain ⟨after, isLine, isRest⟩ | ⟨after, isRead, ends⟩ := List.append_eq_append_iff.1 whole
  · exact .inr ⟨after, isLine, isRest⟩
  · cases after with
    | nil => exact .inr ⟨[], by rw [isRead, List.append_nil, List.append_nil], ends.symm⟩
    | cons byte more =>
      rw [List.cons_append, List.cons.injEq] at ends
      obtain ⟨noMore, nothing⟩ := List.append_eq_nil_iff.1 ends.2.symm
      exact .inl ⟨by rw [isRead, noMore, ← ends.1], nothing⟩

theorem readOn_line {before : List UInt8} (notInLine : newline ∉ line) (small : (before ++ line).length ≤ limit)
    (whole : reads.flatten = line ++ [newline]) (nonempty : ∀ read ∈ reads, read ≠ []) :
    readOn limit before reads = .line (before ++ line) [] := by
  induction reads generalizing before line with
  | nil => exact absurd whole.symm (List.append_ne_nil_of_right_ne_nil _ (List.cons_ne_nil _ _))
  | cons read reads inductionHypothesis =>
    rw [List.flatten_cons] at whole
    rw [readOn, if_neg (nonempty read List.mem_cons_self)]
    obtain ⟨isRead, _⟩ | ⟨after, isLine, isRest⟩ := line_of_append whole
    · have inRead : newline ∈ read := isRead ▸ List.mem_append_right line List.mem_cons_self
      rw [if_pos inRead, isRead, takeWhile_line notInLine, dropWhile_line notInLine]
      rfl
    · subst isLine
      rw [List.mem_append, not_or] at notInLine
      rw [← List.append_assoc] at small
      have notOversized : ¬ limit < (before ++ read).length := by
        rw [List.length_append] at small
        omega
      rw [if_neg notInLine.1, if_neg notOversized, ← List.append_assoc]
      apply inductionHypothesis notInLine.2 small isRest
      exact fun other member => nonempty other (List.mem_cons_of_mem read member)

/-- However a line of the right size is cut, it is read as it was sent, with nothing after it. -/
theorem readLine_line (cuts : Cuts most (line ++ [newline]) reads) (notInLine : newline ∉ line)
    (small : line.length ≤ limit) : readLine limit reads = .line line [] :=
  readOn_line notInLine small cuts.whole cuts.nonempty

/-- Without a newline no line is read. -/
theorem readOn_open {before : List UInt8} (noNewline : newline ∉ reads.flatten) :
    (∃ bytes, readOn limit before reads = .closed bytes) ∨ readOn limit before reads = .oversized := by
  induction reads generalizing before with
  | nil => exact .inl ⟨before, rfl⟩
  | cons read reads inductionHypothesis =>
    rw [List.flatten_cons, List.mem_append, not_or] at noNewline
    rw [readOn, if_neg noNewline.1]
    split
    · exact .inl ⟨before, rfl⟩
    · split
      · exact .inr rfl
      · exact inductionHypothesis noNewline.2

/-! ## All cuttings of a stream -/

/-- Reads without a newline are passed over, unless they go beyond the limit. -/
theorem readOn_append {firsts : List (List UInt8)} {before : List UInt8} (rest : List (List UInt8))
    (noNewline : newline ∉ firsts.flatten) (nonempty : ∀ read ∈ firsts, read ≠ []) (small : before.length ≤ limit) :
    readOn limit before (firsts ++ rest) =
      if limit < (before ++ firsts.flatten).length then .oversized else readOn limit (before ++ firsts.flatten) rest := by
  induction firsts generalizing before with
  | nil => rw [List.flatten_nil, List.append_nil, if_neg (Nat.not_lt.2 small), List.nil_append]
  | cons read firsts inductionHypothesis =>
    rw [List.flatten_cons, List.mem_append, not_or] at noNewline
    rw [List.cons_append, readOn, if_neg (nonempty read List.mem_cons_self), if_neg noNewline.1, List.flatten_cons,
      ← List.append_assoc]
    split
    · next large =>
      -- later reads only add to what is too long already
      rw [if_pos (Nat.lt_of_lt_of_le large (by simp))]
    · next fits =>
      exact inductionHypothesis noNewline.2 (fun other member => nonempty other (List.mem_cons_of_mem read member))
        (Nat.le_of_not_lt fits)

/-- A stream without a newline is read to its end or to the limit. -/
theorem readLine_open {bytes : List UInt8} (cuts : Cuts most bytes reads) (noNewline : newline ∉ bytes) :
    readLine limit reads = if limit < bytes.length then .oversized else .closed bytes := by
  have whole := @readOn_append limit reads [] [] (cuts.whole ▸ noNewline) cuts.nonempty (Nat.zero_le _)
  rw [List.append_nil, List.nil_append, cuts.whole] at whole
  exact whole

/-- What is read when the newline comes in this read. -/
theorem readLine_cut {firsts rest : List (List UInt8)} {head tail : List UInt8} (noNewline : newline ∉ firsts.flatten)
    (nonempty : ∀ read ∈ firsts, read ≠ []) (notInHead : newline ∉ head) :
    readLine limit (firsts ++ (head ++ newline :: tail) :: rest) =
      if limit < firsts.flatten.length then .oversized else .line (firsts.flatten ++ head) tail := by
  have inRead : newline ∈ head ++ newline :: tail := List.mem_append_right head List.mem_cons_self
  unfold readLine
  rw [readOn_append _ noNewline nonempty (Nat.zero_le _), List.nil_append, readOn,
    if_neg (List.append_ne_nil_of_right_ne_nil _ (List.cons_ne_nil _ _)), if_pos inRead, takeWhile_line notInHead,
    dropWhile_line notInHead, List.tail_cons]

/-- Every cutting of a stream with a newline has a read with the first newline. -/
theorem Cuts.at_newline {trailing : List UInt8} (cuts : Cuts most (line ++ newline :: trailing) reads)
    (notInLine : newline ∉ line) : ∃ firsts head tail rest, reads = firsts ++ (head ++ newline :: tail) :: rest ∧
      line = firsts.flatten ++ head ∧ trailing = tail ++ rest.flatten ∧ head.length < most ∧
      ∀ read ∈ firsts, read ≠ [] := by
  have inReads : newline ∈ reads.flatten := cuts.whole ▸ List.mem_append_right line List.mem_cons_self
  obtain ⟨holding, isRead, inRead⟩ := List.mem_flatten.1 inReads
  obtain ⟨read, found⟩ := Option.isSome_iff_exists.1
    (List.find?_isSome.2 ⟨holding, isRead, decide_eq_true inRead⟩ : (reads.find? fun read => decide (newline ∈ read)).isSome = true)
  obtain ⟨inRead, firsts, rest, rfl, none⟩ := List.find?_eq_some_iff_append.1 found
  have noNewline : newline ∉ firsts.flatten := by
    intro member
    obtain ⟨first, isFirst, inFirst⟩ := List.mem_flatten.1 member
    simpa [inFirst] using none first isFirst
  obtain ⟨head, tail, rfl, notInHead⟩ := List.eq_append_cons_of_mem (of_decide_eq_true inRead)
  -- the first newline of the stream is that of the read
  have whole := cuts.whole
  rw [List.flatten_append, List.flatten_cons, List.append_assoc, List.cons_append, ← List.append_assoc] at whole
  have notInFront : newline ∉ firsts.flatten ++ head := fun member => (List.mem_append.1 member).elim noNewline notInHead
  have isLine := congrArg (List.takeWhile (· ≠ newline)) whole
  have isTrailing := congrArg (List.dropWhile (· ≠ newline)) whole
  rw [takeWhile_line notInFront, takeWhile_line notInLine] at isLine
  rw [dropWhile_line notInFront, dropWhile_line notInLine, List.cons.injEq] at isTrailing
  have bounded := cuts.bounded _ (List.mem_append_right firsts List.mem_cons_self)
  rw [List.length_append, List.length_cons] at bounded
  exact ⟨firsts, head, tail, rest, rfl, isLine.symm, isTrailing.2.symm, by omega,
    fun first member => cuts.nonempty first (List.mem_append_left _ member)⟩

/-- What is read of a line depends on the cutting in two places: whether the reads before
its newline go beyond the limit, and what comes with the newline. -/
theorem Cuts.readLine_eq {trailing : List UInt8} (cuts : Cuts most (line ++ newline :: trailing) reads)
    (notInLine : newline ∉ line) : ∃ earlier tail, tail <+: trailing ∧ earlier ≤ line.length ∧ line.length < earlier + most ∧
      readLine limit reads = if limit < earlier then .oversized else .line line tail := by
  obtain ⟨firsts, head, tail, rest, rfl, rfl, rfl, short, nonempty⟩ := cuts.at_newline notInLine
  rw [List.mem_append, not_or] at notInLine
  refine ⟨firsts.flatten.length, tail, List.prefix_append _ _, by simp, ?_, readLine_cut notInLine.1 nonempty notInLine.2⟩
  rw [List.length_append]
  omega

/-- A cutting with so many bytes before the read of the newline, and so many after it there. -/
def cutAt (earlier more : Nat) (line trailing : List UInt8) : List (List UInt8) :=
  (line.take earlier).map (fun byte => [byte]) ++ (line.drop earlier ++ newline :: trailing.take more) ::
    (trailing.drop more).map fun byte => [byte]

theorem flatten_singles (bytes : List UInt8) : (bytes.map fun byte => [byte]).flatten = bytes := by
  induction bytes with
  | nil => rfl
  | cons byte bytes inductionHypothesis => rw [List.map_cons, List.flatten_cons, inductionHypothesis, List.singleton_append]

theorem cutAt_cuts {earlier more : Nat} (trailing : List UInt8) (enough : line.length - earlier + 1 + more ≤ most) :
    Cuts most (line ++ newline :: trailing) (cutAt earlier more line trailing) := by
  have single : ∀ (bytes : List UInt8), ∀ read ∈ bytes.map (fun byte => [byte]), read ≠ [] ∧ read.length ≤ most := by
    intro bytes read member
    obtain ⟨byte, _, rfl⟩ := List.mem_map.1 member
    exact ⟨List.cons_ne_nil _ _, by rw [List.length_singleton]; omega⟩
  have each : ∀ read ∈ cutAt earlier more line trailing, read ≠ [] ∧ read.length ≤ most := by
    intro read member
    obtain first | here := List.mem_append.1 member
    · exact single _ read first
    · obtain rfl | later := List.mem_cons.1 here
      · refine ⟨List.append_ne_nil_of_right_ne_nil _ (List.cons_ne_nil _ _), ?_⟩
        rw [List.length_append, List.length_drop, List.length_cons, List.length_take]
        omega
      · exact single _ read later
  refine ⟨?_, fun read member => (each read member).1, fun read member => (each read member).2⟩
  unfold cutAt
  rw [List.flatten_append, List.flatten_cons, flatten_singles, flatten_singles, List.append_assoc, List.cons_append,
    List.take_append_drop, ← List.append_assoc, List.take_append_drop]

theorem readLine_cutAt {earlier more : Nat} {trailing : List UInt8} (notInLine : newline ∉ line) (inside : earlier ≤ line.length) :
    readLine limit (cutAt earlier more line trailing) =
      if limit < earlier then .oversized else .line line (trailing.take more) := by
  have noNewline : newline ∉ ((line.take earlier).map fun byte => [byte]).flatten := by
    rw [flatten_singles]
    exact fun member => notInLine (List.mem_of_mem_take member)
  have nonempty : ∀ read ∈ (line.take earlier).map (fun byte => [byte]), read ≠ [] := by
    intro read member
    obtain ⟨byte, _, rfl⟩ := List.mem_map.1 member
    exact List.cons_ne_nil _ _
  unfold cutAt
  rw [readLine_cut noNewline nonempty fun member => notInLine (List.mem_of_mem_drop member), flatten_singles, List.take_append_drop,
    List.length_take, Nat.min_eq_left inside]

end Agentfork.Framing

import Agentfork.Firecracker.Vsock

/-! # Lines and the cutting of their streams

Both ends look for the newline, for data after it and for the limit in one read at
a time. So a line that fits is read however it is cut, and one that is longer than
the limit by a whole read is refused; between the two the last read decides. The
host also sees data after the line only when it comes with the newline. -/

namespace Agentfork.Firecracker

open Framing (newline Cuts cutAt)

/-- The bytes before the first newline. -/
def lineOf (bytes : List UInt8) : List UInt8 := bytes.takeWhile (· ≠ newline)

/-- The bytes after it. -/
def trailingOf (bytes : List UInt8) : List UInt8 := (bytes.dropWhile (· ≠ newline)).tail

/-- The outcome is the same for all cuttings of the stream. -/
def Uncut {γ : Type} (outcome : List (List UInt8) → γ) (bytes : List UInt8) : Prop :=
  ∀ first second, Cuts recvSize bytes first → Cuts recvSize bytes second → outcome first = outcome second

variable {limit : Nat} {line trailing bytes : List UInt8}

/-- A stream has no newline, or it has a first one. -/
theorem bytes_cases (bytes : List UInt8) : newline ∉ bytes ∨
    ∃ line trailing, bytes = line ++ newline :: trailing ∧ newline ∉ line ∧ lineOf bytes = line ∧ trailingOf bytes = trailing := by
  by_cases holds : newline ∈ bytes
  · obtain ⟨line, trailing, rfl, notInLine⟩ := List.eq_append_cons_of_mem holds
    refine .inr ⟨line, trailing, rfl, notInLine, Framing.takeWhile_line notInLine trailing, ?_⟩
    unfold trailingOf
    rw [Framing.dropWhile_line notInLine, List.tail_cons]
  · exact .inl holds

theorem one_lt_recvSize : 1 < recvSize := by decide

/-- The whole line before the read of its newline, which brings `more` with it. -/
theorem cutAt_line_cuts {more : Nat} (few : more ≤ 1) :
    Cuts recvSize (line ++ newline :: trailing) (cutAt line.length more line trailing) := by
  apply Framing.cutAt_cuts
  have := one_lt_recvSize
  omega

/-- As much of the line as a read can have with its newline. -/
theorem cutAt_short_cuts :
    Cuts recvSize (line ++ newline :: trailing) (cutAt (line.length + 1 - recvSize) 0 line trailing) := by
  apply Framing.cutAt_cuts
  have := one_lt_recvSize
  omega

/-! ## The agent in the guest -/

theorem GuestAgent.readLine_uncut_iff (limit : Nat) (bytes : List UInt8) : Uncut (GuestAgent.readLine limit) bytes ↔
    newline ∉ bytes ∨ limit + recvSize ≤ (lineOf bytes).length ∨ (lineOf bytes).length ≤ limit := by
  unfold Uncut GuestAgent.readLine
  obtain noNewline | ⟨line, trailing, whole, notInLine, isLine, isTrailing⟩ := bytes_cases bytes
  · refine iff_of_true (fun first second cutsFirst cutsSecond => ?_) (.inl noNewline)
    rw [Framing.readLine_open cutsFirst noNewline, Framing.readLine_open cutsSecond noNewline]
  · subst whole
    rw [isLine]
    have inBytes : newline ∈ line ++ newline :: trailing := List.mem_append_right line List.mem_cons_self
    constructor
    · intro uncut
      by_contra between
      rw [not_or, not_or, not_not] at between
      -- the line is refused in small reads, and passes when its end comes in one read
      have same := uncut _ _ (cutAt_line_cuts (Nat.zero_le 1)) cutAt_short_cuts
      have := one_lt_recvSize
      rw [Framing.readLine_cutAt notInLine (Nat.le_refl _), Framing.readLine_cutAt notInLine (by omega),
        if_pos (by omega), if_neg (by omega)] at same
      cases same
    · intro bounds first second cutsFirst cutsSecond
      obtain ⟨earlier, tail, _, inside, near, isFirst⟩ := @Cuts.readLine_eq limit _ _ _ _ cutsFirst notInLine
      obtain ⟨others, rest, _, othersInside, othersNear, isSecond⟩ := @Cuts.readLine_eq limit _ _ _ _ cutsSecond notInLine
      rw [isFirst, isSecond]
      obtain large | small := bounds.resolve_left fun noNewline => noNewline inBytes
      · rw [if_pos (by omega), if_pos (by omega)]
      · rw [if_neg (by omega), if_neg (by omega)]

/-! ## The client on the host -/

theorem VsockExecClient.readLine_uncut_iff (limit : Nat) (bytes : List UInt8) :
    Uncut (VsockExecClient.readLine limit) bytes ↔ newline ∉ bytes ∨ limit + recvSize ≤ (lineOf bytes).length ∨
      (lineOf bytes).length ≤ limit ∧ trailingOf bytes = [] := by
  unfold Uncut VsockExecClient.readLine
  obtain noNewline | ⟨line, trailing, whole, notInLine, isLine, isTrailing⟩ := bytes_cases bytes
  · refine iff_of_true (fun first second cutsFirst cutsSecond => ?_) (.inl noNewline)
    rw [Framing.readLine_open cutsFirst noNewline, Framing.readLine_open cutsSecond noNewline]
  · subst whole
    rw [isLine, isTrailing]
    have inBytes : newline ∈ line ++ newline :: trailing := List.mem_append_right line List.mem_cons_self
    constructor
    · intro uncut
      refine .inr (or_iff_not_imp_left.2 fun notLarge => ?_)
      have := one_lt_recvSize
      have small : line.length ≤ limit := by
        by_contra between
        have same := uncut _ _ (cutAt_line_cuts (Nat.zero_le 1)) cutAt_short_cuts
        rw [Framing.readLine_cutAt notInLine (Nat.le_refl _), Framing.readLine_cutAt notInLine (by omega),
          if_pos (by omega), if_neg (by omega)] at same
        cases same
      refine ⟨small, ?_⟩
      -- the newline ends its read, or brings the next byte with it
      have same := uncut _ _ (cutAt_line_cuts (Nat.zero_le 1)) (cutAt_line_cuts (Nat.le_refl 1))
      rw [Framing.readLine_cutAt notInLine (Nat.le_refl _), Framing.readLine_cutAt notInLine (Nat.le_refl _),
        if_neg (by omega), if_neg (by omega)] at same
      cases trailing with
      | nil => rfl
      | cons byte trailing => cases same
    · intro bounds first second cutsFirst cutsSecond
      obtain ⟨earlier, tail, isTail, inside, near, isFirst⟩ := @Cuts.readLine_eq limit _ _ _ _ cutsFirst notInLine
      obtain ⟨others, rest, isRest, othersInside, othersNear, isSecond⟩ := @Cuts.readLine_eq limit _ _ _ _ cutsSecond notInLine
      rw [isFirst, isSecond]
      obtain large | ⟨small, nothing⟩ := bounds.resolve_left fun noNewline => noNewline inBytes
      · rw [if_pos (by omega), if_pos (by omega)]
      · subst nothing
        rw [if_neg (by omega), if_neg (by omega), List.prefix_nil.1 isTail, List.prefix_nil.1 isRest]

/-- Where the cutting of a stream does not matter to the two ends. -/
theorem framing_uncut_iff (limit : Nat) (bytes : List UInt8) :
    (Uncut (VsockExecClient.readLine limit) bytes ∧ Uncut (GuestAgent.readLine limit) bytes) ↔
      newline ∉ bytes ∨ limit + recvSize ≤ (lineOf bytes).length ∨
        (lineOf bytes).length ≤ limit ∧ trailingOf bytes = [] := by
  rw [VsockExecClient.readLine_uncut_iff, GuestAgent.readLine_uncut_iff]
  tauto

/-! ## Two streams whose cutting matters -/

/-- A reply with a byte after it, in one read or in two, and a request of two bytes
where one is allowed, in one read or in three. -/
theorem cutting_decides : ¬ (∀ limit bytes, Uncut (VsockExecClient.readLine limit) bytes) ∧
    ¬ ∀ limit bytes, Uncut (GuestAgent.readLine limit) bytes := by
  constructor
  · intro claimed
    have same := claimed maxLine [97, newline, 98] [[97, newline], [98]] [[97, newline, 98]] ⟨rfl, by decide, by decide⟩
      ⟨rfl, by decide, by decide⟩
    revert same
    decide
  · intro claimed
    have same := claimed 1 [97, 98, newline] [[97, 98, newline]] [[97], [98], [newline]] ⟨rfl, by decide, by decide⟩
      ⟨rfl, by decide, by decide⟩
    revert same
    decide

end Agentfork.Firecracker

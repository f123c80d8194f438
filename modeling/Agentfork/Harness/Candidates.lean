import Mathlib.Data.List.DropRight
import Agentfork.Library.Findall

/-! # What a model's reply is read as

`propose` of the chat adapters and of `FakeLLM`, with the pattern of fenced blocks
and `_parse_candidates`. Which characters beyond those the pattern names count as
`\w` is a parameter, a table of the language's library. -/

namespace Agentfork.Harness

/-- `str.isspace` of a character -/
def isSpace (char : Char) : Bool :=
  let code := char.toNat
  decide (9 ≤ code ∧ code ≤ 13 ∨ 28 ≤ code ∧ code ≤ 32 ∨ code = 0x85 ∨ code = 0xA0 ∨ code = 0x1680 ∨
    0x2000 ≤ code ∧ code ≤ 0x200A ∨ code = 0x2028 ∨ code = 0x2029 ∨ code = 0x202F ∨ code = 0x205F ∨ code = 0x3000)

/-- `str.strip` -/
def strip (text : List Char) : List Char := (text.dropWhile isSpace).rdropWhile isSpace

/-! ## The pattern -/

/-- `\w` of the library: nothing else of what the pattern names is one. -/
structure WordChars where
  isWord : Char → Bool
  space : isWord ' ' = false
  tab : isWord '\t' = false
  newline : isWord '\n' = false
  backtick : isWord '`' = false

def fence : List Char := ['`', '`', '`']

/-- `[ \t]` -/
def isBlank (char : Char) : Bool := decide (char = ' ') || decide (char = '\t')

/-- `[\w+-]` -/
def WordChars.isInfo (words : WordChars) (char : Char) : Bool :=
  words.isWord char || decide (char = '+') || decide (char = '-')

/-- `[ \t]*[\w+-]*[ \t]*\n`; the classes have no character in common, so there is one way to match. -/
def WordChars.header (words : WordChars) (text : List Char) : Option (List Char) :=
  match ((text.dropWhile isBlank).dropWhile words.isInfo).dropWhile isBlank with
  | '\n' :: rest => some rest
  | _ => none

/-- Up to the first three backticks, which are not part of what is found. -/
def closing : List Char → Option (List Char × List Char)
  | [] => none
  | char :: text =>
    if fence <+: char :: text then some ([], (char :: text).drop 3)
    else (closing text).map fun (inner, rest) => (char :: inner, rest)

/-- `_FENCE` at the beginning of the text -/
def WordChars.fenceAt (words : WordChars) (text : List Char) : Option (List Char × List Char) :=
  if fence <+: text then (words.header (text.drop 3)).bind closing else none

theorem closing_parts {text inner rest : List Char} (found : closing text = some (inner, rest)) :
    text = inner ++ fence ++ rest := by
  induction text generalizing inner with
  | nil => cases found
  | cons char text inductionHypothesis =>
    unfold closing at found
    split at found
    · next isFence =>
      cases found
      exact (List.prefix_iff_eq_append.mp isFence).symm
    · obtain ⟨⟨inner', _⟩, later, same⟩ := Option.map_eq_some_iff.mp found
      cases same
      exact congrArg (char :: ·) (inductionHypothesis later)

variable {words : WordChars}

theorem WordChars.header_suffix {text rest : List Char} (found : words.header text = some rest) :
    '\n' :: rest <:+ text := by
  unfold WordChars.header at found
  split at found
  · next same =>
    cases found
    rw [← same]
    exact (List.dropWhile_suffix _).trans ((List.dropWhile_suffix _).trans (List.dropWhile_suffix _))
  · cases found

/-- What is found stands in the text, with the fence that closes it. -/
theorem WordChars.fenceAt_parts {text inner rest : List Char} (found : words.fenceAt text = some (inner, rest)) :
    ∃ opening, opening ≠ [] ∧ text = opening ++ (inner ++ fence ++ rest) := by
  unfold WordChars.fenceAt at found
  split at found
  · obtain ⟨body, opened, closed⟩ := Option.bind_eq_some_iff.mp found
    rw [← closing_parts closed]
    obtain ⟨before, same⟩ := (WordChars.header_suffix opened).trans (List.drop_suffix 3 text)
    refine ⟨before ++ ['\n'], List.append_ne_nil_of_right_ne_nil _ (List.cons_ne_nil _ _), ?_⟩
    rw [← same, List.append_assoc]
    rfl
  · cases found

/-- `_FENCE` -/
def WordChars.fences (words : WordChars) : Matcher Char (List Char) where
  matchAt := words.fenceAt
  suffix := fun found => by
    obtain ⟨opening, -, same⟩ := WordChars.fenceAt_parts found
    rw [same, ← List.append_assoc]
    exact List.suffix_append _ _
  shorter := fun found => by
    obtain ⟨opening, some, same⟩ := WordChars.fenceAt_parts found
    have := List.length_pos_iff.mpr some
    rw [same]
    simp only [List.length_append]
    omega

/-! ## Replies that keep to the prompt -/

/-- Blocks with an optional language, and text between them. A block ends at the
first three backticks after its header, so what it holds has none before them. -/
inductive WordChars.Fenced (words : WordChars) : List (List Char) → List Char → Prop where
  | outside {text : List Char} : ¬ fence <:+: text → Fenced words [] text
  | block {before leading info trailing inner after : List Char} {inners : List (List Char)} :
      ¬ fence <:+: before →
      (∀ char ∈ leading, isBlank char = true) → (∀ char ∈ info, words.isInfo char = true) →
      (∀ char ∈ trailing, isBlank char = true) → ¬ fence <:+: inner ++ ['`', '`'] → Fenced words inners after →
      Fenced words (inner :: inners)
        (before ++ (fence ++ (leading ++ (info ++ (trailing ++ '\n' :: (inner ++ fence ++ after))))))

theorem WordChars.isInfo_of_isBlank {char : Char} (blank : isBlank char = true) : words.isInfo char = false := by
  simp only [isBlank, Bool.or_eq_true, decide_eq_true_eq] at blank
  rcases blank with rfl | rfl
  · simp [WordChars.isInfo, words.space]
  · simp [WordChars.isInfo, words.tab]

theorem WordChars.isInfo_newline : words.isInfo '\n' = false := by
  simp [WordChars.isInfo, words.newline]

theorem WordChars.isInfo_backtick : words.isInfo '`' = false := by
  simp [WordChars.isInfo, words.backtick]

theorem dropWhile_blanks {blanks rest : List Char} (isBlanks : ∀ char ∈ blanks, isBlank char = true) :
    (blanks ++ '\n' :: rest).dropWhile isBlank = '\n' :: rest := by
  rw [List.dropWhile_append_of_pos isBlanks]
  rfl

/-- A header is read to its end, whichever of its parts are empty. -/
theorem WordChars.header_reads {leading info trailing rest : List Char}
    (leadingBlank : ∀ char ∈ leading, isBlank char = true) (infoChars : ∀ char ∈ info, words.isInfo char = true)
    (trailingBlank : ∀ char ∈ trailing, isBlank char = true) :
    words.header (leading ++ (info ++ (trailing ++ '\n' :: rest))) = some rest := by
  have afterInfo : (trailing ++ '\n' :: rest).dropWhile words.isInfo = trailing ++ '\n' :: rest := by
    cases trailing with
    | nil => exact List.dropWhile_cons_of_neg (by simp [WordChars.isInfo_newline])
    | cons char trailing =>
      have blank := trailingBlank char List.mem_cons_self
      exact List.dropWhile_cons_of_neg (by simp [WordChars.isInfo_of_isBlank blank])
  have read : (((leading ++ (info ++ (trailing ++ '\n' :: rest))).dropWhile isBlank).dropWhile
      words.isInfo).dropWhile isBlank = '\n' :: rest := by
    rw [List.dropWhile_append_of_pos leadingBlank]
    cases info with
    | nil =>
      rw [List.nil_append, dropWhile_blanks trailingBlank,
        List.dropWhile_cons_of_neg (by simp [WordChars.isInfo_newline])]
      rfl
    | cons char info =>
      have noBlank : ¬ isBlank char = true := by
        intro blank
        have := infoChars char List.mem_cons_self
        rw [WordChars.isInfo_of_isBlank blank] at this
        cases this
      rw [List.cons_append, List.dropWhile_cons_of_neg noBlank, ← List.cons_append,
        List.dropWhile_append_of_pos infoChars, afterInfo, dropWhile_blanks trailingBlank]
  unfold WordChars.header
  rw [read]
  rfl

/-- A block holds what stands before its closing fence. -/
theorem closing_reads {inner rest : List Char} (closes : ¬ fence <:+: inner ++ ['`', '`']) :
    closing (inner ++ fence ++ rest) = some (inner, rest) := by
  induction inner with
  | nil => simp [closing, fence]
  | cons char inner inductionHypothesis =>
    have notHere : ¬ fence <+: char :: (inner ++ fence ++ rest) := by
      intro here
      have whole : (char :: inner) ++ ['`', '`'] <+: char :: (inner ++ fence ++ rest) := ⟨'`' :: rest, by simp [fence]⟩
      exact closes (List.prefix_of_prefix_length_le here whole (by simp [fence])).isInfix
    have later := inductionHypothesis fun isInfix => closes (isInfix.trans (List.suffix_cons _ _).isInfix)
    rw [List.cons_append, List.cons_append, closing, if_neg notHere, later]
    rfl

theorem WordChars.fenceAt_reads {leading info trailing inner rest : List Char}
    (leadingBlank : ∀ char ∈ leading, isBlank char = true) (infoChars : ∀ char ∈ info, words.isInfo char = true)
    (trailingBlank : ∀ char ∈ trailing, isBlank char = true) (closes : ¬ fence <:+: inner ++ ['`', '`']) :
    words.fenceAt (fence ++ (leading ++ (info ++ (trailing ++ '\n' :: (inner ++ fence ++ rest))))) =
      some (inner, rest) := by
  rw [WordChars.fenceAt, if_pos (List.prefix_append _ _), show 3 = fence.length from rfl, List.drop_left,
    WordChars.header_reads leadingBlank infoChars trailingBlank, Option.bind_some, closing_reads closes]

/-- One or two backticks before a fence do not move it: what the pattern then takes for a header begins with one. -/
theorem WordChars.fenceAt_before {before suffix rest : List Char} (bare : ¬ fence <:+: before)
    (isSuffix : suffix <:+ before) (some : suffix ≠ []) : words.fenceAt (suffix ++ (fence ++ rest)) = none := by
  have noHeader (text : List Char) : words.header ('`' :: text) = none := by
    have stays : words.header ('`' :: text) = match '`' :: text with
        | '\n' :: rest => Option.some rest
        | _ => none := by
      unfold WordChars.header
      rw [List.dropWhile_cons_of_neg (by decide), List.dropWhile_cons_of_neg (by simp [WordChars.isInfo_backtick]),
        List.dropWhile_cons_of_neg (by decide)]
    rw [stays]
    rfl
  unfold WordChars.fenceAt
  split
  · next here =>
    match suffix, some with
    | [_], _ =>
      show (words.header ('`' :: rest)).bind closing = none
      rw [noHeader, Option.bind_none]
    | [_, _], _ =>
      show (words.header ('`' :: '`' :: rest)).bind closing = none
      rw [noHeader, Option.bind_none]
    | a :: b :: c :: suffix, _ =>
      have inside : fence <+: a :: b :: c :: suffix :=
        List.prefix_of_prefix_length_le here (List.prefix_append _ _) (by simp [fence])
      exact absurd (inside.isInfix.trans isSuffix.isInfix) bare
  · rfl

theorem WordChars.fenceAt_outside {text suffix : List Char} (bare : ¬ fence <:+: text) (isSuffix : suffix <:+ text) :
    words.fenceAt suffix = none :=
  if_neg fun here => bare (here.isInfix.trans isSuffix.isInfix)

/-- What is found are the blocks, in their order. -/
theorem WordChars.Fenced.findall {inners : List (List Char)} {reply : List Char} (fenced : words.Fenced inners reply) :
    words.fences.findall reply = inners := by
  induction fenced with
  | @outside text bare =>
    have passed : words.fences.findall (text ++ []) = words.fences.findall [] :=
      Matcher.findall_append fun suffix isSuffix _ => by
        rw [List.append_nil]
        exact WordChars.fenceAt_outside bare isSuffix
    rw [List.append_nil] at passed
    rw [passed, Matcher.findall]
  | block bare leadingBlank infoChars trailingBlank closes _ inductionHypothesis =>
    rw [Matcher.findall_append fun suffix isSuffix some => WordChars.fenceAt_before bare isSuffix some,
      Matcher.findall_match (WordChars.fenceAt_reads leadingBlank infoChars trailingBlank closes), inductionHypothesis]

/-! ## Proposals -/

/-- `_propose_prompt` -/
def proposePrompt (context : List Char) (n : Int) : List Char :=
  context ++ "\n\nProvide exactly ".toList ++ (toString n).toList ++
    (" distinct candidate solutions. Put each candidate in its own fenced ``` code block and output nothing " ++
      "else — no numbering, preamble, or commentary.").toList

/-- The blocks of a reply that hold something, else the whole reply. -/
def WordChars.parts (words : WordChars) (reply : List Char) : List (List Char) :=
  let blocks := ((words.fences.findall reply).map strip).filter fun block => !block.isEmpty
  if blocks.isEmpty then [strip reply] else blocks

/-- Element `i` of the list gone through again and again. -/
def cycle (parts : List (List Char)) (nonempty : parts ≠ []) (i : Nat) : List Char :=
  parts.get ⟨i % parts.length, Nat.mod_lt _ (List.length_pos_iff.mpr nonempty)⟩

theorem WordChars.parts_nonempty (reply : List Char) : words.parts reply ≠ [] := by
  simp only [WordChars.parts]
  split
  · exact List.cons_ne_nil _ _
  · next some => simpa using some

/-- `_parse_candidates` -/
def WordChars.parseCandidates (words : WordChars) (reply : List Char) (n : Nat) : List (List Char) :=
  let parts := words.parts reply
  let padded :=
    if parts.length < n then
      parts ++ (List.range (n - parts.length)).map (cycle parts (WordChars.parts_nonempty reply))
    else parts
  padded.take n

inductive ProposeError (ε : Type) where
  | valueError (text : String)
  /-- what `_message` raises -/
  | message (error : ε)

/-- `FakeLLM`, as far as `propose` reads it; `__init__` turns an empty script away. -/
structure FakeLLM where
  candidates : List (List Char)
  nonempty : candidates ≠ []

variable {ε : Type}

/-- `FakeLLM.propose` -/
def FakeLLM.propose (fake : FakeLLM) (_context : List Char) (n : Int) : Except (ProposeError ε) (List (List Char)) :=
  if n ≤ 0 then .error (.valueError "n must be positive")
  else .ok ((List.range n.toNat).map (cycle fake.candidates fake.nonempty))

/-- `_HTTPChatLLM`: a subclass supplies `_message`. -/
structure HTTPChatLLM (ε : Type) where
  words : WordChars
  message : List Char → Except ε (List Char)

/-- `_HTTPChatLLM.propose` -/
def HTTPChatLLM.propose (chat : HTTPChatLLM ε) (context : List Char) (n : Int) :
    Except (ProposeError ε) (List (List Char)) :=
  if n ≤ 0 then .error (.valueError "n must be positive")
  else
    match chat.message (proposePrompt context n) with
    | .error error => .error (.message error)
    | .ok reply => .ok (chat.words.parseCandidates reply n.toNat)

/-! ## What comes back -/

/-- Padding and truncating go on as the cycle does. -/
theorem WordChars.parseCandidates_cycles (reply : List Char) (n : Nat) :
    words.parseCandidates reply n = (List.range n).map (cycle (words.parts reply) (WordChars.parts_nonempty reply)) := by
  have first {i : Nat} (inside : i < (words.parts reply).length) :
      (words.parts reply)[i] = cycle (words.parts reply) (WordChars.parts_nonempty reply) i := by
    simp only [cycle, List.get_eq_getElem, Nat.mod_eq_of_lt inside]
  apply List.ext_getElem
  · simp only [WordChars.parseCandidates]
    split <;> simp <;> omega
  · intro i before inside
    rw [List.length_map, List.length_range] at inside
    rw [List.getElem_map, List.getElem_range]
    simp only [WordChars.parseCandidates]
    split
    · next short =>
      rw [List.getElem_take]
      by_cases isPart : i < (words.parts reply).length
      · rw [List.getElem_append_left isPart, first isPart]
      · -- the padding begins the cycle anew, where it has just ended
        rw [List.getElem_append_right (Nat.not_lt.mp isPart), List.getElem_map, List.getElem_range]
        simp only [cycle, ← Nat.mod_eq_sub_mod (Nat.not_lt.mp isPart)]
    · next long =>
      rw [List.getElem_take, first (by omega)]

theorem strip_inside (text : List Char) : strip text <:+: text :=
  (List.rdropWhile_prefix isSpace _).isInfix.trans (List.dropWhile_suffix isSpace).isInfix

theorem strip_strip (text : List Char) : strip (strip text) = strip text := by
  have front : (strip text).dropWhile isSpace = strip text := by
    apply List.dropWhile_eq_self_iff.mpr
    intro some
    obtain ⟨dropped, whole⟩ : strip text <+: text.dropWhile isSpace := List.rdropWhile_prefix isSpace _
    have first : 0 < (text.dropWhile isSpace).length := by
      rw [← whole, List.length_append]
      omega
    have noSpace := List.dropWhile_get_zero_not isSpace text first
    simpa only [← whole, List.get_eq_getElem, List.getElem_append_left some] using noSpace
  unfold strip at front ⊢
  rw [front, List.rdropWhile_idempotent]

theorem cycle_congr {parts others : List (List Char)} (same : parts = others) (nonempty : parts ≠ [])
    (nonempty' : others ≠ []) : cycle parts nonempty = cycle others nonempty' := by
  subst same
  rfl

theorem cycle_mem (parts : List (List Char)) (nonempty : parts ≠ []) (i : Nat) : cycle parts nonempty i ∈ parts :=
  List.get_mem _ _

/-- A part is a piece of the reply without spaces around it, and is empty only for a reply of spaces. -/
theorem WordChars.parts_of_reply {reply part : List Char} (isPart : part ∈ words.parts reply) :
    part <:+: reply ∧ strip part = part ∧ (part = [] → strip reply = []) := by
  simp only [WordChars.parts] at isPart
  split at isPart
  · obtain rfl := List.mem_singleton.mp isPart
    exact ⟨strip_inside reply, strip_strip reply, fun same => same⟩
  · obtain ⟨isBlock, holds⟩ := List.mem_filter.mp isPart
    obtain ⟨block, found, rfl⟩ := List.mem_map.mp isBlock
    obtain ⟨place, rest, isSuffix, isMatch⟩ := Matcher.findall_mem found
    obtain ⟨opening, -, rfl⟩ := WordChars.fenceAt_parts isMatch
    refine ⟨?_, strip_strip block, fun empty => ?_⟩
    · have inPlace : block <:+: opening ++ (block ++ fence ++ rest) := ⟨opening, fence ++ rest, by simp⟩
      exact (strip_inside block).trans (inPlace.trans isSuffix.isInfix)
    · rw [empty] at holds
      cases holds

/-- A chat model whose fenced blocks, stripped and without the blank ones, are the
script's candidates proposes what the deterministic model proposes, and whatever it replies instead there come back as
many candidates as were asked for, pieces of the reply that hold something if it does. -/
theorem chat_proposes_as_scripted (chat : HTTPChatLLM ε) (context : List Char) (n : Int) :
    (∀ (fake : FakeLLM) (inners : List (List Char)) (reply : List Char),
      chat.message (proposePrompt context n) = .ok reply → chat.words.Fenced inners reply →
      ((inners.map strip).filter fun block => !block.isEmpty) = fake.candidates →
      chat.propose context n = fake.propose context n) ∧
    ∀ reply candidates, chat.message (proposePrompt context n) = .ok reply → chat.propose context n = .ok candidates →
      (candidates.length : Int) = n ∧
      ∀ candidate ∈ candidates,
        candidate <:+: reply ∧ strip candidate = candidate ∧ (candidate = [] → strip reply = []) := by
  constructor
  · intro fake inners reply replied fenced script
    unfold HTTPChatLLM.propose FakeLLM.propose
    split
    · rfl
    · have parts : chat.words.parts reply = fake.candidates := by
        simp only [WordChars.parts, fenced.findall, script]
        rw [if_neg (by simpa using fake.nonempty)]
      rw [replied]
      simp only [WordChars.parseCandidates_cycles, cycle_congr parts _ fake.nonempty]
  · intro reply candidates replied proposed
    unfold HTTPChatLLM.propose at proposed
    split at proposed
    · cases proposed
    · next positive =>
      rw [replied] at proposed
      cases proposed
      rw [WordChars.parseCandidates_cycles]
      constructor
      · rw [List.length_map, List.length_range]
        omega
      · intro candidate isCandidate
        obtain ⟨i, -, rfl⟩ := List.mem_map.mp isCandidate
        exact WordChars.parts_of_reply (cycle_mem _ _ i)

/-- The letters, digits and the underscore of ASCII. -/
def asciiWords : WordChars where
  isWord char := char.isAlphanum || decide (char = '_')
  space := by decide
  tab := by decide
  newline := by decide
  backtick := by decide

def twoBlocks : List Char := "Sure:\n```python\nreturn a\n```\n``` \n\n```\n```c++ \n b`` \n```".toList

def twoCandidates : FakeLLM := ⟨["return a".toList, "b``".toList], by decide⟩

theorem twoBlocks_fenced :
    asciiWords.Fenced ["return a\n".toList, "\n".toList, " b`` \n".toList] twoBlocks := by
  have blanks {text : List Char} (all : text.all isBlank = true) : ∀ char ∈ text, isBlank char = true :=
    List.all_eq_true.mp all
  have infos {text : List Char} (all : text.all asciiWords.isInfo = true) :
      ∀ char ∈ text, asciiWords.isInfo char = true := List.all_eq_true.mp all
  have third := @WordChars.Fenced.block asciiWords "\n".toList [] "c++".toList [' '] " b`` \n".toList [] []
    (by decide) (blanks rfl) (infos rfl) (blanks rfl) (by decide) (.outside (by decide))
  have second := @WordChars.Fenced.block asciiWords "\n".toList [' '] [] [] "\n".toList _ _
    (by decide) (blanks rfl) (infos rfl) (blanks rfl) (by decide) third
  exact @WordChars.Fenced.block asciiWords "Sure:\n".toList [] "python".toList [] "return a\n".toList _ _
    (by decide) (blanks rfl) (infos rfl) (blanks rfl) (by decide) second

def twoBlocksChat : HTTPChatLLM String := ⟨asciiWords, fun _ => .ok twoBlocks⟩

/-- Three are asked for, two come in the reply, and the first is taken once more. -/
theorem twoBlocks_proposed :
    twoBlocksChat.propose "fix it".toList 3 = twoCandidates.propose "fix it".toList 3 :=
  (chat_proposes_as_scripted twoBlocksChat "fix it".toList 3).1 twoCandidates _ _ rfl twoBlocks_fenced (by decide)

end Agentfork.Harness

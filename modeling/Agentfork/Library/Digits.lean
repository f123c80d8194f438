import Mathlib.Data.Nat.Digits.Defs
import Mathlib.Data.List.Basic

/-! # Digits of text, as CPython reads them

`str.isdigit` accepts every character with the Unicode property of a digit, `int`
converts the decimal ones among them only, and no more than 4300 of them. The
characters are those of Unicode 14. -/

namespace Agentfork.Digits

/-- The zeros of the scripts; the nine characters after each are its other digits. -/
def decimalZeros : List Nat :=
  [0x30, 0x660, 0x6f0, 0x7c0, 0x966, 0x9e6, 0xa66, 0xae6, 0xb66, 0xbe6, 0xc66, 0xce6, 0xd66, 0xde6, 0xe50,
    0xed0, 0xf20, 0x1040, 0x1090, 0x17e0, 0x1810, 0x1946, 0x19d0, 0x1a80, 0x1a90, 0x1b50, 0x1bb0, 0x1c40,
    0x1c50, 0xa620, 0xa8d0, 0xa900, 0xa9d0, 0xa9f0, 0xaa50, 0xabf0, 0xff10, 0x104a0, 0x10d30, 0x11066,
    0x110f0, 0x11136, 0x111d0, 0x112f0, 0x11450, 0x114d0, 0x11650, 0x116c0, 0x11730, 0x118e0, 0x11950,
    0x11c50, 0x11d50, 0x11da0, 0x16a60, 0x16ac0, 0x16b50, 0x1d7ce, 0x1d7d8, 0x1d7e2, 0x1d7ec, 0x1d7f6,
    0x1e140, 0x1e2f0, 0x1e950, 0x1fbf0]

/-- The other digits: superscripts, circled digits and the like. -/
def otherDigits : List (Nat × Nat) :=
  [(0xb2, 0xb3), (0xb9, 0xb9), (0x1369, 0x1371), (0x19da, 0x19da), (0x2070, 0x2070), (0x2074, 0x2079),
    (0x2080, 0x2089), (0x2460, 0x2468), (0x2474, 0x247c), (0x2488, 0x2490), (0x24ea, 0x24ea),
    (0x24f5, 0x24fd), (0x24ff, 0x24ff), (0x2776, 0x277e), (0x2780, 0x2788), (0x278a, 0x2792),
    (0x10a40, 0x10a43), (0x10e60, 0x10e68), (0x11052, 0x1105a), (0x1f100, 0x1f10a)]

def decimalValue (character : Char) : Option Nat :=
  (decimalZeros.find? fun first => decide (first ≤ character.toNat) && decide (character.toNat < first + 10)).map
    (character.toNat - ·)

def isDecimalChar (character : Char) : Bool := (decimalValue character).isSome

def isDigitChar (character : Char) : Bool :=
  isDecimalChar character ||
    otherDigits.any fun range => decide (range.1 ≤ character.toNat) && decide (character.toNat ≤ range.2)

/-- `str.isdigit` -/
def isDigit (text : String) : Bool := !text.toList.isEmpty && text.toList.all isDigitChar

/-- `sys.int_info.default_max_str_digits` -/
def maxStrDigits : Nat := 4300

def value (characters : List Char) : Nat :=
  characters.foldl (fun soFar character => 10 * soFar + (decimalValue character).getD 0) 0

def invalidMessage (text : String) : String := "invalid literal for int() with base 10: \x27" ++ text ++ "\x27"

def limitMessage (count : Nat) : String :=
  s!"Exceeds the limit ({maxStrDigits} digits) for integer string conversion: value has {count} digits; " ++
    "use sys.set_int_max_str_digits() to increase the limit"

/-- What `int` makes of a text without sign, blanks and underscores; it raises a
`ValueError` with the message. -/
def parse (text : String) : Except String Nat :=
  if text.toList.isEmpty || !text.toList.all isDecimalChar then .error (invalidMessage text)
  else if maxStrDigits < text.toList.length then .error (limitMessage text.toList.length)
  else .ok (value text.toList)

/-- The digits are ones that `int` converts. -/
def Convertible (text : String) : Prop :=
  text.toList.all isDecimalChar = true ∧ text.toList.length ≤ maxStrDigits

instance (text : String) : Decidable (Convertible text) := inferInstanceAs (Decidable (_ ∧ _))

theorem parse_ok_iff {text : String} (digits : isDigit text = true) :
    (∃ number, parse text = .ok number) ↔ Convertible text := by
  have nonempty : text.toList.isEmpty = false := by
    simpa using ((Bool.and_eq_true _ _).mp digits).1
  unfold parse Convertible
  rw [nonempty, Bool.false_or]
  cases text.toList.all isDecimalChar with
  | false => simp
  | true =>
    by_cases tooMany : maxStrDigits < text.toList.length
    · simp [tooMany]
    · simp [tooMany, Nat.not_lt.1 tooMany]

/-! ## The digits of a number -/

theorem decimalValue_of_ascii {character : Char} (ascii : character.isDigit = true) :
    decimalValue character = some (character.toNat - '0'.toNat) := by
  have lower : 0x30 ≤ character.toNat := (Char.isDigit_iff_toNat.1 ascii).1
  have upper : character.toNat < 0x30 + 10 := Nat.lt_succ_of_le (Char.isDigit_iff_toNat.1 ascii).2
  unfold decimalValue decimalZeros
  rw [List.find?_cons_of_pos (by rw [decide_eq_true lower, decide_eq_true upper]; rfl)]
  rfl

theorem value_eq_ofDigitChars {characters : List Char} (ascii : ∀ c ∈ characters, c.isDigit = true) :
    value characters = Nat.ofDigitChars 10 characters 0 := by
  unfold value
  rw [Nat.ofDigitChars_eq_foldl]
  refine List.foldl_ext _ _ _ fun soFar character member => ?_
  rw [decimalValue_of_ascii (ascii character member), Option.getD_some]

theorem digits_of_repr (number : Nat) : ∀ c ∈ (toString number).toList, c.isDigit = true := by
  intro c member
  rw [Nat.toString_eq_repr, Nat.toList_repr] at member
  exact Nat.isDigit_of_mem_toDigits (by decide) (by decide) member

theorem isDigit_toString (number : Nat) : isDigit (toString number) = true := by
  refine (Bool.and_eq_true _ _).mpr ⟨?_, List.all_eq_true.2 fun c member => ?_⟩
  · simp
  · rw [isDigitChar, isDecimalChar, decimalValue_of_ascii (digits_of_repr number c member)]
    rfl

/-- Numbers with the same digits are the same. -/
theorem toString_inj {number other : Nat} (same : toString number = toString other) : number = other := by
  have digits := congrArg String.toList same
  rw [Nat.toString_eq_repr, Nat.toString_eq_repr, Nat.toList_repr, Nat.toList_repr] at digits
  have values := congrArg (Nat.ofDigitChars 10 · 0) digits
  simpa only [Nat.ofDigitChars_ten_toDigits] using values

/-- Numbered names of one stem have the same number only if they are the same. -/
theorem append_toString_inj {stem : String} {number other : Nat} (same : stem ++ toString number = stem ++ toString other) :
    number = other := by
  have characters := congrArg String.toList same
  rw [String.toList_append, String.toList_append] at characters
  exact toString_inj (String.toList_inj.1 (List.append_cancel_left characters))

/-- Whatever `int` makes of the digits of a number is the number. -/
theorem parse_toString {number parsed : Nat} (result : parse (toString number) = .ok parsed) : parsed = number := by
  unfold parse at result
  split at result
  · cases result
  · split at result
    · cases result
    · cases result
      rw [value_eq_ofDigitChars (digits_of_repr number), Nat.toString_eq_repr, Nat.toList_repr]
      exact Nat.ofDigitChars_ten_toDigits

end Agentfork.Digits

import Mathlib.Data.Nat.Notation

/-! # Base64

The encoder writes four digits for three bytes and pads the last group. The decoder
passes over what is no digit, stops at the padding and tells a text that ends in
the middle of a group. -/

namespace Agentfork.Base64

def alphabet : List Char := "ABCDEFGHIJKLMNOPQRSTUVWXYZabcdefghijklmnopqrstuvwxyz0123456789+/".toList

def digit (value : Nat) : Char := alphabet.getD value 'A'

def value? (char : Char) : Option Nat := alphabet.idxOf? char

def encode : List UInt8 → List Char
  | [] => []
  | [first] => [digit (first.toNat / 4), digit (first.toNat % 4 * 16), '=', '=']
  | [first, second] =>
    [digit (first.toNat / 4), digit (first.toNat % 4 * 16 + second.toNat / 16), digit (second.toNat % 16 * 4), '=']
  | first :: second :: third :: rest =>
    digit (first.toNat / 4) :: digit (first.toNat % 4 * 16 + second.toNat / 16) ::
      digit (second.toNat % 16 * 4 + third.toNat / 64) :: digit (third.toNat % 64) :: encode rest

/-- The decoder after `quad` digits of a group, with the bits that are left of
them, the pads since the last digit and the number of bytes written. -/
def decodeFrom (quad left pads written : Nat) : List Char → Except String (List UInt8)
  | [] =>
    if quad = 0 then .ok []
    else if quad = 1 then
      .error (s!"Invalid base64-encoded string: number of data characters ({written / 3 * 4 + 1}) " ++
        "cannot be 1 more than a multiple of 4")
    else .error "Incorrect padding"
  | char :: rest =>
    if char = '=' then
      if quad < 2 then decodeFrom quad left pads written rest
      else if 4 ≤ quad + (pads + 1) then .ok []
      else decodeFrom quad left (pads + 1) written rest
    else
      match value? char with
      | none => decodeFrom quad left pads written rest
      | some value =>
        match quad with
        | 0 => decodeFrom 1 value 0 written rest
        | 1 => (decodeFrom 2 (value % 16) 0 (written + 1) rest).map (UInt8.ofNat (left * 4 + value / 16) :: ·)
        | 2 => (decodeFrom 3 (value % 4) 0 (written + 1) rest).map (UInt8.ofNat (left * 16 + value / 4) :: ·)
        | _ => (decodeFrom 0 0 0 (written + 1) rest).map (UInt8.ofNat (left * 64 + value) :: ·)

/-- The decoding of a text, which may have ASCII characters only. -/
def decode (text : List Char) : Except String (List UInt8) :=
  if text.all fun char => char.toNat < 128 then decodeFrom 0 0 0 0 text
  else .error "string argument should contain only ASCII characters"

/-! ## Digits -/

theorem value?_digit {value : Nat} (inside : value < 64) : value? (digit value) = some value := by
  have all : ∀ value < 64, value? (digit value) = some value := by decide +kernel
  exact all value inside

theorem digit_ne_pad {value : Nat} (inside : value < 64) : digit value ≠ '=' := by
  have all : ∀ value < 64, digit value ≠ '=' := by decide +kernel
  exact all value inside

theorem digit_ascii {value : Nat} (inside : value < 64) : (digit value).toNat < 128 := by
  have all : ∀ value < 64, (digit value).toNat < 128 := by decide +kernel
  exact all value inside

variable {left pads written value : Nat} {rest : List Char}

theorem decodeFrom_first (inside : value < 64) :
    decodeFrom 0 left pads written (digit value :: rest) = decodeFrom 1 value 0 written rest := by
  simp only [decodeFrom, if_neg (digit_ne_pad inside), value?_digit inside]

theorem decodeFrom_second (inside : value < 64) :
    decodeFrom 1 left pads written (digit value :: rest) =
      (decodeFrom 2 (value % 16) 0 (written + 1) rest).map (UInt8.ofNat (left * 4 + value / 16) :: ·) := by
  simp only [decodeFrom, if_neg (digit_ne_pad inside), value?_digit inside]

theorem decodeFrom_third (inside : value < 64) :
    decodeFrom 2 left pads written (digit value :: rest) =
      (decodeFrom 3 (value % 4) 0 (written + 1) rest).map (UInt8.ofNat (left * 16 + value / 4) :: ·) := by
  simp only [decodeFrom, if_neg (digit_ne_pad inside), value?_digit inside]

theorem decodeFrom_fourth (inside : value < 64) :
    decodeFrom 3 left pads written (digit value :: rest) =
      (decodeFrom 0 0 0 (written + 1) rest).map (UInt8.ofNat (left * 64 + value) :: ·) := by
  simp only [decodeFrom, if_neg (digit_ne_pad inside), value?_digit inside]

/-! ## The round trip -/

theorem ofNat_eq {byte : UInt8} {number : Nat} (same : number = byte.toNat) : UInt8.ofNat number = byte := by
  rw [same, UInt8.ofNat_toNat]

/-- The first byte of a group is in its first two digits. -/
theorem first_eq (first : UInt8) {low : Nat} (small : low < 16) :
    UInt8.ofNat (first.toNat / 4 * 4 + (first.toNat % 4 * 16 + low) / 16) = first := by
  apply ofNat_eq
  omega

theorem second_eq (high : Nat) (second : UInt8) {low : Nat} (small : low < 4) :
    UInt8.ofNat ((high * 16 + second.toNat / 16) % 16 * 16 + (second.toNat % 16 * 4 + low) / 4) = second := by
  have byte := second.toNat_lt
  apply ofNat_eq
  omega

theorem third_eq (high : Nat) (third : UInt8) :
    UInt8.ofNat ((high * 4 + third.toNat / 64) % 4 * 64 + third.toNat % 64) = third := by
  have byte := third.toNat_lt
  apply ofNat_eq
  omega

theorem decodeFrom_encode (data : List UInt8) (written : Nat) : decodeFrom 0 0 0 written (encode data) = .ok data := by
  induction data using encode.induct generalizing written with
  | case1 => rfl
  | case2 first =>
    have byte := first.toNat_lt
    have isFirst := first_eq first (show 0 < 16 by decide)
    rw [Nat.add_zero] at isFirst
    rw [encode, decodeFrom_first (by omega), decodeFrom_second (by omega), isFirst]
    rfl
  | case3 first second =>
    have byte := first.toNat_lt
    have secondByte := second.toNat_lt
    have isFirst := first_eq first (show second.toNat / 16 < 16 by omega)
    have isSecond := second_eq (first.toNat % 4) second (show 0 < 4 by decide)
    rw [Nat.add_zero] at isSecond
    rw [encode, decodeFrom_first (by omega), decodeFrom_second (by omega), decodeFrom_third (by omega), isFirst, isSecond]
    rfl
  | case4 first second third rest inductionHypothesis =>
    have byte := first.toNat_lt
    have secondByte := second.toNat_lt
    have thirdByte := third.toNat_lt
    have isFirst := first_eq first (show second.toNat / 16 < 16 by omega)
    have isSecond := second_eq (first.toNat % 4) second (show third.toNat / 64 < 4 by omega)
    have isThird := third_eq (second.toNat % 16) third
    rw [encode, decodeFrom_first (by omega), decodeFrom_second (by omega), decodeFrom_third (by omega),
      decodeFrom_fourth (by omega), inductionHypothesis, isFirst, isSecond, isThird]
    rfl

theorem encode_ascii (data : List UInt8) : ∀ char ∈ encode data, char.toNat < 128 := by
  have pad : ('=').toNat < 128 := by decide
  induction data using encode.induct with
  | case1 => exact fun _ member => absurd member List.not_mem_nil
  | case2 first =>
    have byte := first.toNat_lt
    simp only [encode, List.forall_mem_cons]
    exact ⟨digit_ascii (by omega), digit_ascii (by omega), pad, pad, fun _ member => absurd member List.not_mem_nil⟩
  | case3 first second =>
    have byte := first.toNat_lt
    have secondByte := second.toNat_lt
    simp only [encode, List.forall_mem_cons]
    exact ⟨digit_ascii (by omega), digit_ascii (by omega), digit_ascii (by omega), pad,
      fun _ member => absurd member List.not_mem_nil⟩
  | case4 first second third rest inductionHypothesis =>
    have byte := first.toNat_lt
    have secondByte := second.toNat_lt
    have thirdByte := third.toNat_lt
    simp only [encode, List.forall_mem_cons]
    exact ⟨digit_ascii (by omega), digit_ascii (by omega), digit_ascii (by omega), digit_ascii (by omega),
      inductionHypothesis⟩

/-- What was encoded is what is decoded. -/
theorem decode_encode (data : List UInt8) : decode (encode data) = .ok data := by
  have ascii : (encode data).all (fun char => char.toNat < 128) = true :=
    List.all_eq_true.2 fun char member => decide_eq_true (encode_ascii data char member)
  rw [decode, if_pos ascii, decodeFrom_encode]

end Agentfork.Base64

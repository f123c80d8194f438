import Mathlib.Algebra.Group.Nat.Defs
import Mathlib.Data.List.GetD

/-! # SHA-256

The hash function of FIPS 180-4 on a list of bytes, with its digest as a string
of hexadecimal digits. -/

namespace Agentfork.Sha256

abbrev Word := BitVec 32

/-! ## The functions of a round -/

def choose (x y z : Word) : Word := (x &&& y) ^^^ (~~~x &&& z)

def majority (x y z : Word) : Word := (x &&& y) ^^^ (x &&& z) ^^^ (y &&& z)

def sum0 (x : Word) : Word := x.rotateRight 2 ^^^ x.rotateRight 13 ^^^ x.rotateRight 22

def sum1 (x : Word) : Word := x.rotateRight 6 ^^^ x.rotateRight 11 ^^^ x.rotateRight 25

def sigma0 (x : Word) : Word := x.rotateRight 7 ^^^ x.rotateRight 18 ^^^ (x >>> 3)

def sigma1 (x : Word) : Word := x.rotateRight 17 ^^^ x.rotateRight 19 ^^^ (x >>> 10)

/-- The first 32 bits of the fractional parts of the cube roots of the first 64 primes. -/
def roundConstants : List Word :=
  [0x428a2f98, 0x71374491, 0xb5c0fbcf, 0xe9b5dba5, 0x3956c25b, 0x59f111f1, 0x923f82a4, 0xab1c5ed5,
   0xd807aa98, 0x12835b01, 0x243185be, 0x550c7dc3, 0x72be5d74, 0x80deb1fe, 0x9bdc06a7, 0xc19bf174,
   0xe49b69c1, 0xefbe4786, 0x0fc19dc6, 0x240ca1cc, 0x2de92c6f, 0x4a7484aa, 0x5cb0a9dc, 0x76f988da,
   0x983e5152, 0xa831c66d, 0xb00327c8, 0xbf597fc7, 0xc6e00bf3, 0xd5a79147, 0x06ca6351, 0x14292967,
   0x27b70a85, 0x2e1b2138, 0x4d2c6dfc, 0x53380d13, 0x650a7354, 0x766a0abb, 0x81c2c92e, 0x92722c85,
   0xa2bfe8a1, 0xa81a664b, 0xc24b8b70, 0xc76c51a3, 0xd192e819, 0xd6990624, 0xf40e3585, 0x106aa070,
   0x19a4c116, 0x1e376c08, 0x2748774c, 0x34b0bcb5, 0x391c0cb3, 0x4ed8aa4a, 0x5b9cca4f, 0x682e6ff3,
   0x748f82ee, 0x78a5636f, 0x84c87814, 0x8cc70208, 0x90befffa, 0xa4506ceb, 0xbef9a3f7, 0xc67178f2]

structure Registers where
  a : Word
  b : Word
  c : Word
  d : Word
  e : Word
  f : Word
  g : Word
  h : Word

/-- The first 32 bits of the fractional parts of the square roots of the first 8 primes. -/
def initial : Registers where
  a := 0x6a09e667
  b := 0xbb67ae85
  c := 0x3c6ef372
  d := 0xa54ff53a
  e := 0x510e527f
  f := 0x9b05688c
  g := 0x1f83d9ab
  h := 0x5be0cd19

namespace Registers

def round (registers : Registers) (constant word : Word) : Registers :=
  let first := registers.h + sum1 registers.e + choose registers.e registers.f registers.g + constant + word
  let second := sum0 registers.a + majority registers.a registers.b registers.c
  ⟨first + second, registers.a, registers.b, registers.c, registers.d + first, registers.e, registers.f, registers.g⟩

def add (left right : Registers) : Registers :=
  ⟨left.a + right.a, left.b + right.b, left.c + right.c, left.d + right.d,
    left.e + right.e, left.f + right.f, left.g + right.g, left.h + right.h⟩

def words (registers : Registers) : List Word :=
  [registers.a, registers.b, registers.c, registers.d, registers.e, registers.f, registers.g, registers.h]

end Registers

/-! ## Blocks -/

/-- The message schedule from a window of the last 16 words. -/
def schedule : Nat → List Word → List Word
  | 0, _ => []
  | count + 1, window =>
    let next := sigma1 (window.getD 14 0) + window.getD 9 0 + sigma0 (window.getD 1 0) + window.getD 0 0
    window.getD 0 0 :: schedule count (window.drop 1 ++ [next])

def compress (registers : Registers) (block : List Word) : Registers :=
  registers.add ((roundConstants.zip (schedule 64 block)).foldl
    (fun registers (constant, word) => registers.round constant word) registers)

/-- A bit one, zeros, and the number of bits in 64 bits, up to a full block. -/
def pad (message : List UInt8) : List UInt8 :=
  let bits := 8 * message.length
  message ++ [0x80] ++ List.replicate ((119 - message.length % 64) % 64) 0 ++
    (List.range 8).map fun i => UInt8.ofNat (bits / 2 ^ (8 * (7 - i)))

/-- Bytes as words, most significant byte first. -/
def words : List UInt8 → List Word
  | first :: second :: third :: fourth :: rest =>
    BitVec.ofNat 32 (((first.toNat * 256 + second.toNat) * 256 + third.toNat) * 256 + fourth.toNat) :: words rest
  | _ => []

def blocks : Nat → List Word → List (List Word)
  | 0, _ => []
  | count + 1, words => words.take 16 :: blocks count (words.drop 16)

def hash (message : List UInt8) : Registers :=
  let padded := words (pad message)
  (blocks (padded.length / 16) padded).foldl compress initial

/-! ## The digest in hexadecimal -/

def hexDigits : List Char := "0123456789abcdef".toList

def hexDigit (value : Nat) : Char := hexDigits.getD value '0'

def hexWord (word : Word) : List Char := (List.range 8).map fun i => hexDigit (word.toNat / 16 ^ (7 - i) % 16)

/-- `hashlib.sha256(message).hexdigest()` -/
def hexdigest (message : List UInt8) : List Char := (hash message).words.flatMap hexWord

example : hexdigest [0x61, 0x62, 0x63] =
    "ba7816bf8f01cfea414140de5dae2223b00361a396177a9cb410ff61f20015ad".toList := by decide +kernel

theorem length_hexdigest (message : List UInt8) : (hexdigest message).length = 64 := rfl

theorem hexdigest_hex (message : List UInt8) : ∀ digit ∈ hexdigest message, digit ∈ hexDigits := by
  intro digit member
  obtain ⟨word, _, isDigit⟩ := List.mem_flatMap.1 member
  obtain ⟨i, _, rfl⟩ := List.mem_map.1 isDigit
  have small : word.toNat / 16 ^ (7 - i) % 16 < hexDigits.length := Nat.mod_lt _ (by decide)
  rw [hexDigit, List.getD_eq_getElem _ _ small]
  exact List.getElem_mem small

end Agentfork.Sha256

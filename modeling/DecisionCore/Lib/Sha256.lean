import Mathlib.Data.Nat.Bitwise

/-!
# SHA-256

The hash function of FIPS 180-4 on lists of bytes.  Words are natural numbers below `2 ^ 32`; the
message schedule is the sliding window of its last sixteen words.
-/

namespace DecisionCore.Sha256

/-- The first 32 bits of the fractional parts of the cube roots of the first 64 primes. -/
def roundConstants : List ℕ :=
  [0x428a2f98, 0x71374491, 0xb5c0fbcf, 0xe9b5dba5, 0x3956c25b, 0x59f111f1, 0x923f82a4, 0xab1c5ed5,
    0xd807aa98, 0x12835b01, 0x243185be, 0x550c7dc3, 0x72be5d74, 0x80deb1fe, 0x9bdc06a7, 0xc19bf174,
    0xe49b69c1, 0xefbe4786, 0x0fc19dc6, 0x240ca1cc, 0x2de92c6f, 0x4a7484aa, 0x5cb0a9dc, 0x76f988da,
    0x983e5152, 0xa831c66d, 0xb00327c8, 0xbf597fc7, 0xc6e00bf3, 0xd5a79147, 0x06ca6351, 0x14292967,
    0x27b70a85, 0x2e1b2138, 0x4d2c6dfc, 0x53380d13, 0x650a7354, 0x766a0abb, 0x81c2c92e, 0x92722c85,
    0xa2bfe8a1, 0xa81a664b, 0xc24b8b70, 0xc76c51a3, 0xd192e819, 0xd6990624, 0xf40e3585, 0x106aa070,
    0x19a4c116, 0x1e376c08, 0x2748774c, 0x34b0bcb5, 0x391c0cb3, 0x4ed8aa4a, 0x5b9cca4f, 0x682e6ff3,
    0x748f82ee, 0x78a5636f, 0x84c87814, 0x8cc70208, 0x90befffa, 0xa4506ceb, 0xbef9a3f7, 0xc67178f2]

/-- The eight working variables. -/
structure Words where
  a : ℕ
  b : ℕ
  c : ℕ
  d : ℕ
  e : ℕ
  f : ℕ
  g : ℕ
  h : ℕ

def Words.initial : Words :=
  ⟨0x6a09e667, 0xbb67ae85, 0x3c6ef372, 0xa54ff53a, 0x510e527f, 0x9b05688c, 0x1f83d9ab, 0x5be0cd19⟩

/-- Addition modulo `2 ^ 32`. -/
def addWord (x y : ℕ) : ℕ := (x + y) % 4294967296

def rotateRight (count word : ℕ) : ℕ := (word >>> count) ||| (word <<< (32 - count)) % 4294967296

/-- One round on the working variables, with the sum of its constant and its schedule word. -/
def round (s : Words) (input : ℕ) : Words :=
  let sum₁ := rotateRight 6 s.e ^^^ rotateRight 11 s.e ^^^ rotateRight 25 s.e
  let choice := (s.e &&& s.f) ^^^ ((4294967295 - s.e) &&& s.g)
  let first := addWord (s.h + sum₁ + choice) input
  let sum₀ := rotateRight 2 s.a ^^^ rotateRight 13 s.a ^^^ rotateRight 22 s.a
  let majority := (s.a &&& s.b) ^^^ (s.a &&& s.c) ^^^ (s.b &&& s.c)
  ⟨addWord first (sum₀ + majority), s.a, s.b, s.c, addWord s.d first, s.e, s.f, s.g⟩

/-- The word that enters the schedule window. -/
def scheduleWord (window : List ℕ) : ℕ :=
  let w₁ := window.getD 1 0
  let w₁₄ := window.getD 14 0
  let sigma₀ := rotateRight 7 w₁ ^^^ rotateRight 18 w₁ ^^^ (w₁ >>> 3)
  let sigma₁ := rotateRight 17 w₁₄ ^^^ rotateRight 19 w₁₄ ^^^ (w₁₄ >>> 10)
  addWord (window.getD 0 0 + sigma₀) (window.getD 9 0 + sigma₁)

def rounds (window : List ℕ) (s : Words) : List ℕ → Words
  | [] => s
  | constant :: rest =>
    rounds (window.drop 1 ++ [scheduleWord window]) (round s (constant + window.getD 0 0)) rest

/-- The compression function on a block of sixteen words. -/
def compress (s : Words) (block : List ℕ) : Words :=
  let r := rounds block s roundConstants
  ⟨addWord s.a r.a, addWord s.b r.b, addWord s.c r.c, addWord s.d r.d, addWord s.e r.e, addWord s.f r.f,
    addWord s.g r.g, addWord s.h r.h⟩

/-- Big-endian words of a message. -/
def wordsOf : List UInt8 → List ℕ
  | b₃ :: b₂ :: b₁ :: b₀ :: rest =>
    (b₃.toNat * 16777216 + b₂.toNat * 65536 + b₁.toNat * 256 + b₀.toNat) :: wordsOf rest
  | _ => []

def bytesOf (word : ℕ) : List UInt8 :=
  [.ofNat (word / 16777216), .ofNat (word / 65536), .ofNat (word / 256), .ofNat word]

/-- A one bit, zeros up to a multiple of 64 bytes, and the bit length in the last eight of them. -/
def padMessage (data : List UInt8) : List UInt8 :=
  data ++ 0x80 :: List.replicate ((119 - data.length % 64) % 64) 0 ++
    (bytesOf (8 * data.length / 4294967296) ++ bytesOf (8 * data.length))

def blocksOf (words : List ℕ) : List (List ℕ) :=
  (List.range (words.length / 16)).map fun i ↦ (words.drop (16 * i)).take 16

def digest (data : List UInt8) : List UInt8 :=
  let s := (blocksOf (wordsOf (padMessage data))).foldl compress .initial
  [s.a, s.b, s.c, s.d, s.e, s.f, s.g, s.h].flatMap bytesOf

@[simp] theorem digest_length (data : List UInt8) : (digest data).length = 32 := by
  simp [digest, bytesOf]

example : (digest [0x61, 0x62, 0x63]).take 4 = [0xba, 0x78, 0x16, 0xbf] := by decide +kernel

end DecisionCore.Sha256

import Mathlib

/-!
SHA-256 on lists of bytes.  Words are natural numbers below 2^32, and the message
schedule is a window of sixteen words that moves on with every round.
-/

namespace Qcm.Lib.Sha2

def word (value : Nat) : Nat := value % 2 ^ 32

def rotate (value count : Nat) : Nat := (value >>> count) ||| word (value <<< (32 - count))

/-- The round constants. -/
def constants : List Nat := [
  0x428a2f98, 0x71374491, 0xb5c0fbcf, 0xe9b5dba5, 0x3956c25b, 0x59f111f1, 0x923f82a4, 0xab1c5ed5,
  0xd807aa98, 0x12835b01, 0x243185be, 0x550c7dc3, 0x72be5d74, 0x80deb1fe, 0x9bdc06a7, 0xc19bf174,
  0xe49b69c1, 0xefbe4786, 0x0fc19dc6, 0x240ca1cc, 0x2de92c6f, 0x4a7484aa, 0x5cb0a9dc, 0x76f988da,
  0x983e5152, 0xa831c66d, 0xb00327c8, 0xbf597fc7, 0xc6e00bf3, 0xd5a79147, 0x06ca6351, 0x14292967,
  0x27b70a85, 0x2e1b2138, 0x4d2c6dfc, 0x53380d13, 0x650a7354, 0x766a0abb, 0x81c2c92e, 0x92722c85,
  0xa2bfe8a1, 0xa81a664b, 0xc24b8b70, 0xc76c51a3, 0xd192e819, 0xd6990624, 0xf40e3585, 0x106aa070,
  0x19a4c116, 0x1e376c08, 0x2748774c, 0x34b0bcb5, 0x391c0cb3, 0x4ed8aa4a, 0x5b9cca4f, 0x682e6ff3,
  0x748f82ee, 0x78a5636f, 0x84c87814, 0x8cc70208, 0x90befffa, 0xa4506ceb, 0xbef9a3f7, 0xc67178f2]

/-- The eight words of the state. -/
structure State where
  a : Nat
  b : Nat
  c : Nat
  d : Nat
  e : Nat
  f : Nat
  g : Nat
  h : Nat

def State.initial : State :=
  ⟨0x6a09e667, 0xbb67ae85, 0x3c6ef372, 0xa54ff53a,
    0x510e527f, 0x9b05688c, 0x1f83d9ab, 0x5be0cd19⟩

def choose (x y z : Nat) : Nat := (x &&& y) ^^^ ((2 ^ 32 - 1 - x) &&& z)
def majority (x y z : Nat) : Nat := (x &&& y) ^^^ (x &&& z) ^^^ (y &&& z)

def State.round (s : State) (input : Nat) : State :=
  let first := s.h + (rotate s.e 6 ^^^ rotate s.e 11 ^^^ rotate s.e 25) + choose s.e s.f s.g + input
  let second := (rotate s.a 2 ^^^ rotate s.a 13 ^^^ rotate s.a 22) + majority s.a s.b s.c
  ⟨word (first + second), s.a, s.b, s.c, word (s.d + first), s.e, s.f, s.g⟩

/-- The word that enters the window of the schedule. -/
def entering (window : List Nat) : Nat :=
  let late := window.getD 14 0
  let early := window.getD 1 0
  word ((rotate late 17 ^^^ rotate late 19 ^^^ (late >>> 10)) + window.getD 9 0 +
    (rotate early 7 ^^^ rotate early 18 ^^^ (early >>> 3)) + window.headD 0)

def rounds : List Nat → List Nat → State → State
  | [], _, s => s
  | constant :: rest, window, s =>
    rounds rest (window.tail ++ [entering window]) (s.round (constant + window.headD 0))

def compress (s : State) (block : List Nat) : State :=
  let t := rounds constants block s
  ⟨word (s.a + t.a), word (s.b + t.b), word (s.c + t.c), word (s.d + t.d),
    word (s.e + t.e), word (s.f + t.f), word (s.g + t.g), word (s.h + t.h)⟩

def bigEndian (bytes : List UInt8) : Nat := bytes.foldl (fun value byte => 256 * value + byte.toNat) 0

def encode (count value : Nat) : List UInt8 :=
  (List.range count).map fun index => UInt8.ofNat (value / 256 ^ (count - 1 - index))

/-- The message with its padding and its length in bits. -/
def pad (bytes : List UInt8) : List UInt8 :=
  bytes ++ 0x80 :: List.replicate ((119 - bytes.length % 64) % 64) 0 ++ encode 8 (8 * bytes.length)

/-- So many consecutive pieces of one length. -/
def pieces (length : Nat) : Nat → List UInt8 → List (List UInt8)
  | 0, _ => []
  | count + 1, bytes => bytes.take length :: pieces length count (bytes.drop length)

def words (block : List UInt8) : List Nat := (pieces 4 16 block).map bigEndian

/-- SHA-256. -/
def hash (bytes : List UInt8) : List UInt8 :=
  let padded := pad bytes
  let s := (pieces 64 (padded.length / 64) padded).foldl (fun s block => compress s (words block)) State.initial
  [s.a, s.b, s.c, s.d, s.e, s.f, s.g, s.h].flatMap (encode 4)

/-- The first bytes of the digest of "abc". -/
example : (hash [97, 98, 99]).take 4 = [0xba, 0x78, 0x16, 0xbf] := by decide +kernel

theorem hash_length (bytes : List UInt8) : (hash bytes).length = 32 := by
  simp [hash, encode]

end Qcm.Lib.Sha2

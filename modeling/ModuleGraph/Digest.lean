import ModuleGraph.Text.Hex
import ModuleGraph.Text.Utf8
/-!
# Digests

The SHA-256 digest of a sequence of bytes. The message is padded to blocks of sixteen words of 32
bits; every block is spread to 64 words, which drive as many rounds on a state of eight words.
-/

namespace ModuleGraph.Digest

/-- The words that the rounds add: the first 32 bits of the fractional parts of the cube roots of
the first 64 primes. -/
def roundWords : List UInt32 :=
  [0x428a2f98, 0x71374491, 0xb5c0fbcf, 0xe9b5dba5, 0x3956c25b, 0x59f111f1, 0x923f82a4, 0xab1c5ed5,
   0xd807aa98, 0x12835b01, 0x243185be, 0x550c7dc3, 0x72be5d74, 0x80deb1fe, 0x9bdc06a7, 0xc19bf174,
   0xe49b69c1, 0xefbe4786, 0x0fc19dc6, 0x240ca1cc, 0x2de92c6f, 0x4a7484aa, 0x5cb0a9dc, 0x76f988da,
   0x983e5152, 0xa831c66d, 0xb00327c8, 0xbf597fc7, 0xc6e00bf3, 0xd5a79147, 0x06ca6351, 0x14292967,
   0x27b70a85, 0x2e1b2138, 0x4d2c6dfc, 0x53380d13, 0x650a7354, 0x766a0abb, 0x81c2c92e, 0x92722c85,
   0xa2bfe8a1, 0xa81a664b, 0xc24b8b70, 0xc76c51a3, 0xd192e819, 0xd6990624, 0xf40e3585, 0x106aa070,
   0x19a4c116, 0x1e376c08, 0x2748774c, 0x34b0bcb5, 0x391c0cb3, 0x4ed8aa4a, 0x5b9cca4f, 0x682e6ff3,
   0x748f82ee, 0x78a5636f, 0x84c87814, 0x8cc70208, 0x90befffa, 0xa4506ceb, 0xbef9a3f7, 0xc67178f2]

/-- The state of eight words. -/
structure State where
  a : UInt32
  b : UInt32
  c : UInt32
  d : UInt32
  e : UInt32
  f : UInt32
  g : UInt32
  h : UInt32
  deriving DecidableEq, Repr

/-- The state before the first block: the first 32 bits of the fractional parts of the square
roots of the first eight primes. -/
def State.initial : State :=
  ⟨0x6a09e667, 0xbb67ae85, 0x3c6ef372, 0xa54ff53a, 0x510e527f, 0x9b05688c, 0x1f83d9ab, 0x5be0cd19⟩

/-- The words of a state, one by one. -/
def State.words (s : State) : List UInt32 := [s.a, s.b, s.c, s.d, s.e, s.f, s.g, s.h]

/-- The sum of two states, word by word. -/
def State.add (s t : State) : State :=
  ⟨s.a + t.a, s.b + t.b, s.c + t.c, s.d + t.d, s.e + t.e, s.f + t.f, s.g + t.g, s.h + t.h⟩

/-- A word turned right by `n` bits. -/
def turn (x : UInt32) (n : UInt32) : UInt32 := (x >>> n) ||| (x <<< (32 - n))

/-- One round, with a word of the block and the word that the round adds. -/
def round (s : State) (word added : UInt32) : State :=
  let mixE := turn s.e 6 ^^^ turn s.e 11 ^^^ turn s.e 25
  let choice := (s.e &&& s.f) ^^^ ((~~~ s.e) &&& s.g)
  let first := s.h + mixE + choice + added + word
  let mixA := turn s.a 2 ^^^ turn s.a 13 ^^^ turn s.a 22
  let majority := (s.a &&& s.b) ^^^ (s.a &&& s.c) ^^^ (s.b &&& s.c)
  ⟨first + (mixA + majority), s.a, s.b, s.c, s.d + first, s.e, s.f, s.g⟩

/-- The next word of a block that is being spread, by its last sixteen words, the latest first. -/
def nextWord (latest : List UInt32) : UInt32 :=
  let at_ := fun i => (latest[i]?).getD 0
  let low := turn (at_ 14) 7 ^^^ turn (at_ 14) 18 ^^^ (at_ 14 >>> 3)
  let high := turn (at_ 1) 17 ^^^ turn (at_ 1) 19 ^^^ (at_ 1 >>> 10)
  high + at_ 6 + low + at_ 15

/-- The words of a block with `n` more of them, the latest first. -/
def spread : (n : Nat) → (latest : List UInt32) → List UInt32
  | 0, latest => latest
  | n + 1, latest => spread n (nextWord latest :: latest)

/-- The state after a block of sixteen words. -/
def absorb (s : State) (block : List UInt32) : State :=
  let words := (spread 48 block.reverse).reverse
  s.add ((words.zip roundWords).foldl (fun s p => round s p.1 p.2) s)

/-- `width` bytes of a number, the highest first. -/
def bigEndian : (width n : Nat) → List UInt8
  | 0, _ => []
  | w + 1, n => bigEndian w (n / 256) ++ [UInt8.ofNat n]

/-- The message with a mark at its end, zeros, and its length in bits. -/
def pad (message : List UInt8) : List UInt8 :=
  let used := (message.length + 9) % 64
  message ++ 0x80 :: List.replicate ((64 - used) % 64) 0 ++ bigEndian 8 (8 * message.length)

/-- The words of a sequence of bytes. -/
def wordsOf : List UInt8 → List UInt32
  | a :: b :: c :: d :: r =>
    (a.toUInt32 <<< 24 ||| b.toUInt32 <<< 16 ||| c.toUInt32 <<< 8 ||| d.toUInt32) :: wordsOf r
  | _ => []

/-- The state after `n` blocks of the words. -/
def absorbAll : (n : Nat) → State → List UInt32 → State
  | 0, s, _ => s
  | n + 1, s, words => absorbAll n (absorb s (words.take 16)) (words.drop 16)

/-- The digest of a message: 32 bytes. -/
def sha256 (message : List UInt8) : List UInt8 :=
  let words := wordsOf (pad message)
  (absorbAll (words.length / 16) .initial words).words.flatMap fun w => bigEndian 4 w.toNat

/-- The digest of a text in hexadecimal digits. -/
def ofText (s : String) : String := Hex.ofBytes (sha256 (Utf8.encode s))

end ModuleGraph.Digest

import SegmentWire.Bytes

/-!
# SHA-256 — content fingerprints

A fingerprint is the SHA-256 digest of the bytes in hexadecimal, behind the name of the digest.
It names contents in logs and caches; it is not part of the wire format.

* **`Sha256.digest`** — the digest, computed block by block.
* **`fingerprint`** — its text form.
-/

namespace SegmentWire

namespace Sha256

/-- The round constants: the first 32 bits of the fractional parts of the cube roots of the first
    64 primes. -/
def roundConstants : Array UInt32 := #[
  0x428a2f98, 0x71374491, 0xb5c0fbcf, 0xe9b5dba5, 0x3956c25b, 0x59f111f1, 0x923f82a4, 0xab1c5ed5,
  0xd807aa98, 0x12835b01, 0x243185be, 0x550c7dc3, 0x72be5d74, 0x80deb1fe, 0x9bdc06a7, 0xc19bf174,
  0xe49b69c1, 0xefbe4786, 0x0fc19dc6, 0x240ca1cc, 0x2de92c6f, 0x4a7484aa, 0x5cb0a9dc, 0x76f988da,
  0x983e5152, 0xa831c66d, 0xb00327c8, 0xbf597fc7, 0xc6e00bf3, 0xd5a79147, 0x06ca6351, 0x14292967,
  0x27b70a85, 0x2e1b2138, 0x4d2c6dfc, 0x53380d13, 0x650a7354, 0x766a0abb, 0x81c2c92e, 0x92722c85,
  0xa2bfe8a1, 0xa81a664b, 0xc24b8b70, 0xc76c51a3, 0xd192e819, 0xd6990624, 0xf40e3585, 0x106aa070,
  0x19a4c116, 0x1e376c08, 0x2748774c, 0x34b0bcb5, 0x391c0cb3, 0x4ed8aa4a, 0x5b9cca4f, 0x682e6ff3,
  0x748f82ee, 0x78a5636f, 0x84c87814, 0x8cc70208, 0x90befffa, 0xa4506ceb, 0xbef9a3f7, 0xc67178f2]

/-- The eight working words. -/
structure Words where
  a : UInt32
  b : UInt32
  c : UInt32
  d : UInt32
  e : UInt32
  f : UInt32
  g : UInt32
  h : UInt32

/-- The words before the first block: the first 32 bits of the fractional parts of the square
    roots of the first 8 primes. -/
def initial : Words :=
  ⟨0x6a09e667, 0xbb67ae85, 0x3c6ef372, 0xa54ff53a, 0x510e527f, 0x9b05688c, 0x1f83d9ab, 0x5be0cd19⟩

/-- A rotation to the right. -/
def rotate (x n : UInt32) : UInt32 := (x >>> n) ||| (x <<< (32 - n))

/-- Two words added place by place. -/
def Words.add (x y : Words) : Words :=
  ⟨x.a + y.a, x.b + y.b, x.c + y.c, x.d + y.d, x.e + y.e, x.f + y.f, x.g + y.g, x.h + y.h⟩

/-- One round with its constant and its schedule word. -/
def round (s : Words) (constant word : UInt32) : Words :=
  let mix := rotate s.e 6 ^^^ rotate s.e 11 ^^^ rotate s.e 25
  let choice := (s.e &&& s.f) ^^^ ((~~~s.e) &&& s.g)
  let first := s.h + mix + choice + constant + word
  let blend := rotate s.a 2 ^^^ rotate s.a 13 ^^^ rotate s.a 22
  let majority := (s.a &&& s.b) ^^^ (s.a &&& s.c) ^^^ (s.b &&& s.c)
  ⟨first + (blend + majority), s.a, s.b, s.c, s.d + first, s.e, s.f, s.g⟩

/-- The schedule with one more word, computed from earlier ones. -/
def extend (schedule : Array UInt32) : Array UInt32 :=
  let at' (back : Nat) := schedule.getD (schedule.size - back) 0
  let x := at' 15
  let y := at' 2
  let low := rotate x 7 ^^^ rotate x 18 ^^^ (x >>> 3)
  let high := rotate y 17 ^^^ rotate y 19 ^^^ (y >>> 10)
  schedule.push (at' 16 + low + at' 7 + high)

/-- The words after a block of sixteen words. -/
def compress (s : Words) (block : Array UInt32) : Words :=
  let schedule := Nat.repeat extend 48 block
  s.add ((Array.range 64).foldl
    (fun w i => round w (roundConstants.getD i 0) (schedule.getD i 0)) s)

/-- A digest under way: the words so far, the words of the open block, and the bytes of the open
    word. -/
structure State where
  words : Words
  block : Array UInt32
  word : UInt32
  filled : Nat

/-- One more byte. -/
def absorb (s : State) (b : UInt8) : State :=
  let word := (s.word <<< 8) ||| b.toUInt32
  if s.filled < 3 then { s with word, filled := s.filled + 1 }
  else
    let block := s.block.push word
    if block.size < 16 then { s with block, word := 0, filled := 0 }
    else ⟨compress s.words block, #[], 0, 0⟩

/-- What is appended to a message of so many bytes: a one bit, zeros up to the last eight bytes of
    a block, and the length in bits. -/
def padding (length : Nat) : Bytes :=
  0x80 :: List.replicate ((119 - length % 64) % 64) 0 ++ bigEndian 8 (8 * length)

/-- The digest of a run of bytes. -/
def digest (bytes : Bytes) : Bytes :=
  let body := bytes.foldl absorb ⟨initial, #[], 0, 0⟩
  let w := ((padding bytes.length).foldl absorb body).words
  [w.a, w.b, w.c, w.d, w.e, w.f, w.g, w.h].flatMap fun x => bigEndian 4 x.toNat

end Sha256

/-- The digest of the bytes as text. -/
def fingerprint (bytes : Bytes) : String := "sha256:" ++ hex (Sha256.digest bytes)

end SegmentWire

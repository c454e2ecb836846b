import SegmentWire.Bytes

/-!
# Base64 — bytes as text

The standard alphabet with padding. Reading accepts canonical text only: padding to a multiple of
four characters, no other characters, and zeros in the bits that padding leaves over.

* **`Base64.encode`** — the text of a run of bytes.
* **`Base64.decode?`** — the bytes of a canonical text.
-/

namespace SegmentWire.Base64

/-- The character of a number below sixty-four. -/
def digit (n : Nat) : Char :=
  if n < 26 then Char.ofNat (n + 65)
  else if n < 52 then Char.ofNat (n - 26 + 97)
  else if n < 62 then Char.ofNat (n - 52 + 48)
  else if n = 62 then '+'
  else '/'

/-- The number of a character of the alphabet. -/
def digit? (c : Char) : Option Nat :=
  if 'A' ≤ c ∧ c ≤ 'Z' then some (c.toNat - 65)
  else if 'a' ≤ c ∧ c ≤ 'z' then some (c.toNat - 97 + 26)
  else if '0' ≤ c ∧ c ≤ '9' then some (c.toNat - 48 + 52)
  else if c = '+' then some 62
  else if c = '/' then some 63
  else none

/-- The four characters of twenty-four bits, of which only the first `count` are kept and the
    others are padding. -/
def group (bits count : Nat) : String :=
  let digits := [bits / 262144, bits / 4096 % 64, bits / 64 % 64, bits % 64].map digit
  String.ofList (digits.take count ++ List.replicate (4 - count) '=')

/-- The text of `bytes`, after what is already shown. -/
def encodeAfter (shown : String) : Bytes → String
  | [] => shown
  | [a] => shown ++ group (a.toNat * 65536) 2
  | [a, b] => shown ++ group (a.toNat * 65536 + b.toNat * 256) 3
  | a :: b :: c :: rest =>
    encodeAfter (shown ++ group (a.toNat * 65536 + b.toNat * 256 + c.toNat) 4) rest

/-- The text of a run of bytes. -/
def encode (bytes : Bytes) : String := encodeAfter "" bytes

/-- The number whose digits these four characters are. -/
def bits? (a b c d : Char) : Option Nat := do
  return (← digit? a) * 262144 + (← digit? b) * 4096 + (← digit? c) * 64 + (← digit? d)

/-- The bytes that `chars` stand for, after those already there. A padded group has to be the last
    one, and the bits that it does not fill have to be zeros. -/
def decodeAfter (got : Array UInt8) : List Char → Option (Array UInt8)
  | [] => some got
  | [a, b, '=', '='] => do
    let bits ← bits? a b 'A' 'A'
    if bits % 65536 = 0 then some (got ++ bigEndian 1 (bits / 65536)) else none
  | [a, b, c, '='] => do
    let bits ← bits? a b c 'A'
    if bits % 256 = 0 then some (got ++ bigEndian 2 (bits / 256)) else none
  | a :: b :: c :: d :: rest => do
    let bits ← bits? a b c d
    decodeAfter (got ++ bigEndian 3 bits) rest
  | _ => none

/-- The bytes of a canonical text. -/
def decode? (text : String) : Option Bytes :=
  (decodeAfter #[] text.toList).map Array.toList

example : decode? "AQL/AA==" = some [1, 2, 255, 0] ∧ decode? "AQL/AB==" = none := by
  decide +kernel

end SegmentWire.Base64

/-!
# Bytes and big-endian numbers

Every multi-byte number on the wire has its most significant byte first.

* **`bigEndian`** — a number as a fixed count of bytes.
* **`ofBigEndian`** — the number that a run of bytes stands for.
-/

namespace SegmentWire

/-- A run of bytes: a payload, an encoding, or what is left of an input. -/
abbrev Bytes := List UInt8

/-- The lowest `width` bytes of `n`, most significant first. -/
def bigEndian : Nat → Nat → Bytes
  | 0, _ => []
  | width + 1, n => bigEndian width (n / 256) ++ [UInt8.ofNat n]

/-- The number whose bytes these are, most significant first. -/
def ofBigEndian (bytes : Bytes) : Nat :=
  bytes.foldl (fun n b => n * 256 + b.toNat) 0

/-- The two hexadecimal digits of a byte, in lower case. -/
def hexByte (b : UInt8) : String :=
  String.ofList [Nat.digitChar (b.toNat / 16), Nat.digitChar (b.toNat % 16)]

/-- The bytes in lower-case hexadecimal, two digits each. -/
def hex (bytes : Bytes) : String :=
  bytes.foldl (fun shown b => shown ++ hexByte b) ""

end SegmentWire

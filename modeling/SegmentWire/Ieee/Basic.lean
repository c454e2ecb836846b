/-!
# Binary floating point — bit patterns and the numbers they stand for

A floating-point value is kept as its bits: one sign bit, an exponent field and a fraction
field, whose widths the format fixes. All arithmetic on values is exact arithmetic on
natural numbers.

* **`Binary`** — a bit pattern of a format; **`single`** and **`double`** are the two formats.
* **`Binary.significand`**, **`Binary.scale`** — the value of a finite pattern, which is
  `significand · 2 ^ scale` up to its sign.
* **`Binary.ofRatio`** — the nearest value of a format to a fraction, ties to even, overflow to
  infinity. **`Binary.convert`** takes a value from one format to another with it.
* **`Binary.mul`**, **`Binary.div`** — the exact product and quotient, rounded once.
-/

namespace SegmentWire.Ieee

-- powers are those of the core library, whatever else is imported
attribute [local instance (2000)] instPowNat

/-- The widths of the exponent and fraction fields of a binary format. -/
structure Format where
  exponentBits : Nat
  fractionBits : Nat
deriving DecidableEq, Repr

/-- The format of 32 bits. -/
def single : Format := ⟨8, 23⟩

/-- The format of 64 bits. -/
def double : Format := ⟨11, 52⟩

namespace Format

/-- All bits of a pattern: the sign and both fields. -/
def width (f : Format) : Nat := 1 + f.exponentBits + f.fractionBits

/-- The exponent field of infinities and NaNs, whose bits are all ones. -/
def topExponent (f : Format) : Nat := 2 ^ f.exponentBits - 1

/-- The power of two of the last place of the smallest values. -/
def minScale (f : Format) : Int :=
  2 - (2 : Int) ^ (f.exponentBits - 1) - (f.fractionBits : Int)

end Format

/-- A bit pattern of a format. -/
structure Binary (f : Format) where
  bits : BitVec f.width
deriving DecidableEq

/-- A bit pattern of 32 bits. -/
abbrev Binary32 := Binary single

/-- A bit pattern of 64 bits. -/
abbrev Binary64 := Binary double

namespace Binary

variable {f : Format}

-- ── The fields ───────────────────────────────────────────────────────────────────

/-- The pattern with a given sign and a given number in the bits below the sign. -/
def ofMagnitude (negative : Bool) (magnitude : Nat) : Binary f :=
  ⟨BitVec.ofNat f.width ((if negative then 2 ^ (f.width - 1) else 0) + magnitude)⟩

/-- The bits below the sign, as a number. -/
def magnitude (x : Binary f) : Nat := x.bits.toNat % 2 ^ (f.width - 1)

/-- The sign bit. -/
def isNegative (x : Binary f) : Bool := 2 ^ (f.width - 1) ≤ x.bits.toNat

/-- The exponent field. -/
def exponentField (x : Binary f) : Nat := x.magnitude / 2 ^ f.fractionBits

/-- The fraction field. -/
def fraction (x : Binary f) : Nat := x.magnitude % 2 ^ f.fractionBits

-- ── The value ────────────────────────────────────────────────────────────────────

/-- Neither an infinity nor a NaN. -/
def isFinite (x : Binary f) : Bool := x.exponentField != f.topExponent

/-- Not a number: the top exponent with a fraction. -/
def isNaN (x : Binary f) : Bool := x.exponentField == f.topExponent && x.fraction != 0

/-- Positive or negative zero. -/
def isZero (x : Binary f) : Bool := x.magnitude == 0

/-- The whole number whose multiple by a power of two is the absolute value of a finite pattern:
    the fraction, with the leading bit that normal values leave out. -/
def significand (x : Binary f) : Nat :=
  if x.exponentField = 0 then x.fraction else 2 ^ f.fractionBits + x.fraction

/-- The power of two of the last place of a finite pattern. -/
def scale (x : Binary f) : Int :=
  f.minScale + ((x.exponentField - 1 : Nat) : Int)

/-- The absolute value of a finite pattern as a fraction: numerator and denominator. -/
def ratio (x : Binary f) : Nat × Nat :=
  (x.significand * 2 ^ x.scale.toNat, 2 ^ (-x.scale).toNat)

/-- An infinity. -/
def infinity (negative : Bool) : Binary f :=
  ofMagnitude negative (f.topExponent * 2 ^ f.fractionBits)

/-- The NaN with the highest fraction bit alone. -/
def nan (negative : Bool) : Binary f :=
  ofMagnitude negative (f.topExponent * 2 ^ f.fractionBits + 2 ^ (f.fractionBits - 1))

end Binary

-- ── Rounding ─────────────────────────────────────────────────────────────────────

/-- The whole number nearest to `num / den`, a half to the even one. -/
def divNearestEven (num den : Nat) : Nat :=
  let low := num / den
  let rest := 2 * (num % den)
  if den < rest ∨ (rest = den ∧ low % 2 = 1) then low + 1 else low

/-- The greatest power of two that is at most `num / den`, for positive numbers. -/
def logRatio (num den : Nat) : Int :=
  let guess : Int := (num.log2 : Int) - (den.log2 : Int)
  if den * 2 ^ guess.toNat ≤ num * 2 ^ (-guess).toNat then guess else guess - 1

/-- The value of the format nearest to `num / den`, with a given sign. A tie goes to the even
    significand, and what is too large for the format becomes an infinity. -/
def Binary.ofRatio {f : Format} (negative : Bool) (num den : Nat) : Binary f :=
  if num = 0 then .ofMagnitude negative 0
  else
    let scale := max (logRatio num den - f.fractionBits) f.minScale
    let significand := divNearestEven (num * 2 ^ (-scale).toNat) (den * 2 ^ scale.toNat)
    let magnitude := (scale - f.minScale).toNat * 2 ^ f.fractionBits + significand
    .ofMagnitude negative (min magnitude (f.topExponent * 2 ^ f.fractionBits))

/-- The nearest value of another format; exact when that format is the wider one. -/
def Binary.convert {f g : Format} (x : Binary f) : Binary g :=
  if x.isFinite then
    .ofRatio x.isNegative x.ratio.1 x.ratio.2
  else if x.isNaN then .nan x.isNegative
  else .infinity x.isNegative

-- ── Arithmetic ───────────────────────────────────────────────────────────────────

/-- The exact product of two finite patterns, rounded once. -/
def Binary.mul {f : Format} (x y : Binary f) : Binary f :=
  .ofRatio (x.isNegative != y.isNegative) (x.ratio.1 * y.ratio.1) (x.ratio.2 * y.ratio.2)

/-- The exact quotient of a finite pattern and a finite one that is not zero, rounded once. -/
def Binary.div {f : Format} (x y : Binary f) : Binary f :=
  .ofRatio (x.isNegative != y.isNegative) (x.ratio.1 * y.ratio.2) (x.ratio.2 * y.ratio.1)

end SegmentWire.Ieee

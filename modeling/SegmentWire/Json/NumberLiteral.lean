import SegmentWire.Json.Basic

/-!
# JSON numbers as written

A literal keeps the digits of a number apart until someone asks which number it is. A whole number
that fits 64 bits is taken exactly. Any other number is read in double arithmetic: as many leading
digits as 64 bits hold become a significand, and a power of ten then scales it, each step rounded.
So the double may miss the one nearest to the literal by a few last places.

* **`NumberLiteral`** — the parts of a number as written, and **`NumberLiteral.ofChars?`** its
  grammar.
* **`NumberLiteral.scientific`** — the significand and the exponent of the power of ten.
* **`NumberLiteral.resolve?`** — the number of a literal, if it does not overflow.
-/

namespace SegmentWire.Json

open Ieee (Binary64)

-- powers are those of the core library, whatever else is imported
attribute [local instance (2000)] instPowNat

/-- A number as written. -/
structure NumberLiteral where
  negative : Bool
  /-- The digits before the point. -/
  whole : List Char
  /-- The digits behind the point, if there is one. -/
  fraction : Option (List Char)
  /-- The number behind the exponent letter, if there is one. -/
  exponent : Option Int
deriving DecidableEq

/-- The number that a decimal digit stands for. -/
def digitValue (c : Char) : Nat := c.toNat - 48

namespace NumberLiteral

-- ── The grammar ──────────────────────────────────────────────────────────────────

/-- Whether there is a sign, and the characters behind it. -/
def takeSign (chars : List Char) : Bool × List Char :=
  match chars with
  | '-' :: rest => (true, rest)
  | _ => (false, chars)

/-- The fraction of a number: digits behind a point, or nothing at all. -/
def fraction? (chars : List Char) : Option (Option (List Char) × List Char) :=
  match chars with
  | '.' :: rest =>
    let (digits, rest) := rest.span Char.isDigit
    if digits.isEmpty then none else some (some digits, rest)
  | _ => some (none, chars)

/-- The exponent of a number: digits behind a letter and a sign, or nothing at all. -/
def exponent? (chars : List Char) : Option (Option Int × List Char) :=
  match chars with
  | c :: rest =>
    if c = 'e' ∨ c = 'E' then
      let (below, rest) : Bool × List Char :=
        match rest with
        | '-' :: rest => (true, rest)
        | '+' :: rest => (false, rest)
        | _ => (false, rest)
      let (digits, rest) := rest.span Char.isDigit
      let size : Int := digits.foldl (fun n c => 10 * n + digitValue c) 0
      if digits.isEmpty then none else some (some (if below then -size else size), rest)
    else some (none, chars)
  | [] => some (none, [])

/-- The literal that these characters are, all of them together. Only zero itself begins with a
    zero. -/
def ofChars? (chars : List Char) : Option NumberLiteral := do
  let (negative, chars) := takeSign chars
  let (whole, chars) := chars.span Char.isDigit
  if whole.isEmpty ∨ (whole.head? = some '0' ∧ whole.length ≠ 1) then none
  let (fraction, chars) ← fraction? chars
  let (exponent, chars) ← exponent? chars
  if !chars.isEmpty then none
  return { negative, whole, fraction, exponent }

-- ── The significand ──────────────────────────────────────────────────────────────

/-- Appends digits to a significand while it stays within 64 bits: the significand, and the digits
    that are left over from the first one that does not fit. -/
def appendDigits (significand : Nat) : List Char → Nat × List Char
  | [] => (significand, [])
  | c :: digits =>
    let longer := 10 * significand + digitValue c
    if longer < 2 ^ (64 : Nat) then appendDigits longer digits else (significand, c :: digits)

/-- The significand and the exponent that stand for the number up to its sign. Whole digits that
    are left over still count as places, and digits of the fraction are tried again after them. -/
def scientific (n : NumberLiteral) : Nat × Int :=
  let whole := appendDigits 0 n.whole
  let places := n.fraction.getD []
  let all := appendDigits whole.1 places
  let shift : Int := (whole.2.length : Int) + all.2.length - places.length
  (all.1, shift + n.exponent.getD 0)

example : (ofChars? "18446744073709551616.05".toList).map scientific =
    some (18446744073709551610, 0) := by decide +kernel

/-- The number without its sign, if it is written without a point and an exponent and fits 64
    bits. -/
def whole? (n : NumberLiteral) : Option Nat :=
  match n.fraction, n.exponent, appendDigits 0 n.whole with
  | none, none, (significand, []) => some significand
  | _, _, _ => none

-- ── Scaling ──────────────────────────────────────────────────────────────────────

/-- The exponent of the greatest power of ten below the overflow threshold of doubles. -/
def maxPower : Nat := 308

/-- The double nearest to a power of ten. -/
def powerOfTen (exponent : Nat) : Binary64 := .ofRatio false (10 ^ exponent) 1

/-- A double divided by a power of ten, in steps of at most `maxPower` places of which each one
    is rounded. -/
def shrink (x : Binary64) (places : Nat) : Binary64 :=
  if places ≤ maxPower then x.div (powerOfTen places)
  else if x.isZero then x
  else shrink (x.div (powerOfTen maxPower)) (places - maxPower)
termination_by places
decreasing_by simp only [maxPower] at *; omega

/-- A double times a power of ten, if it does not overflow. -/
def scale? (x : Binary64) (exponent : Int) : Option Binary64 :=
  if exponent < 0 then some (shrink x exponent.natAbs)
  else if x.isZero then some x
  else if exponent.natAbs ≤ maxPower then
    let scaled := x.mul (powerOfTen exponent.natAbs)
    if scaled.isFinite then some scaled else none
  else none

/-- The double that the number is read as, if it does not overflow. -/
def toReal? (n : NumberLiteral) : Option Binary64 :=
  scale? (.ofRatio n.negative n.scientific.1 1) n.scientific.2

example : (ofChars? "8.303e-153".toList).bind toReal? = some ⟨0x205bd4cd47737eb3⟩ := by
  decide +kernel

example : (ofChars? "1.7976931348623158e308".toList).bind toReal? = none := by decide +kernel

/-- The number of a literal. A whole number is kept as such if one of the 64-bit forms holds it;
    negative zero is a double. -/
def resolve? (n : NumberLiteral) : Option Number :=
  match n.negative, n.whole? with
  | false, some size => some (.natural (.ofNat size))
  | true, some size =>
    if 0 < size ∧ size ≤ 2 ^ (63 : Nat) then some (.negative (.ofInt (-(size : Int))))
    else n.toReal?.map .real
  | _, none => n.toReal?.map .real

end NumberLiteral

end SegmentWire.Json

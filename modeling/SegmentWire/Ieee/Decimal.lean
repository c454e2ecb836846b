import SegmentWire.Ieee.Basic

/-!
# Decimal text of floating-point values

The digits are the fewest that read back as the same value of the same format; among those of
that length the nearest to the value. How they are laid out is a `DecimalStyle`.

* **`shortest`** — the digits of a finite, non-zero value.
* **`DecimalStyle.render`** — a value as text in a style.
-/

namespace SegmentWire.Ieee

-- powers are those of the core library, whatever else is imported
attribute [local instance (2000)] instPowNat

/-- The number `digits · 10 ^ exponent`. -/
structure Decimal where
  digits : Nat
  exponent : Int
deriving DecidableEq, Repr

/-- Which way a value halfway between two decimals of the same length goes. -/
inductive Tie where
  | up
  | even
deriving DecidableEq, Repr

-- ── The fewest digits ────────────────────────────────────────────────────────────

/-- The reals that round to a value, as numerators over one denominator: the value itself, the
    two ends, and whether the ends belong to it. -/
structure Interval where
  low : Nat
  value : Nat
  high : Nat
  den : Nat
  closed : Bool

namespace Interval

/-- The interval of a finite value. Its ends lie halfway to the two neighbours, of which the lower
    one is half as far from a power of two, and they belong to it when the significand is even. -/
def ofBinary {f : Format} (x : Binary f) : Interval :=
  let m := x.significand
  let lift := 2 ^ (x.scale - 2).toNat
  let below := if x.fraction = 0 ∧ 1 < x.exponentField then 1 else 2
  { low := (4 * m - below) * lift
    value := 4 * m * lift
    high := (4 * m + 2) * lift
    den := 2 ^ (2 - x.scale).toNat
    closed := m % 2 == 0 }

/-- The numerator and denominator of a power of ten. -/
def tenPower (e : Int) : Nat × Nat := (10 ^ e.toNat, 10 ^ (-e).toNat)

/-- Whether `digits · 10 ^ exponent` lies in the interval. -/
def contains (i : Interval) (d : Decimal) : Bool :=
  let (up, down) := tenPower d.exponent
  let point := d.digits * up * i.den
  let low := i.low * down
  let high := i.high * down
  if i.closed then low ≤ point && point ≤ high else low < point && point < high

/-- The point of the grid `10 ^ exponent` that lies in the interval and nearest to the value. Only
    the two neighbours of the value come into question. -/
def onGrid (i : Interval) (tie : Tie) (exponent : Int) : Option Decimal :=
  let (up, down) := tenPower exponent
  let num := i.value * down
  let den := i.den * up
  let floor : Decimal := ⟨num / den, exponent⟩
  let ceiling : Decimal := ⟨num / den + 1, exponent⟩
  let rest := 2 * (num % den)
  match i.contains floor, i.contains ceiling with
  | true, true =>
    if rest < den then some floor
    else if den < rest then some ceiling
    else if tie = .even ∧ floor.digits % 2 = 0 then some floor
    else some ceiling
  | true, false => some floor
  | false, true => some ceiling
  | false, false => none

/-- The first grid with a point in the interval, from the coarsest down, over at most `steps`
    grids. -/
def search (i : Interval) (tie : Tie) (exponent : Int) : Nat → Option Decimal
  | 0 => none
  | steps + 1 =>
    match i.onGrid tie exponent with
    | some d => some d
    | none => i.search tie (exponent - 1) steps

end Interval

/-- The fewest digits that round to a finite, non-zero value. The search starts above the value's
    magnitude and reaches seventeen digits, which suffice for both formats. -/
def shortest {f : Format} (tie : Tie) (x : Binary f) : Decimal :=
  let i := Interval.ofBinary x
  let top := logRatio i.value i.den * 30103 / 100000 + 2
  (i.search tie top 24).getD ⟨x.significand, 0⟩

-- ── Layout ───────────────────────────────────────────────────────────────────────

/-- How digits are laid out. -/
structure DecimalStyle where
  /-- Where a value halfway between two decimals goes. -/
  tie : Tie
  /-- The least and greatest exponent of the first digit that are written without an exponent;
      none means that all are. -/
  positional : Option (Int × Int)
  /-- Whether a whole number written without an exponent ends in a point and a zero. -/
  pointZero : Bool

namespace DecimalStyle

/-- A number of zeros. -/
def zeros (n : Nat) : String := String.ofList (List.replicate n '0')

/-- Digits with a point where the exponent puts it. -/
def plain (style : DecimalStyle) (d : Decimal) : String :=
  let digits := Nat.toDigits 10 d.digits
  if 0 ≤ d.exponent then
    String.ofList digits ++ zeros d.exponent.toNat ++ (if style.pointZero then ".0" else "")
  else
    let places := (-d.exponent).toNat
    if places < digits.length then
      String.ofList (digits.take (digits.length - places)) ++ "." ++
        String.ofList (digits.drop (digits.length - places))
    else "0." ++ zeros (places - digits.length) ++ String.ofList digits

/-- One digit, the others after a point, and the signed exponent of the first digit. -/
def scientific (d : Decimal) (first : Int) : String :=
  let digits := Nat.toDigits 10 d.digits
  let tail := digits.drop 1
  String.ofList (digits.take 1) ++ (if tail.isEmpty then "" else "." ++ String.ofList tail) ++
    "e" ++ (if first < 0 then "-" else "+") ++ toString first.natAbs

/-- Digits laid out in the style. -/
def layout (style : DecimalStyle) (d : Decimal) : String :=
  let first := d.exponent + (Nat.toDigits 10 d.digits).length - 1
  match style.positional with
  | some (least, greatest) =>
    if least ≤ first ∧ first ≤ greatest then style.plain d else scientific d first
  | none => style.plain d

/-- A value as text: NaN without a sign, infinities as `inf`, all else signed digits. -/
def render {f : Format} (style : DecimalStyle) (x : Binary f) : String :=
  if x.isNaN then "NaN"
  else
    (if x.isNegative then "-" else "") ++
      (if !x.isFinite then "inf"
       else if x.isZero then style.plain ⟨0, 0⟩
       else style.layout (shortest style.tie x))

end DecimalStyle

end SegmentWire.Ieee

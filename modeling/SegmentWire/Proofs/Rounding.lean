import SegmentWire.Ieee.Basic
import Mathlib.Algebra.Order.Field.Rat
import Mathlib.Data.Int.Log
import Mathlib.Tactic.FieldSimp
import Mathlib.Tactic.Linarith
import Mathlib.Tactic.Positivity

/-!
# Values that a format has are not rounded

A finite pattern stands for a whole number times a power of two. Rounding a fraction of this value
finds the power of two from the logarithm of the fraction, divides without a rest, and puts the
pattern together again.

* **`logRatio_spec`**, **`logRatio_eq_of`** — the logarithm of a fraction.
* **`Format.Admits`** — the whole numbers and the powers of two that a format has, and
  **`Format.place`**, the bits that stand for them.
* **`ofRatio_of_admits`** — their products are not rounded.
* **`Binary.admits`**, **`Binary.ofMagnitude_place`** — they are those of the finite patterns.
* **`Binary.convert_eq_of_value_eq`** — a conversion keeps every value that both formats have, and
  **`Binary.convert_convert`** says that the wider format has all of the narrower one.
-/

namespace SegmentWire.Ieee

-- powers are those of the core library, whatever else is imported
attribute [local instance (2000)] instPowNat

variable {f : Format}

-- ── Powers of two and logarithms ─────────────────────────────────────────────────

/-- A power of two with a whole exponent is the quotient of two with natural exponents. -/
theorem two_zpow_eq_div (k : Int) :
    (2 : ℚ) ^ k = ((2 ^ k.toNat : Nat) : ℚ) / ((2 ^ (-k).toNat : Nat) : ℚ) := by
  have hk : k = (k.toNat : Int) - ((-k).toNat : Int) := by omega
  conv_lhs => rw [hk]
  rw [zpow_sub₀ two_ne_zero, zpow_natCast, zpow_natCast, Nat.cast_pow, Nat.cast_pow,
    Nat.cast_ofNat]

/-- The comparison that the logarithm makes is that of the fraction with a power of two. -/
theorem two_zpow_le_div_iff {num den : Nat} (hden : 0 < den) (k : Int) :
    (2 : ℚ) ^ k ≤ num / den ↔ den * 2 ^ k.toNat ≤ num * 2 ^ (-k).toNat := by
  have hden' : (0 : ℚ) < den := Nat.cast_pos.mpr hden
  have hpow : (0 : ℚ) < ((2 ^ (-k).toNat : Nat) : ℚ) := Nat.cast_pos.mpr (Nat.two_pow_pos _)
  rw [two_zpow_eq_div, div_le_div_iff₀ hpow hden', ← Nat.cast_mul, ← Nat.cast_mul, Nat.cast_le,
    Nat.mul_comm]

theorem log2_spec {n : Nat} (hn : 0 < n) :
    (2 : ℚ) ^ (n.log2 : Int) ≤ n ∧ (n : ℚ) < 2 ^ ((n.log2 : Int) + 1) := by
  have hlow := Nat.log2_self_le (Nat.ne_of_gt hn)
  have hhigh : n < 2 ^ (n.log2 + 1) := Nat.lt_log2_self
  constructor
  · rw [zpow_natCast]
    exact_mod_cast hlow
  · rw [← Nat.cast_succ, zpow_natCast]
    exact_mod_cast hhigh

/-- **The logarithm of a fraction.** The guess from the logarithms of numerator and denominator is
    too great by one at most. -/
theorem logRatio_spec {num den : Nat} (hnum : 0 < num) (hden : 0 < den) :
    (2 : ℚ) ^ logRatio num den ≤ num / den ∧ (num : ℚ) / den < 2 ^ (logRatio num den + 1) := by
  have hden' : (0 : ℚ) < den := Nat.cast_pos.mpr hden
  obtain ⟨hnumlow, hnumhigh⟩ := log2_spec hnum
  obtain ⟨hdenlow, hdenhigh⟩ := log2_spec hden
  rw [logRatio]
  generalize hguess : (num.log2 : Int) - den.log2 = guess
  have hlow : (0 : ℚ) < 2 ^ (guess - 1) := zpow_pos two_pos _
  have hhigh : (0 : ℚ) < 2 ^ (guess + 1) := zpow_pos two_pos _
  have hbelow : (2 : ℚ) ^ (guess - 1) ≤ num / den := by
    rw [le_div_iff₀ hden']
    calc (2 : ℚ) ^ (guess - 1) * den ≤ 2 ^ (guess - 1) * 2 ^ ((den.log2 : Int) + 1) := by gcongr
      _ = 2 ^ (num.log2 : Int) := by
          rw [← zpow_add₀ two_ne_zero]
          congr 1
          omega
      _ ≤ num := hnumlow
  have habove : (num : ℚ) / den < 2 ^ (guess + 1) := by
    rw [div_lt_iff₀ hden']
    calc (num : ℚ) < 2 ^ ((num.log2 : Int) + 1) := hnumhigh
      _ = 2 ^ (guess + 1) * 2 ^ (den.log2 : Int) := by
          rw [← zpow_add₀ two_ne_zero]
          congr 1
          omega
      _ ≤ 2 ^ (guess + 1) * den := by gcongr
  by_cases htest : den * 2 ^ guess.toNat ≤ num * 2 ^ (-guess).toNat
  · rw [if_pos htest]
    exact ⟨(two_zpow_le_div_iff hden guess).mpr htest, habove⟩
  · rw [if_neg htest, Int.sub_add_cancel]
    exact ⟨hbelow, lt_of_not_ge fun hle => htest ((two_zpow_le_div_iff hden guess).mp hle)⟩

theorem logRatio_eq_of {num den : Nat} {k : Int} (hden : 0 < den) (hlow : (2 : ℚ) ^ k ≤ num / den)
    (hhigh : (num : ℚ) / den < 2 ^ (k + 1)) : logRatio num den = k := by
  have hnum : 0 < num := by
    rcases Nat.eq_zero_or_pos num with rfl | hnum
    · rw [Nat.cast_zero, zero_div] at hlow
      exact absurd hlow (not_le.mpr (zpow_pos two_pos k))
    · exact hnum
  have hone : (1 : ℚ) < 2 := one_lt_two
  obtain ⟨hlow', hhigh'⟩ := logRatio_spec hnum hden
  have hle := (zpow_lt_zpow_iff_right₀ hone).mp (hlow.trans_lt hhigh')
  have hge := (zpow_lt_zpow_iff_right₀ hone).mp (hlow'.trans_lt hhigh)
  omega

/-- A division without a rest is not rounded. -/
theorem divNearestEven_mul (n : Nat) {den : Nat} (hden : 0 < den) :
    divNearestEven (n * den) den = n := by
  rw [divNearestEven, Nat.mul_mod_left, Nat.mul_div_cancel n hden]
  exact if_neg (by omega)

-- ── What a format has ────────────────────────────────────────────────────────────

namespace Format

/-- The bits below the sign for a significand and a scale. -/
def place (f : Format) (significand : Nat) (scale : Int) : Nat :=
  (scale - f.minScale).toNat * 2 ^ f.fractionBits + significand

/-- The significands and the scales that a format has. Below the smallest scale there is none, and
    only with the smallest one a significand may be short. -/
structure Admits (f : Format) (significand : Nat) (scale : Int) : Prop where
  significand_lt : significand < 2 ^ (f.fractionBits + 1)
  scale_ge : f.minScale ≤ scale
  normal : scale = f.minScale ∨ 2 ^ f.fractionBits ≤ significand
  in_range : f.place significand scale < f.topExponent * 2 ^ f.fractionBits

theorem two_pow_width (f : Format) : 2 ^ f.width = 2 * 2 ^ (f.width - 1) := by
  have hwidth : f.width = f.width - 1 + 1 := by
    rw [width]
    omega
  rw [← Nat.pow_succ', Nat.succ_eq_add_one, ← hwidth]

theorem width_sub_one (f : Format) : f.width - 1 = f.fractionBits + f.exponentBits := by
  rw [width]
  omega

theorem range_lt (f : Format) : f.topExponent * 2 ^ f.fractionBits < 2 ^ (f.width - 1) := by
  rw [width_sub_one, Nat.pow_add, Nat.mul_comm, topExponent]
  have htop := Nat.sub_lt (Nat.two_pow_pos f.exponentBits) Nat.one_pos
  exact Nat.mul_lt_mul_of_pos_left htop (Nat.two_pow_pos _)

end Format

/-- **What a format has is not rounded.** The scale is found from the logarithm, whether the
    significand is as long as it may be or the scale is the smallest one, and then the division
    leaves no rest. -/
theorem ofRatio_of_admits {negative : Bool} {num den significand : Nat} {scale : Int}
    (hden : 0 < den) (hvalue : (num : ℚ) / den = significand * 2 ^ scale)
    (h : f.Admits significand scale) :
    Binary.ofRatio negative num den =
      (Binary.ofMagnitude negative (f.place significand scale) : Binary f) := by
  have hden' : (0 : ℚ) < den := Nat.cast_pos.mpr hden
  have hpow : (0 : ℚ) < 2 ^ scale := zpow_pos two_pos _
  rcases Nat.eq_zero_or_pos significand with rfl | hpos
  · have hscale : scale = f.minScale :=
      h.normal.resolve_right (Nat.not_le.mpr (Nat.two_pow_pos _))
    have hnum : num = 0 := by
      rw [Nat.cast_zero, zero_mul, div_eq_zero_iff] at hvalue
      exact_mod_cast hvalue.resolve_right hden'.ne'
    rw [Binary.ofRatio, if_pos hnum, Format.place, hscale, Int.sub_self, Int.toNat_zero,
      Nat.zero_mul]
  · have hpos' : (0 : ℚ) < significand := Nat.cast_pos.mpr hpos
    have hnum : num ≠ 0 := by
      rintro rfl
      rw [Nat.cast_zero, zero_div] at hvalue
      exact absurd hvalue (mul_pos hpos' hpow).ne
    have hlog : logRatio num den = significand.log2 + scale := by
      obtain ⟨hlow, hhigh⟩ := log2_spec hpos
      refine logRatio_eq_of hden ?_ ?_
      · rw [hvalue, zpow_add₀ two_ne_zero]
        gcongr
      · rw [hvalue, Int.add_right_comm, zpow_add₀ two_ne_zero]
        gcongr
    have hscale : max (logRatio num den - f.fractionBits) f.minScale = scale := by
      have hle : significand.log2 < f.fractionBits + 1 :=
        (Nat.log2_lt (Nat.ne_of_gt hpos)).mpr h.significand_lt
      have hge := h.scale_ge
      rcases h.normal with hmin | hnormal
      · omega
      · have hlog2 := (Nat.le_log2 (Nat.ne_of_gt hpos)).mpr hnormal
        omega
    have hexact : num * 2 ^ (-scale).toNat = significand * (den * 2 ^ scale.toNat) := by
      have hpow' : (0 : ℚ) < ((2 ^ (-scale).toNat : Nat) : ℚ) :=
        Nat.cast_pos.mpr (Nat.two_pow_pos _)
      rw [two_zpow_eq_div, ← mul_div_assoc, div_eq_div_iff hden'.ne' hpow'.ne'] at hvalue
      have hnat : num * 2 ^ (-scale).toNat = significand * 2 ^ scale.toNat * den := by
        exact_mod_cast hvalue
      rw [hnat, Nat.mul_assoc, Nat.mul_comm den]
    have hround :
        divNearestEven (num * 2 ^ (-scale).toNat) (den * 2 ^ scale.toNat) = significand := by
      rw [hexact]
      exact divNearestEven_mul _ (Nat.mul_pos hden (Nat.two_pow_pos _))
    rw [Binary.ofRatio, if_neg hnum]
    simp only [hscale, hround]
    exact congrArg _ (Nat.min_eq_left (Nat.le_of_lt h.in_range))

namespace Binary

-- ── Patterns and their fields ────────────────────────────────────────────────────

theorem magnitude_lt (x : Binary f) : x.magnitude < 2 ^ (f.width - 1) :=
  Nat.mod_lt _ (Nat.two_pow_pos _)

theorem toNat_ofMagnitude {negative : Bool} {magnitude : Nat} (h : magnitude < 2 ^ (f.width - 1)) :
    (ofMagnitude negative magnitude : Binary f).bits.toNat =
      (if negative then 2 ^ (f.width - 1) else 0) + magnitude := by
  rw [ofMagnitude, BitVec.toNat_ofNat, f.two_pow_width]
  refine Nat.mod_eq_of_lt ?_
  split <;> omega

theorem magnitude_ofMagnitude {negative : Bool} {magnitude : Nat}
    (h : magnitude < 2 ^ (f.width - 1)) :
    (ofMagnitude negative magnitude : Binary f).magnitude = magnitude := by
  rw [Binary.magnitude, toNat_ofMagnitude h]
  split
  · rw [Nat.add_mod_left, Nat.mod_eq_of_lt h]
  · rw [Nat.zero_add, Nat.mod_eq_of_lt h]

theorem isNegative_ofMagnitude {negative : Bool} {magnitude : Nat}
    (h : magnitude < 2 ^ (f.width - 1)) :
    (ofMagnitude negative magnitude : Binary f).isNegative = negative := by
  rw [isNegative, toNat_ofMagnitude h]
  cases negative with
  | true => exact decide_eq_true (Nat.le_add_right _ _)
  | false =>
      rw [if_neg Bool.false_ne_true, Nat.zero_add]
      exact decide_eq_false (Nat.not_le.mpr h)

/-- A pattern is its sign and the bits below it. -/
theorem ofMagnitude_magnitude (x : Binary f) : ofMagnitude x.isNegative x.magnitude = x := by
  have hlt : x.bits.toNat < 2 * 2 ^ (f.width - 1) := by
    rw [← f.two_pow_width]
    exact x.bits.isLt
  have hbits : (ofMagnitude x.isNegative x.magnitude : Binary f).bits = x.bits := by
    apply BitVec.eq_of_toNat_eq
    rw [toNat_ofMagnitude x.magnitude_lt, magnitude, isNegative]
    by_cases hneg : 2 ^ (f.width - 1) ≤ x.bits.toNat
    · rw [if_pos (decide_eq_true hneg), Nat.mod_eq_sub_mod hneg, Nat.mod_eq_of_lt (by omega)]
      omega
    · rw [if_neg (mt of_decide_eq_true hneg), Nat.zero_add, Nat.mod_eq_of_lt (Nat.not_le.mp hneg)]
  exact congrArg Binary.mk hbits

/-- The exponent and the fraction are those that the bits below the sign are put together from. -/
theorem fields_of {x : Binary f} {exponent rest : Nat} (hrest : rest < 2 ^ f.fractionBits)
    (h : x.magnitude = exponent * 2 ^ f.fractionBits + rest) :
    x.exponentField = exponent ∧ x.fraction = rest := by
  have hpow := Nat.two_pow_pos f.fractionBits
  rw [exponentField, fraction, h, Nat.add_comm]
  constructor
  · rw [Nat.add_mul_div_right _ _ hpow, Nat.div_eq_of_lt hrest, Nat.zero_add]
  · rw [Nat.add_mul_mod_self_right, Nat.mod_eq_of_lt hrest]

theorem exponentField_le (x : Binary f) : x.exponentField ≤ f.topExponent := by
  have hmagnitude := x.magnitude_lt
  rw [f.width_sub_one, Nat.pow_add] at hmagnitude
  exact Nat.le_sub_one_of_lt (Nat.div_lt_of_lt_mul hmagnitude)

theorem place_eq_magnitude (x : Binary f) : f.place x.significand x.scale = x.magnitude := by
  have hsplit : x.magnitude = x.exponentField * 2 ^ f.fractionBits + x.fraction :=
    (Nat.div_add_mod' _ _).symm
  have hexponent : (x.scale - f.minScale).toNat = x.exponentField - 1 := by
    rw [scale]
    omega
  rw [Format.place, hexponent, significand, hsplit]
  split
  · next hzero => rw [hzero]
  · next hne =>
    have hone : x.exponentField = x.exponentField - 1 + 1 :=
      (Nat.sub_add_cancel (Nat.pos_of_ne_zero hne)).symm
    conv_rhs => rw [hone, Nat.succ_mul, Nat.add_assoc]

/-- What is not finite is NaN or an infinity. -/
theorem isFinite_eq_false_iff {x : Binary f} :
    x.isFinite = false ↔ x.isNaN = true ∨ x = infinity x.isNegative := by
  have hsplit : x.magnitude = x.exponentField * 2 ^ f.fractionBits + x.fraction :=
    (Nat.div_add_mod' _ _).symm
  rw [isFinite, bne_eq_false_iff_eq]
  constructor
  · intro htop
    by_cases hfraction : x.fraction = 0
    · rw [htop, hfraction] at hsplit
      right
      rw [infinity, ← Nat.add_zero (_ * _), ← hsplit, ofMagnitude_magnitude]
    · left
      rw [isNaN, Bool.and_eq_true]
      exact ⟨beq_iff_eq.mpr htop, bne_iff_ne.mpr hfraction⟩
  · rintro (hnan | hinfinity)
    · rw [isNaN, Bool.and_eq_true] at hnan
      exact beq_iff_eq.mp hnan.1
    · have hmagnitude : x.magnitude = f.topExponent * 2 ^ f.fractionBits + 0 := by
        rw [hinfinity]
        exact magnitude_ofMagnitude f.range_lt
      exact (fields_of (Nat.two_pow_pos _) hmagnitude).1

-- ── Values ───────────────────────────────────────────────────────────────────────

/-- The value of a finite pattern, up to its sign. -/
def value (x : Binary f) : ℚ := x.significand * 2 ^ x.scale

theorem ratio_value (x : Binary f) : (x.ratio.1 : ℚ) / x.ratio.2 = x.value := by
  rw [ratio, value, two_zpow_eq_div, Nat.cast_mul, mul_div_assoc]

/-- **The format has the significand and the scale of every finite pattern.** -/
theorem admits {x : Binary f} (h : x.isFinite) : f.Admits x.significand x.scale := by
  have hfraction : x.fraction < 2 ^ f.fractionBits := Nat.mod_lt _ (Nat.two_pow_pos _)
  have hpow : 2 ^ (f.fractionBits + 1) = 2 ^ f.fractionBits * 2 := Nat.pow_succ _ _
  have hexponent : x.exponentField < f.topExponent :=
    Nat.lt_of_le_of_ne x.exponentField_le (bne_iff_ne.mp h)
  constructor
  case significand_lt =>
    rw [significand]
    split <;> omega
  case scale_ge =>
    rw [scale]
    omega
  case normal =>
    rw [significand, scale]
    split
    · next hzero =>
      rw [hzero]
      exact Or.inl (Int.add_zero _)
    · exact Or.inr (Nat.le_add_right _ _)
  case in_range =>
    rw [place_eq_magnitude]
    exact (Nat.div_lt_iff_lt_mul (Nat.two_pow_pos _)).mp hexponent

/-- **For each significand and scale that a format has there is a pattern.** Without its leading bit
    a significand of full length is the fraction; a short one is the fraction as it is. -/
theorem ofMagnitude_place (negative : Bool) {significand : Nat} {scale : Int}
    (h : f.Admits significand scale) :
    let x : Binary f := ofMagnitude negative (f.place significand scale)
    x.isFinite ∧ x.isNegative = negative ∧ x.value = significand * 2 ^ scale := by
  intro x
  have hlt := Nat.lt_trans h.in_range f.range_lt
  have hmagnitude : x.magnitude = f.place significand scale := magnitude_ofMagnitude hlt
  have hfinite : x.isFinite := by
    rw [isFinite, exponentField, hmagnitude]
    refine bne_iff_ne.mpr (Nat.ne_of_lt ?_)
    exact (Nat.div_lt_iff_lt_mul (Nat.two_pow_pos _)).mpr h.in_range
  refine ⟨hfinite, isNegative_ofMagnitude hlt, ?_⟩
  rcases Nat.lt_or_ge significand (2 ^ f.fractionBits) with hshort | hfull
  · have hscale : scale = f.minScale := h.normal.resolve_right (Nat.not_le.mpr hshort)
    rw [Format.place, hscale, Int.sub_self, Int.toNat_zero] at hmagnitude
    obtain ⟨hexponent, hfraction⟩ := fields_of hshort hmagnitude
    have hscale' : f.minScale + ((0 - 1 : Nat) : Int) = f.minScale := Int.add_zero _
    rw [value, Binary.significand, Binary.scale, hexponent, hfraction, if_pos rfl, hscale, hscale']
  · obtain ⟨rest, rfl⟩ := Nat.exists_eq_add_of_le hfull
    have hrest : rest < 2 ^ f.fractionBits := by
      have hsignificand := h.significand_lt
      rw [Nat.pow_succ] at hsignificand
      omega
    rw [Format.place, ← Nat.add_assoc, ← Nat.succ_mul] at hmagnitude
    obtain ⟨hexponent, hfraction⟩ := fields_of hrest hmagnitude
    have hscale : f.minScale + (((scale - f.minScale).toNat.succ - 1 : Nat) : Int) = scale := by
      have hge := h.scale_ge
      omega
    rw [value, Binary.significand, Binary.scale, hexponent, hfraction, if_neg (Nat.succ_ne_zero _),
      hscale]

-- ── Conversions ──────────────────────────────────────────────────────────────────

/-- **A conversion keeps every value that both formats have.** -/
theorem convert_eq_of_value_eq {g : Format} {x : Binary f} {y : Binary g} (hx : x.isFinite)
    (hy : y.isFinite) (hsign : x.isNegative = y.isNegative) (hvalue : x.value = y.value) :
    x.convert = y := by
  have hden : 0 < x.ratio.2 := Nat.two_pow_pos _
  rw [convert, if_pos hx, ofRatio_of_admits hden (x.ratio_value.trans hvalue) (admits hy), hsign,
    place_eq_magnitude, ofMagnitude_magnitude]

/-- A conversion to its own format changes no finite pattern. -/
theorem convert_self {x : Binary f} (h : x.isFinite) : x.convert = x :=
  convert_eq_of_value_eq h h rfl rfl

/-- **The format of 64 bits has every value of the format of 32 bits.** A significand is brought to
    full length, and the scale is lowered by as much. -/
theorem exists_double {x : Binary32} (h : x.isFinite) :
    ∃ y : Binary64, y.isFinite ∧ y.isNegative = x.isNegative ∧ y.value = x.value := by
  have hadmits := admits h
  have hpattern : ∀ (significand : Nat) (scale : Int), double.Admits significand scale →
      significand * 2 ^ scale = x.value →
      ∃ y : Binary64, y.isFinite ∧ y.isNegative = x.isNegative ∧ y.value = x.value := by
    intro significand scale hdouble hvalue
    obtain ⟨hfinite, hsign, hvalue'⟩ := ofMagnitude_place x.isNegative hdouble
    exact ⟨_, hfinite, hsign, hvalue'.trans hvalue⟩
  rcases Nat.eq_zero_or_pos x.significand with hzero | hpos
  · refine hpattern 0 double.minScale ⟨by decide, Int.le_refl _, .inl rfl, by decide⟩ ?_
    rw [value, hzero, Nat.cast_zero, zero_mul, zero_mul]
  · have hne := Nat.ne_of_gt hpos
    have hlog : x.significand.log2 < 24 := (Nat.log2_lt hne).mpr hadmits.significand_lt
    obtain ⟨shift, hshift⟩ := Nat.exists_eq_add_of_le (show x.significand.log2 ≤ 52 by omega)
    have hfull : 2 ^ 52 ≤ x.significand * 2 ^ shift := by
      rw [hshift, Nat.pow_add]
      exact Nat.mul_le_mul_right _ (Nat.log2_self_le hne)
    have hlt : x.significand * 2 ^ shift < 2 ^ 53 := by
      have hpow : 2 ^ 53 = 2 ^ (x.significand.log2 + 1) * 2 ^ shift := by
        rw [← Nat.pow_add]
        congr 1
        omega
      rw [hpow]
      exact Nat.mul_lt_mul_of_pos_right Nat.lt_log2_self (Nat.two_pow_pos _)
    have hlow : -149 ≤ x.scale := hadmits.scale_ge
    have hhigh : x.scale ≤ 105 := by
      have hexponent : x.exponentField ≤ 255 := x.exponentField_le
      have hscale : x.scale = -149 + ((x.exponentField - 1 : Nat) : Int) := rfl
      omega
    refine hpattern (x.significand * 2 ^ shift) (x.scale - shift) ⟨hlt, ?_, .inr hfull, ?_⟩ ?_
    · show (-1074 : Int) ≤ x.scale - shift
      omega
    · show (x.scale - shift - (-1074)).toNat * 2 ^ 52 + x.significand * 2 ^ shift < 2047 * 2 ^ 52
      omega
    · rw [value, Nat.cast_mul, Nat.cast_pow, Nat.cast_ofNat, mul_assoc, ← zpow_natCast,
        ← zpow_add₀ two_ne_zero]
      congr 2
      omega

/-- **A finite pattern of 32 bits becomes a finite one of 64 bits, which gives it back.** -/
theorem convert_convert {x : Binary32} (h : x.isFinite) :
    (x.convert : Binary64).isFinite ∧ (x.convert : Binary64).convert = x := by
  obtain ⟨y, hy, hsign, hvalue⟩ := exists_double h
  rw [convert_eq_of_value_eq h hy hsign.symm hvalue.symm]
  exact ⟨hy, convert_eq_of_value_eq hy h hsign hvalue⟩

end Binary

end SegmentWire.Ieee

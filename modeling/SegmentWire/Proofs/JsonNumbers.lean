import SegmentWire.Json.Parser
import SegmentWire.Json.Printer
import Mathlib.Data.List.TakeDrop
import Mathlib.Data.List.TakeWhile
import Mathlib.Tactic.IntervalCases

/-!
# Numbers in JSON text

Which characters belong to a number is told by each of them alone, so that a number ends where a
character stands that numbers are not made of. A whole number is written in digits and read from them
exactly. A double is read in rounded steps; the few that are missed so are not named here.

* **`NumberLiteral.ofChars?_eq_some_iff`** — the grammar, one part after the other.
* **`NumberLiteral.numeric_of_ofChars?`** — the characters of a number.
* **`Number.ReadsBack`** — a number that is read as it was written; **`Number.readsBack_natural`** and
  **`Number.readsBack_negative`** say it of whole numbers.
-/

namespace SegmentWire.Json

namespace NumberLiteral

-- ── The grammar ──────────────────────────────────────────────────────────────────

/-- **The parts of a number follow each other**, up to the end. -/
theorem ofChars?_eq_some_iff {chars : List Char} {n : NumberLiteral} :
    ofChars? chars = some n ↔ ∃ unsigned behind rest,
      takeSign chars = (n.negative, unsigned) ∧ unsigned.span Char.isDigit = (n.whole, behind) ∧
      n.whole ≠ [] ∧ (n.whole.head? = some '0' → n.whole.length = 1) ∧
      fraction? behind = some (n.fraction, rest) ∧ exponent? rest = some (n.exponent, []) := by
  unfold ofChars?
  rcases hsign : takeSign chars with ⟨negative, unsigned⟩
  rcases hspan : unsigned.span Char.isDigit with ⟨whole, behind⟩
  dsimp only
  rw [hspan]
  dsimp only
  constructor
  · intro h
    split at h
    · cases h
    · next hwhole =>
      rw [not_or, not_and_not_right, List.isEmpty_iff] at hwhole
      obtain ⟨⟨fraction, rest⟩, hfraction, h⟩ := Option.bind_eq_some_iff.mp h
      obtain ⟨⟨exponent, last⟩, hexponent, h⟩ := Option.bind_eq_some_iff.mp h
      dsimp only at hexponent h
      split at h
      · cases h
      · next hlast =>
        cases h
        rw [Bool.not_eq_true, Bool.not_eq_false', List.isEmpty_iff] at hlast
        subst hlast
        exact ⟨_, _, _, rfl, hspan, hwhole.1, hwhole.2, hfraction, hexponent⟩
  · rintro ⟨unsigned, behind, rest, ⟨rfl, rfl⟩, hwhole, hne, hzero, hfraction, hexponent⟩
    rw [hspan] at hwhole
    cases hwhole
    rw [if_neg (not_or.mpr ⟨mt List.isEmpty_iff.mp hne, not_and_not_right.mpr hzero⟩), hfraction]
    show (exponent? rest).bind _ = _
    rw [hexponent]
    rfl

-- ── Its characters ───────────────────────────────────────────────────────────────

/-- All of the characters are such that numbers are made of. -/
def Numeric (chars : List Char) : Prop := ∀ c ∈ chars, Token.isNumeric c = true

theorem Numeric.append {front back : List Char} (hfront : Numeric front) (hback : Numeric back) :
    Numeric (front ++ back) :=
  List.forall_mem_append.mpr ⟨hfront, hback⟩

theorem numeric_of_isDigit {digits : List Char} (h : ∀ c ∈ digits, c.isDigit = true) :
    Numeric digits := by
  intro c hc
  simp [Token.isNumeric, h c hc]

/-- A run of digits in front of other characters. -/
theorem span_isDigit {chars digits rest : List Char} (h : chars.span Char.isDigit = (digits, rest)) :
    chars = digits ++ rest ∧ ∀ c ∈ digits, c.isDigit = true := by
  rw [List.span_eq_takeWhile_dropWhile, Prod.mk.injEq] at h
  obtain ⟨rfl, rfl⟩ := h
  exact ⟨List.takeWhile_append_dropWhile.symm, fun c hc => List.mem_takeWhile_imp hc⟩

theorem exists_of_takeSign {chars rest : List Char} {negative : Bool}
    (h : takeSign chars = (negative, rest)) : chars = '-' :: rest ∨ chars = rest := by
  unfold takeSign at h
  split at h <;> cases h
  · exact Or.inl rfl
  · exact Or.inr rfl

theorem exists_of_fraction? {chars rest : List Char} {fraction : Option (List Char)}
    (h : fraction? chars = some (fraction, rest)) :
    ∃ front, chars = front ++ rest ∧ Numeric front := by
  unfold fraction? at h
  split at h
  · next behind =>
    rcases hspan : behind.span Char.isDigit with ⟨digits, others⟩
    obtain ⟨rfl, hdigits⟩ := span_isDigit hspan
    rw [hspan] at h
    dsimp only at h
    split at h <;> cases h
    exact ⟨'.' :: digits, rfl, List.forall_mem_cons.mpr ⟨by decide, numeric_of_isDigit hdigits⟩⟩
  · cases h
    exact ⟨[], rfl, nofun⟩

theorem exists_of_exponent? {chars rest : List Char} {exponent : Option Int}
    (h : exponent? chars = some (exponent, rest)) :
    ∃ front, chars = front ++ rest ∧ Numeric front := by
  unfold exponent? at h
  split at h
  · next c behind =>
    split at h
    · next hletter =>
      have hc : Token.isNumeric c = true := by
        rcases hletter with rfl | rfl <;> decide
      split at h
      next below unsigned hsigned =>
      rcases hspan : unsigned.span Char.isDigit with ⟨front, others⟩
      obtain ⟨rfl, hdigits⟩ := span_isDigit hspan
      have hfront := numeric_of_isDigit hdigits
      rw [hspan] at h
      dsimp only at h
      split at h <;> cases h
      split at hsigned <;> cases hsigned
      · exact ⟨c :: '-' :: front, rfl, List.forall_mem_cons.mpr
          ⟨hc, List.forall_mem_cons.mpr ⟨by decide, hfront⟩⟩⟩
      · exact ⟨c :: '+' :: front, rfl, List.forall_mem_cons.mpr
          ⟨hc, List.forall_mem_cons.mpr ⟨by decide, hfront⟩⟩⟩
      · exact ⟨c :: front, rfl, List.forall_mem_cons.mpr ⟨hc, hfront⟩⟩
    · cases h
      exact ⟨[], rfl, nofun⟩
  · cases h
    exact ⟨[], rfl, nofun⟩

/-- **A number consists of its characters**, of which the first is a digit or the sign. -/
theorem numeric_of_ofChars? {chars : List Char} {n : NumberLiteral} (h : ofChars? chars = some n) :
    Numeric chars ∧ ∃ c rest, chars = c :: rest ∧ (c.isDigit = true ∨ c = '-') := by
  obtain ⟨unsigned, behind, rest, hsign, hspan, hne, -, hfraction, hexponent⟩ :=
    ofChars?_eq_some_iff.mp h
  obtain ⟨rfl, hdigits⟩ := span_isDigit hspan
  obtain ⟨front, rfl, hfront⟩ := exists_of_fraction? hfraction
  obtain ⟨last, rfl, hlast⟩ := exists_of_exponent? hexponent
  rw [List.append_nil] at hsign
  have hnumeric := (numeric_of_isDigit hdigits).append (hfront.append hlast)
  rcases exists_of_takeSign hsign with rfl | rfl
  · exact ⟨List.forall_mem_cons.mpr ⟨by decide, hnumeric⟩, '-', _, rfl, Or.inr rfl⟩
  · obtain ⟨c, digits, hwhole⟩ := List.exists_cons_of_ne_nil hne
    refine ⟨hnumeric, c, digits ++ (front ++ last), by rw [hwhole]; rfl, Or.inl ?_⟩
    exact hdigits c (hwhole ▸ List.mem_cons_self)

-- ── Whole numbers ────────────────────────────────────────────────────────────────

/-- Only zero is written with a zero in front. -/
theorem head?_toDigits {n : Nat} (h : 0 < n) : (Nat.toDigits 10 n).head? ≠ some '0' := by
  induction n using Nat.strongRecOn with
  | ind n ih =>
      by_cases hsmall : n < 10
      · rw [Nat.toDigits_of_lt_base hsmall]
        interval_cases n <;> decide
      · have hlarge : 10 ≤ n := Nat.not_lt.mp hsmall
        have hfront := ih (n / 10) (Nat.div_lt_self h (by decide)) (Nat.div_pos hlarge (by decide))
        obtain ⟨c, digits, hdigits⟩ :=
          List.exists_cons_of_ne_nil (Nat.toDigits_ne_nil (b := 10) (n := n / 10))
        rw [hdigits] at hfront
        rw [Nat.toDigits_of_base_le (by decide) hlarge, hdigits]
        exact hfront

theorem isDigit_toDigits (n : Nat) : ∀ c ∈ Nat.toDigits 10 n, c.isDigit = true :=
  fun _ => Nat.isDigit_of_mem_toDigits (by decide) (by decide)

/-- The digits of a number behind a sign or none are the literal of these digits. -/
theorem ofChars?_of_takeSign {chars : List Char} {negative : Bool} {n : Nat}
    (h : takeSign chars = (negative, Nat.toDigits 10 n)) :
    ofChars? chars = some ⟨negative, Nat.toDigits 10 n, none, none⟩ := by
  refine ofChars?_eq_some_iff.mpr ⟨_, [], [], h, ?_, Nat.toDigits_ne_nil, ?_, rfl, rfl⟩
  · rw [List.span_eq_takeWhile_dropWhile, List.takeWhile_eq_self_iff.mpr (isDigit_toDigits n),
      List.dropWhile_eq_nil_iff.mpr (isDigit_toDigits n)]
  · intro hzero
    rcases Nat.eq_zero_or_pos n with rfl | hpos
    · rfl
    · exact absurd hzero (head?_toDigits hpos)

/-- Digits are appended as long as the number that they stand for fits 64 bits. -/
theorem appendDigits_eq {digits : List Char} {significand : Nat}
    (h : Nat.ofDigitChars 10 digits significand < 2 ^ 64) :
    appendDigits significand digits = (Nat.ofDigitChars 10 digits significand, []) := by
  induction digits generalizing significand with
  | nil => rfl
  | cons c digits ih =>
      rw [Nat.ofDigitChars_cons] at h ⊢
      have hle : 10 * significand + digitValue c ≤
          Nat.ofDigitChars 10 digits (10 * significand + digitValue c) := by
        rw [Nat.ofDigitChars_eq_ofDigitChars_zero]
        exact Nat.le_add_right_of_le (Nat.le_mul_of_pos_left _ (Nat.pow_pos (by decide)))
      rw [appendDigits]
      exact (if_pos (Nat.lt_of_le_of_lt hle h)).trans (ih h)

theorem whole?_toDigits {negative : Bool} {n : Nat} (h : n < 2 ^ 64) :
    whole? ⟨negative, Nat.toDigits 10 n, none, none⟩ = some n := by
  have hvalue : Nat.ofDigitChars 10 (Nat.toDigits 10 n) 0 = n := Nat.ofDigitChars_ten_toDigits
  rw [whole?, appendDigits_eq (hvalue.symm ▸ h), hvalue]

end NumberLiteral

namespace Number

open NumberLiteral

/-- What is read of the number as it is written is this number again. -/
def ReadsBack (n : Number) : Prop := (ofChars? n.render.toList).bind NumberLiteral.resolve? = some n

/-- **A whole number without a sign reads back.** -/
theorem readsBack_natural (n : UInt64) : (natural n).ReadsBack := by
  have hsign : takeSign (Nat.toDigits 10 n.toNat) = (false, Nat.toDigits 10 n.toNat) := by
    unfold takeSign
    split
    · next rest hdigits =>
      have hminus := isDigit_toDigits n.toNat '-' (hdigits ▸ List.mem_cons_self)
      exact absurd hminus (by decide)
    · rfl
  rw [ReadsBack, render, Nat.toString_eq_repr, Nat.toList_repr, ofChars?_of_takeSign hsign,
    Option.bind_some, NumberLiteral.resolve?, whole?_toDigits n.toNat_lt]
  exact congrArg (fun n => some (natural n)) UInt64.ofNat_toNat

/-- **A whole number below zero reads back.** -/
theorem readsBack_negative {n : Int64} (h : n.toInt < 0) : (negative n).ReadsBack := by
  obtain ⟨size, hsize⟩ : ∃ size : Nat, n.toInt = -(size : Int) := ⟨n.toInt.natAbs, by omega⟩
  have hlow : -9223372036854775808 ≤ n.toInt := n.le_toInt
  have hpos : 0 < size := by omega
  have hle : size ≤ 2 ^ 63 := by omega
  have hrender : (negative n).render.toList = '-' :: Nat.toDigits 10 size := by
    rw [render, Int.toString_eq_repr, Int.repr_eq_if, if_neg (Int.not_le.mpr h), String.toList_append,
      Nat.toList_repr, hsize, Int.neg_neg, Int.toNat_natCast]
    rfl
  have hsign : takeSign ('-' :: Nat.toDigits 10 size) = (true, Nat.toDigits 10 size) := rfl
  rw [ReadsBack, hrender, ofChars?_of_takeSign hsign, Option.bind_some, NumberLiteral.resolve?,
    whole?_toDigits (Nat.lt_of_le_of_lt hle (by decide))]
  refine (if_pos ⟨hpos, hle⟩).trans ?_
  rw [← hsize, Int64.ofInt_toInt]

theorem readsBack_ofInt {n : Int} (hlow : -9223372036854775808 ≤ n) : (ofInt n).ReadsBack := by
  rw [ofInt]
  split
  · exact readsBack_natural _
  · next hneg =>
    refine readsBack_negative ?_
    rwa [Int64.toInt_ofInt_of_le hlow (by omega), ← Int.not_le]

end Number

end SegmentWire.Json

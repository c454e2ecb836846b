import SegmentWire.Segment.Value
import SegmentWire.Proofs.BigEndian

/-!
# What payloads say

A reading of a payload succeeds on exactly the payloads that the value is written as: numbers are
big-endian in the width of their tag, and text is its UTF-8 bytes.

* **`bind_eq_ok_iff`**, **`unless_eq_ok_iff`** — how a successful outcome is taken apart;
  **`Matching`** — two outcomes that go together.
* **`Segment.number_eq_ok_iff`**, **`Segment.word_eq_ok_iff`** — numbers;
  **`Segment.version_eq_ok_iff`**, **`Segment.endCount_eq_ok_iff`** — the two envelope markers.
* **`Utf8.decode?_eq_some_iff`**, **`Segment.text_eq_ok_iff`** — text; **`utf8ByteSize_replicate`** — the
  size of one that is an ASCII letter over and over.
-/

namespace SegmentWire

-- powers are those of the core library, whatever else is imported
attribute [local instance (2000)] instPowNat

namespace Utf8

/-- Bytes are read as a text exactly if they are its UTF-8 form. -/
theorem decode?_eq_some_iff {bytes : Bytes} {t : String} :
    decode? bytes = some t ↔ bytes = encode t := by
  rw [decode?, String.fromUTF8?]
  constructor
  · intro h
    split at h
    · cases h
      rfl
    · cases h
  · rintro rfl
    have hvalid : ByteArray.IsValidUTF8 ⟨(encode t).toArray⟩ := t.isValidUTF8
    rw [dif_pos hvalid]
    rfl

end Utf8

theorem utf8ByteSize_replicate (length : Nat) :
    (String.ofList (.replicate length 'a')).utf8ByteSize = length := by
  induction length with
  | zero => rfl
  | succ length ih =>
      rw [List.replicate_succ', String.ofList_append, String.utf8ByteSize_append, ih]
      rfl

-- ── Outcomes ─────────────────────────────────────────────────────────────────────

section Outcomes

variable {α β γ δ : Type}

/-- A sequence succeeds where both of its parts do. -/
theorem bind_eq_ok_iff {first : Except WireError α} {next : α → Except WireError β} {b : β} :
    (first >>= next) = .ok b ↔ ∃ a, first = .ok a ∧ next a = .ok b := by
  cases first with
  | error e =>
      constructor
      · rintro ⟨⟩
      · rintro ⟨a, ⟨⟩, -⟩
  | ok a =>
      constructor
      · intro h
        exact ⟨a, rfl, h⟩
      · rintro ⟨a, ⟨⟩, h⟩
        exact h

/-- A check in front of an outcome has to pass. -/
theorem unless_eq_ok_iff {c : Prop} [Decidable c] {refusal : WireError}
    {next : Except WireError α} {a : α} :
    (if c then .error refusal else next) = .ok a ↔ ¬ c ∧ next = .ok a := by
  by_cases hc : c
  · rw [if_pos hc]
    constructor
    · rintro ⟨⟩
    · rintro ⟨hnot, -⟩
      exact absurd hc hnot
  · rw [if_neg hc]
    exact (and_iff_right hc).symm

/-- Two outcomes match: both are the same failure, or both are successes with related values. -/
inductive Matching (related : α → β → Prop) : Except WireError α → Except WireError β → Prop
  | failed (e : WireError) : Matching related (.error e) (.error e)
  | found {a : α} {b : β} (h : related a b) : Matching related (.ok a) (.ok b)

/-- Outcomes that match go on to outcomes that match. -/
theorem Matching.bind {related : α → β → Prop} {related' : γ → δ → Prop}
    {first : Except WireError α} {first' : Except WireError β} {next : α → Except WireError γ}
    {next' : β → Except WireError δ} (h : Matching related first first')
    (hnext : ∀ a b, related a b → Matching related' (next a) (next' b)) :
    Matching related' (first >>= next) (first' >>= next') := by
  cases h with
  | failed e => exact .failed e
  | found h => exact hnext _ _ h

end Outcomes

namespace Segment

variable {s : Segment}

-- ── Numbers and markers ──────────────────────────────────────────────────────────

/-- A number is read from exactly the segment that states it in the given width. -/
theorem number_eq_ok_iff {tag : Tag} {width n : Nat} :
    s.number tag width = .ok n ↔ n < 256 ^ width ∧ s = ⟨tag, bigEndian width n⟩ := by
  obtain ⟨found, payload⟩ := s
  rw [number, unless_eq_ok_iff, unless_eq_ok_iff]
  constructor
  · rintro ⟨htag, hwidth, ⟨⟩⟩
    obtain rfl := Decidable.not_not.mp htag
    obtain rfl := Decidable.not_not.mp hwidth
    exact ⟨ofBigEndian_lt payload, by rw [bigEndian_ofBigEndian]⟩
  · rintro ⟨hlt, ⟨⟩⟩
    exact ⟨not_not_intro rfl, not_not_intro (length_bigEndian width n),
      congrArg Except.ok (ofBigEndian_bigEndian hlt)⟩

/-- A version is read from exactly the start marker that carries it. -/
theorem version_eq_ok_iff {version : UInt8} :
    s.version = .ok version ↔ s = documentStart version := by
  rw [Segment.version, bind_eq_ok_iff]
  constructor
  · rintro ⟨n, hn, ⟨⟩⟩
    exact (number_eq_ok_iff.mp hn).2
  · rintro rfl
    have hword : UInt8.ofNat version.toNat = version := UInt8.ofNat_toNat
    refine ⟨version.toNat, number_eq_ok_iff.mpr ⟨version.toNat_lt, ?_⟩, congrArg Except.ok hword⟩
    show documentStart version = ⟨.documentStart, [UInt8.ofNat version.toNat]⟩
    rw [hword]
    rfl

/-- The word of a number that a word can hold states this number. -/
theorem toNat_ofNat_of_le {n : Nat} (h : n ≤ maxWord) : (UInt64.ofNat n).toNat = n :=
  UInt64.toNat_ofNat_of_lt' (Nat.lt_succ_of_le h)

/-- A word is read from exactly the segment that states it in the given width, at most eight. -/
theorem word_eq_ok_iff {tag : Tag} {width : Nat} (hwidth : width ≤ 8) {count : UInt64} :
    (s.number tag width >>= fun n => pure (UInt64.ofNat n)) = .ok count ↔
      count.toNat < 256 ^ width ∧ s = ⟨tag, bigEndian width count.toNat⟩ := by
  rw [bind_eq_ok_iff]
  constructor
  · rintro ⟨n, hn, ⟨⟩⟩
    obtain ⟨hlt, rfl⟩ := number_eq_ok_iff.mp hn
    have hword : 256 ^ width ≤ maxWord + 1 := Nat.pow_le_pow_right (by decide) hwidth
    rw [toNat_ofNat_of_le (Nat.le_of_lt_succ (Nat.lt_of_lt_of_le hlt hword))]
    exact ⟨hlt, rfl⟩
  · intro h
    exact ⟨count.toNat, number_eq_ok_iff.mpr h, congrArg Except.ok UInt64.ofNat_toNat⟩

/-- An integrity count is read from exactly the end marker that carries it. -/
theorem endCount_eq_ok_iff {count : UInt64} :
    s.endCount = .ok count ↔ s = documentEnd count := by
  rw [endCount, word_eq_ok_iff (Nat.le_refl 8)]
  exact and_iff_right count.toNat_lt

-- ── Text ─────────────────────────────────────────────────────────────────────────

/-- A text is read from exactly the strings, of either size class, that hold its UTF-8 form. -/
theorem text_eq_ok_iff {t : String} :
    s.text = .ok t ↔ s.tag.isString = true ∧ s.payload = Utf8.encode t := by
  rw [text]
  constructor
  · intro h
    split at h
    · next hstring =>
      split at h
      · next found hfound =>
        cases h
        exact ⟨hstring, Utf8.decode?_eq_some_iff.mp hfound⟩
      · cases h
    · cases h
  · rintro ⟨hstring, hpayload⟩
    rw [if_pos hstring, Utf8.decode?_eq_some_iff.mpr hpayload]

end Segment

end SegmentWire

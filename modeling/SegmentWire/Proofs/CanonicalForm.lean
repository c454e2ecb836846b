import SegmentWire.Proofs.Reachable
import SegmentWire.Proofs.Values

/-!
# Canonical segments

Several segments may hold one value: a text, bytes or a count that would fit the regular size class
may be kept in the large one, and a true boolean in any octet but zero. One of them is the canonical
one, which is the segment that is made for the value.

* **`Segment.Canonical`** — the segments that say nothing but their value, and
  **`Segment.canonical`**, the canonical form of any segment.
* **`Segment.Holds.ofValue_eq`** — the canonical form is made from the value alone.
* **`Segment.Fits.canonical_eq_iff`** — it is the segment itself exactly if that is canonical, as is
  every segment that is made for a value (**`Segment.canonical_ofValue`**).
* **`Segment.Fits.get_canonical`**, **`Segment.size_canonical_le`** — it is read in the same way and
  is never longer.
-/

namespace SegmentWire

namespace Segment

variable {s : Segment} {v : Value}

/-- The size class is the smallest that there is for the payload or the count, and a true boolean is
    a one. -/
structure Canonical (s : Segment) : Prop where
  huge : s.tag = .hugeString ∨ s.tag = .hugeBinary → maxRegular < s.payload.length
  large : s.tag = .largeList ∨ s.tag = .largeMap → maxRegular < ofBigEndian s.payload
  octet : s.tag = .bool → s.payload = [0] ∨ s.payload = [1]

/-- The segment with the same tag and payload, but for a size class that is too large and for the
    octet of a true boolean. -/
def canonical (s : Segment) : Segment :=
  match s.tag with
  | .hugeString => if s.payload.length ≤ maxRegular then ⟨.string, s.payload⟩ else s
  | .hugeBinary => if s.payload.length ≤ maxRegular then ⟨.binary, s.payload⟩ else s
  | .largeList =>
    if ofBigEndian s.payload ≤ maxRegular then ⟨.list, bigEndian 2 (ofBigEndian s.payload)⟩ else s
  | .largeMap =>
    if ofBigEndian s.payload ≤ maxRegular then ⟨.map, bigEndian 2 (ofBigEndian s.payload)⟩ else s
  | .bool => ⟨.bool, s.payload.map fun octet => if octet = 0 then 0 else 1⟩
  | _ => s

/-- An index is brought to its smallest size class by what it states. -/
theorem StatesCount.canonical_eq {regular large : Tag} {count : UInt64}
    (h : StatesCount regular large count.toNat s)
    (hregular : ∀ payload, canonical ⟨regular, payload⟩ = ⟨regular, payload⟩)
    (hlarge : ∀ payload, canonical ⟨large, payload⟩ =
      if ofBigEndian payload ≤ maxRegular then ⟨regular, bigEndian 2 (ofBigEndian payload)⟩
      else ⟨large, payload⟩) : indexOf regular large count = s.canonical := by
  rw [indexOf]
  rcases h with ⟨hle, rfl⟩ | ⟨-, rfl⟩
  · rw [hregular, if_pos hle]
  · rw [hlarge, ofBigEndian_bigEndian count.toNat_lt]

/-- **The canonical form is the segment that is made for the value**, which is all that it depends
    on. -/
theorem Holds.ofValue_eq (h : s.Holds v) (hfits : s.Fits) : ofValue v = s.canonical := by
  cases v with
  | bool b =>
      obtain ⟨octet, rfl, rfl⟩ := h
      show (⟨.bool, [if (octet != 0) then 1 else 0]⟩ : Segment) =
        ⟨.bool, [if octet = 0 then 0 else 1]⟩
      by_cases hzero : octet = 0
      · rw [hzero]
        rfl
      · rw [if_pos (bne_iff_ne.mpr hzero), if_neg hzero]
  | text t =>
      obtain ⟨tag, payload⟩ := s
      obtain ⟨hstring, rfl⟩ := h
      rw [ofValue, ofText]
      cases tag with
      | string => exact congrArg (Segment.mk · _) (if_pos (hfits.regular (.inl rfl)))
      | hugeString => exact apply_ite (Segment.mk · (Utf8.encode t)) _ _ _
      | _ => cases hstring
  | binary bytes =>
      obtain ⟨tag, payload⟩ := s
      obtain ⟨hbinary, rfl⟩ := h
      rw [ofValue, ofBinary]
      cases tag with
      | binary => exact congrArg (Segment.mk · _) (if_pos (hfits.regular (.inr rfl)))
      | hugeBinary => exact apply_ite (Segment.mk · payload) _ _ _
      | _ => cases hbinary
  | listIndex count => exact StatesCount.canonical_eq h (fun _ => rfl) fun _ => rfl
  | mapIndex count => exact StatesCount.canonical_eq h (fun _ => rfl) fun _ => rfl
  | _ =>
      cases h
      rfl

/-- **A segment is its own canonical form exactly if it is canonical.** -/
theorem Fits.canonical_eq_iff (h : s.Fits) : s.canonical = s ↔ s.Canonical := by
  obtain ⟨tag, payload⟩ := s
  constructor
  · intro heq
    have hclass : ∀ {size : Nat} {small large : Tag} {shorter : Bytes}, small ≠ large →
        (if size ≤ maxRegular then ⟨small, shorter⟩ else ⟨large, payload⟩ : Segment) =
          ⟨large, payload⟩ → maxRegular < size := by
      intro size small large shorter hne hkept
      exact Nat.not_le.mp fun hle => hne (congrArg Segment.tag ((if_pos hle).symm.trans hkept))
    constructor
    case huge =>
      rintro (rfl | rfl)
      · exact hclass (by decide : Tag.string ≠ .hugeString) heq
      · exact hclass (by decide : Tag.binary ≠ .hugeBinary) heq
    case large =>
      rintro (rfl | rfl)
      · exact hclass (by decide : Tag.list ≠ .largeList) heq
      · exact hclass (by decide : Tag.map ≠ .largeMap) heq
    case octet =>
      rintro rfl
      obtain ⟨octet, rfl⟩ := List.length_eq_one_iff.mp (h.length_eq rfl)
      have hpayload : [if octet = 0 then 0 else 1] = [octet] := congrArg Segment.payload heq
      rw [← hpayload]
      split
      · exact Or.inl rfl
      · exact Or.inr rfl
  · intro hcanonical
    cases tag with
    | hugeString => exact if_neg (Nat.not_le.mpr (hcanonical.huge (.inl rfl)))
    | hugeBinary => exact if_neg (Nat.not_le.mpr (hcanonical.huge (.inr rfl)))
    | largeList => exact if_neg (Nat.not_le.mpr (hcanonical.large (.inl rfl)))
    | largeMap => exact if_neg (Nat.not_le.mpr (hcanonical.large (.inr rfl)))
    | bool =>
        rcases hcanonical.octet rfl with hzero | hone
        · obtain rfl : payload = [0] := hzero
          rfl
        · obtain rfl : payload = [1] := hone
          rfl
    | _ => rfl

/-- **Every segment that is made for a value is canonical.** -/
theorem canonical_ofValue (v : Value) : (ofValue v).Canonical :=
  (ofValue_fits v).canonical_eq_iff.mp ((holds_ofValue v).ofValue_eq (ofValue_fits v)).symm

/-- **What is read from a segment is read from its canonical form.** -/
theorem Fits.get_canonical (h : s.Fits) {kind : Kind} (hget : s.get kind = .ok v) :
    s.canonical.get kind = .ok v := by
  obtain ⟨hkind, hholds⟩ := get_eq_ok_iff.mp hget
  rw [← hholds.ofValue_eq h]
  exact get_eq_ok_iff.mpr ⟨hkind, holds_ofValue v⟩

/-- **The canonical form is never longer.** -/
theorem size_canonical_le (s : Segment) : s.canonical.size ≤ s.size := by
  have hclass : ∀ {c : Prop} [Decidable c] {small large : Segment}, small.size ≤ large.size →
      (if c then small else large).size ≤ large.size := by
    intro c _ small large hle
    split
    · exact hle
    · exact Nat.le_refl _
  have hfield : ∀ length, 1 + 2 + length ≤ 1 + 8 + length := fun length =>
    Nat.add_le_add_right (by decide) length
  obtain ⟨tag, payload⟩ := s
  cases tag with
  | hugeString => exact hclass (hfield payload.length)
  | hugeBinary => exact hclass (hfield payload.length)
  | largeList => exact hclass (show 1 + 2 ≤ 1 + 8 by decide)
  | largeMap => exact hclass (show 1 + 2 ≤ 1 + 8 by decide)
  | _ => exact Nat.le_refl _

end Segment

end SegmentWire

import SegmentWire.Proofs.CanonicalForm
import SegmentWire.Proofs.TypedJson

/-!
# Segments to JSON and back

The JSON form of a segment is made from its value alone, so that what comes back is the segment that
is made for the value: the canonical form. Only values that JSON has no form for do not get there.

* **`Segment.typed_eq`**, **`Segment.ofJson_toJson`** — the two steps on a value that is finite.
* **`Segment.NotFinite`**, **`Segment.NotUtf8`** — the segments without a JSON form, and
  **`Segment.Fits.finite_value`**, that there are no others.
* **`Segment.json_trip`** — the outcome of the way there and back for every segment.
-/

namespace SegmentWire

theorem ValueOf.Finite.map {Blob Blob' : Type} {v : ValueOf Blob} (h : v.Finite)
    (change : Blob → Blob') : (v.map change).Finite := by
  cases v <;> exact h

namespace Segment

variable {s : Segment} {v : Value}

-- ── The two steps ────────────────────────────────────────────────────────────────

/-- **The typed value of a segment with a finite value** is this value with its bytes in base64. -/
theorem typed_eq (hvalue : s.value = .ok v) (h : v.Finite) :
    s.typed = .ok (v.map Base64.encode) := by
  rw [typed, hvalue]
  cases v with
  | float32 x => exact if_pos h
  | float64 x => exact if_pos h
  | _ => rfl

/-- A value that is not finite is refused. -/
theorem typed_of_not_finite (hvalue : s.value = .ok v) (h : ¬ v.Finite) :
    ∃ e : WireError, e.kind = .json ∧ s.typed = .error e := by
  rw [typed, hvalue]
  cases v with
  | float32 x => exact ⟨_, rfl, if_neg h⟩
  | float64 x => exact ⟨_, rfl, if_neg h⟩
  | _ => exact absurd trivial h

/-- Both steps there. -/
theorem toJson_eq (hvalue : s.value = .ok v) (h : v.Finite) :
    s.toJson = .ok (TypedValue.toJson (v.map Base64.encode)) := by
  rw [toJson, typed_eq hvalue h]
  rfl

/-- Both steps back. -/
theorem ofJson_toJson (h : v.Finite) :
    ofJson (TypedValue.toJson (v.map Base64.encode)) = .ok (ofValue v) := by
  rw [ofJson, TypedValue.ofJson?_toJson (h.map Base64.encode)]
  exact ofTyped_map v

-- ── What has a JSON form ─────────────────────────────────────────────────────────

/-- The segment is a floating-point number, and that is NaN or an infinity. -/
def NotFinite (s : Segment) : Prop :=
  (∃ x, s.get .float32 = .ok (.float32 x) ∧ (x.isNaN = true ∨ x = .infinity x.isNegative)) ∨
    ∃ x, s.get .float64 = .ok (.float64 x) ∧ (x.isNaN = true ∨ x = .infinity x.isNegative)

/-- The segment is a string of either size class, and its payload is not UTF-8. -/
def NotUtf8 (s : Segment) : Prop := s.tag.isString = true ∧ Utf8.decode? s.payload = none

theorem notFinite_iff : s.NotFinite ↔ ∃ v, s.value = .ok v ∧ ¬ v.Finite := by
  have hread : ∀ v : Value, s.get v.kind = .ok v ↔ s.value = .ok v := fun v =>
    (get_eq_ok_iff.trans (and_iff_right rfl)).trans value_eq_ok_iff.symm
  constructor
  · rintro (⟨x, hget, hx⟩ | ⟨x, hget, hx⟩)
    · refine ⟨.float32 x, (hread _).mp hget, ?_⟩
      exact Bool.eq_false_iff.mp (Ieee.Binary.isFinite_eq_false_iff.mpr hx)
    · refine ⟨.float64 x, (hread _).mp hget, ?_⟩
      exact Bool.eq_false_iff.mp (Ieee.Binary.isFinite_eq_false_iff.mpr hx)
  · rintro ⟨v, hvalue, hv⟩
    cases v with
    | float32 x =>
        have hx := Ieee.Binary.isFinite_eq_false_iff.mp (Bool.eq_false_iff.mpr hv)
        exact Or.inl ⟨x, (hread _).mpr hvalue, hx⟩
    | float64 x =>
        have hx := Ieee.Binary.isFinite_eq_false_iff.mp (Bool.eq_false_iff.mpr hv)
        exact Or.inr ⟨x, (hread _).mpr hvalue, hx⟩
    | _ => exact absurd trivial hv

/-- Text that is not UTF-8 is refused. -/
theorem NotUtf8.toJson_eq (h : s.NotUtf8) : s.toJson = .error (.notUtf8 s.tag) := by
  obtain ⟨hstring, hdecode⟩ := h
  have htext : s.text = .error (.notUtf8 s.tag) := by
    rw [text, if_pos hstring, hdecode]
  have hkind : s.tag.kind = .text := by
    revert hstring
    cases s.tag <;> decide
  have hvalue : s.value = .error (.notUtf8 s.tag) := by
    rw [value, hkind]
    show (s.text >>= fun t => pure (ValueOf.text t)) = _
    rw [htext]
    rfl
  rw [toJson, typed, hvalue]
  rfl

theorem NotFinite.toJson_eq (h : s.NotFinite) :
    ∃ e : WireError, s.toJson = .error e ∧ e.kind = .json := by
  obtain ⟨v, hvalue, hv⟩ := notFinite_iff.mp h
  obtain ⟨e, hkind, htyped⟩ := typed_of_not_finite hvalue hv
  refine ⟨e, ?_, hkind⟩
  rw [toJson, htyped]
  rfl

/-- **All other segments have a finite value**, as long as their payloads fit. -/
theorem Fits.finite_value (h : s.Fits) (hfinite : ¬ s.NotFinite) (hutf8 : ¬ s.NotUtf8) :
    ∃ v, s.value = .ok v ∧ v.Finite := by
  obtain ⟨v, hholds⟩ := h.holds_or.resolve_right hutf8
  have hvalue := value_eq_ok_iff.mpr hholds
  exact ⟨v, hvalue, not_not.mp fun hv => hfinite (notFinite_iff.mpr ⟨v, hvalue, hv⟩)⟩

/-- **Segments to JSON and back.** A segment has no JSON form exactly if it is a floating-point
    number that is NaN or infinite, or a string that is not UTF-8. From the form of any other
    segment comes its canonical form back, which is the segment itself exactly if that is canonical
    already, as all segments are that values are converted to or stored in. It is read in every way
    in which the segment was read, it is not longer, and its own JSON form is the same. -/
theorem json_trip :
    (∀ s : Segment, (Item.segment s).Reachable →
      (s.NotFinite → ∃ e : WireError, s.toJson = .error e ∧ e.kind = .json) ∧
      (s.NotUtf8 → ∃ e : WireError, s.toJson = .error e ∧ e.kind = .utf8) ∧
      (¬ s.NotFinite → ¬ s.NotUtf8 → ∃ json t, s.toJson = .ok json ∧ ofJson json = .ok t ∧
        t = s.canonical ∧ (t = s ↔ s.Canonical) ∧
        (∀ kind v, s.get kind = .ok v → t.get kind = .ok v) ∧ t.size ≤ s.size ∧
        t.Canonical ∧ t.toJson = .ok json)) ∧
    ∀ v : Value, (ofValue v).Canonical ∧ ∀ s : Segment, (s.set v).Canonical := by
  refine ⟨fun s h => ⟨NotFinite.toJson_eq, fun hutf8 => ⟨_, hutf8.toJson_eq, rfl⟩, ?_⟩, fun v => ?_⟩
  · intro hfinite hutf8
    have hfits : s.Fits := h.sound
    obtain ⟨v, hvalue, hv⟩ := hfits.finite_value hfinite hutf8
    have hcanonical : ofValue v = s.canonical :=
      (value_eq_ok_iff.mp hvalue).ofValue_eq hfits
    have hback : s.canonical.value = .ok v := by
      rw [← hcanonical]
      exact value_eq_ok_iff.mpr (holds_ofValue v)
    refine ⟨_, s.canonical, toJson_eq hvalue hv, ?_, rfl, hfits.canonical_eq_iff,
      fun kind w => hfits.get_canonical, s.size_canonical_le, ?_, toJson_eq hback hv⟩
    · rw [← hcanonical]
      exact ofJson_toJson hv
    · rw [← hcanonical]
      exact canonical_ofValue v
  · refine ⟨canonical_ofValue v, fun s => ?_⟩
    rw [set_eq]
    exact canonical_ofValue v

/-- A short text in the large size class and a true boolean in another octet come back in their
    canonical forms. A NaN and a byte that begins no character have no JSON form. -/
theorem json_trip_large_class :
    let huge : Segment := ⟨.hugeString, [97, 98]⟩
    let truth : Segment := ⟨.bool, [7]⟩
    let nan : Segment := ofValue (.float32 ⟨0x7fc00000⟩)
    let broken : Segment := ⟨.string, [255]⟩
    (∃ json t, huge.toJson = .ok json ∧ ofJson json = .ok t ∧ t = ⟨.string, [97, 98]⟩) ∧
    (∃ json t, truth.toJson = .ok json ∧ ofJson json = .ok t ∧ t = ⟨.bool, [1]⟩) ∧
    (∃ e : WireError, nan.toJson = .error e ∧ e.kind = .json) ∧
    ∃ e : WireError, broken.toJson = .error e ∧ e.kind = .utf8 := by
  intro huge truth nan broken
  have hhuge : (Item.segment huge).Reachable :=
    .ofParts (show ofParts .hugeString [97, 98] = .ok huge from rfl)
  have htruth : (Item.segment truth).Reachable :=
    .ofParts (show ofParts .bool [7] = .ok truth from rfl)
  have hnan : (Item.segment nan).Reachable := .ofValue _
  have hbroken : (Item.segment broken).Reachable :=
    .ofParts (show ofParts .string [255] = .ok broken from rfl)
  have hfinite : ∀ s : Segment, s.tag ≠ .float32 → s.tag ≠ .float64 → ¬ s.NotFinite := by
    rintro s hsingle hdouble (⟨x, hget, -⟩ | ⟨x, hget, -⟩)
    · exact hsingle (congrArg tag (holds_of_get hget).2)
    · exact hdouble (congrArg tag (holds_of_get hget).2)
  have hutf8 : ¬ huge.NotUtf8 := by
    rintro ⟨-, hnone⟩
    have hsome := Utf8.decode?_eq_some_iff.mpr (show huge.payload = Utf8.encode "ab" by decide)
    exact nomatch hnone.symm.trans hsome
  obtain ⟨htrip, -⟩ := json_trip
  obtain ⟨-, -, hhuge⟩ := htrip huge hhuge
  obtain ⟨-, -, htruth⟩ := htrip truth htruth
  obtain ⟨json, t, hto, hof, ht, -⟩ := hhuge (hfinite _ nofun nofun) hutf8
  obtain ⟨json', t', hto', hof', ht', -⟩ := htruth (hfinite _ nofun nofun) fun h => nomatch h.1
  refine ⟨⟨json, t, hto, hof, ht⟩, ⟨json', t', hto', hof', ht'⟩, (htrip nan hnan).1 ?_,
    (htrip broken hbroken).2.1 ?_⟩
  · exact Or.inl ⟨⟨0x7fc00000⟩, get_eq_ok_iff.mpr ⟨rfl, holds_ofValue _⟩, Or.inl (by decide)⟩
  · exact ⟨rfl, by decide +kernel⟩

end Segment

end SegmentWire

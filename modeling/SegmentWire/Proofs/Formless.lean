import SegmentWire.Proofs.JsonTrip
import SegmentWire.Proofs.Loops

/-!
# What has no JSON form

Two faults keep a segment from its JSON form, and each of them has its own error. A message or a document
has no form exactly if one of its parts has none, and the first of these is what it is refused for.

* **`Segment.Formless`** — the error of a segment without a JSON form; **`Segment.HasForm`** are the
  others.
* **`Segment.Fits.typed_eq_error_iff`**, **`Message.typed_eq_error_iff`**,
  **`Document.typed_eq_error_iff`** — what is refused, and what for.
-/

namespace SegmentWire

-- ── Segments ─────────────────────────────────────────────────────────────────────

namespace Segment

/-- The error for a segment that JSON has no form for: a number that is NaN or infinite, of either width,
    or a text that is not UTF-8. -/
inductive Formless : Segment → WireError → Prop
  | single {s : Segment} {x : Ieee.Binary32} (hget : s.get .float32 = .ok (.float32 x))
      (h : x.isNaN = true ∨ x = .infinity x.isNegative) :
      Formless s (.json (.notFinite s.tag (displayStyle.render x)))
  | double {s : Segment} {x : Ieee.Binary64} (hget : s.get .float64 = .ok (.float64 x))
      (h : x.isNaN = true ∨ x = .infinity x.isNegative) :
      Formless s (.json (.notFinite s.tag (displayStyle.render x)))
  | text {s : Segment} (h : s.NotUtf8) : Formless s (.notUtf8 s.tag)

/-- The segment is neither a number that is not finite nor a text that is not UTF-8. -/
def HasForm (s : Segment) : Prop := ¬ s.NotFinite ∧ ¬ s.NotUtf8

variable {s : Segment} {v : TypedValue} {e : WireError}

/-- Numbers are refused by the JSON form, texts by the encoding. -/
theorem Formless.kind_eq (h : s.Formless e) :
    s.NotFinite ∧ e.kind = .json ∨ s.NotUtf8 ∧ e.kind = .utf8 := by
  cases h with
  | single hget h => exact Or.inl ⟨Or.inl ⟨_, hget, h⟩, rfl⟩
  | double hget h => exact Or.inl ⟨Or.inr ⟨_, hget, h⟩, rfl⟩
  | text h => exact Or.inr ⟨h, rfl⟩

theorem Formless.not_hasForm (h : s.Formless e) : ¬ s.HasForm := by
  rcases h.kind_eq with ⟨h, -⟩ | ⟨h, -⟩
  · exact fun hform => hform.1 h
  · exact fun hform => hform.2 h

/-- There is an error for every segment without a JSON form. -/
theorem exists_formless (h : ¬ s.HasForm) : ∃ e, s.Formless e := by
  rcases not_and_or.mp h with hfinite | hutf8
  · rcases not_not.mp hfinite with ⟨x, hget, hx⟩ | ⟨x, hget, hx⟩
    · exact ⟨_, .single hget hx⟩
    · exact ⟨_, .double hget hx⟩
  · exact ⟨_, .text (not_not.mp hutf8)⟩

theorem Formless.typed_eq (h : s.Formless e) : s.typed = .error e := by
  have hread : ∀ w : Value, s.get w.kind = .ok w → s.value = .ok w := fun w hget =>
    value_eq_ok_iff.mpr (get_eq_ok_iff.mp hget).2
  cases h with
  | @single x hget h =>
      rw [typed, hread (.float32 x) hget]
      exact if_neg (Bool.eq_false_iff.mp (Ieee.Binary.isFinite_eq_false_iff.mpr h))
  | @double x hget h =>
      rw [typed, hread (.float64 x) hget]
      exact if_neg (Bool.eq_false_iff.mp (Ieee.Binary.isFinite_eq_false_iff.mpr h))
  | text h => exact bind_pure_eq_error_iff.mp h.toJson_eq

/-- **A segment with a JSON form** has its value in it, and so does its canonical form. -/
theorem Fits.exists_typed (h : s.Fits) (hform : s.HasForm) :
    ∃ value, s.value = .ok value ∧ value.Finite ∧ s.typed = .ok (value.map Base64.encode) ∧
      s.canonical = ofValue value := by
  obtain ⟨value, hvalue, hfinite⟩ := h.finite_value hform.1 hform.2
  exact ⟨value, hvalue, hfinite, typed_eq hvalue hfinite,
    ((value_eq_ok_iff.mp hvalue).ofValue_eq h).symm⟩

/-- **Any other segment is refused** with its error. -/
theorem Fits.typed_eq_error_iff (h : s.Fits) : s.typed = .error e ↔ s.Formless e := by
  refine ⟨fun htyped => ?_, Formless.typed_eq⟩
  by_cases hform : s.HasForm
  · obtain ⟨value, -, -, hv, -⟩ := h.exists_typed hform
    cases htyped.symm.trans hv
  · obtain ⟨e', hformless⟩ := exists_formless hform
    cases htyped.symm.trans hformless.typed_eq
    exact hformless

theorem Fits.exists_typed_iff (h : s.Fits) : (∃ v, s.typed = .ok v) ↔ s.HasForm := by
  constructor
  · rintro ⟨v, htyped⟩
    by_contra hform
    obtain ⟨e, hformless⟩ := exists_formless hform
    cases htyped.symm.trans hformless.typed_eq
  · intro hform
    obtain ⟨value, -, -, hv, -⟩ := h.exists_typed hform
    exact ⟨_, hv⟩

end Segment

-- ── Messages and documents ───────────────────────────────────────────────────────

namespace Message

variable {m : Message} {t : TypedMessage} {e : WireError} {pair : String × Field}

/-- The typed form of one attachment. -/
def typedPair (pair : String × Field) : Except WireError (String × TypedValue) := do
  return (pair.1, ← pair.2.segment.typed)

theorem typedPair_eq_ok_iff {attachment : String × TypedValue} : typedPair pair = .ok attachment ↔
    attachment.1 = pair.1 ∧ pair.2.segment.typed = .ok attachment.2 := by
  rw [typedPair, bind_eq_ok_iff]
  constructor
  · rintro ⟨v, hv, ⟨⟩⟩
    exact ⟨rfl, hv⟩
  · rintro ⟨hname, hv⟩
    exact ⟨attachment.2, hv, by rw [← hname]; rfl⟩

theorem exists_typedPair_iff (h : pair.2.segment.Fits) :
    (∃ attachment, typedPair pair = .ok attachment) ↔ pair.2.segment.HasForm := by
  rw [← h.exists_typed_iff]
  constructor
  · rintro ⟨attachment, hpair⟩
    exact ⟨attachment.2, (typedPair_eq_ok_iff.mp hpair).2⟩
  · rintro ⟨v, hv⟩
    exact ⟨(pair.1, v), typedPair_eq_ok_iff.mpr ⟨rfl, hv⟩⟩

/-- The typed form of a message has its command, and its attachments in order. -/
theorem typed_eq_ok_iff : m.typed = .ok t ↔ t.command = m.command ∧
    List.Forall₂ (fun pair attachment => typedPair pair = .ok attachment)
      m.attachments.entries.toList t.attachments := by
  refine bind_eq_ok_iff.trans ?_
  constructor
  · rintro ⟨attachments, hattachments, ⟨⟩⟩
    exact ⟨rfl, mapM_eq_ok_iff.mp hattachments⟩
  · rintro ⟨hcommand, hattachments⟩
    exact ⟨t.attachments, mapM_eq_ok_iff.mpr hattachments, by rw [← hcommand]; rfl⟩

/-- **The first attachment without a JSON form** is what a message is refused for. -/
theorem typed_eq_error_iff (h : m.attachments.Sound) : m.typed = .error e ↔
    ∃ front pair back, m.attachments.entries.toList = front ++ pair :: back ∧
      (∀ earlier ∈ front, earlier.2.segment.HasForm) ∧ pair.2.segment.Formless e := by
  have hpairs := h.values_fit
  have hloop : m.typed = .error e ↔ m.attachments.entries.toList.mapM typedPair = .error e :=
    bind_pure_eq_error_iff
  rw [hloop, mapM_eq_error_iff]
  refine exists_congr fun front => exists_congr fun pair => exists_congr fun back =>
    and_congr_right fun hsplit => ?_
  rw [hsplit, List.forall_mem_append, List.forall_mem_cons] at hpairs
  obtain ⟨hfront, hpair, -⟩ := hpairs
  refine and_congr (forall₂_congr fun earlier hmem => exists_typedPair_iff (hfront earlier hmem)) ?_
  exact bind_pure_eq_error_iff.trans hpair.typed_eq_error_iff

end Message

/-- **The first member without a JSON form** is what a document is refused for. -/
theorem Document.typed_eq_error_iff {d : Document} {e : WireError} (h : d.Sound) :
    d.typed = .error e ↔ ∃ front s back, d.members.toList = front ++ s :: back ∧
      (∀ earlier ∈ front, earlier.HasForm) ∧ s.Formless e := by
  have hmembers := h.members_fit
  rw [typed, mapM_eq_error_iff]
  refine exists_congr fun front => exists_congr fun s => exists_congr fun back =>
    and_congr_right fun hsplit => ?_
  rw [hsplit, List.forall_mem_append, List.forall_mem_cons] at hmembers
  obtain ⟨hfront, hs, -⟩ := hmembers
  exact and_congr (forall₂_congr fun earlier hmem => (hfront earlier hmem).exists_typed_iff)
    hs.typed_eq_error_iff

end SegmentWire

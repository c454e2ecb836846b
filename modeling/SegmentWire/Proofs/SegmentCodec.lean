import SegmentWire.Segment.Wire
import SegmentWire.Proofs.Reading
import SegmentWire.Proofs.Writing

/-!
# The segment codec

A segment has one encoding: the byte of its tag, the size field that the tag's layout puts in
front of the payload, and the payload. The writer puts that and the reader takes nothing else, so
reading and writing are inverse to each other on all well-formed segments.

* **`Segment.encoding`** — the bytes of a segment.
* **`Segment.Fits`** — what is checked of a payload when a segment is made of its parts:
  **`ofParts_eq_ok_iff`**.
* **`Fits.write_eq_put`**, **`Fits.flatten_eq`** — such a segment is written as its encoding, and
  **`Fits.length_encoding`** says how long that is.
* **`readSegment_decodes`** — a reader finds a segment exactly where the encoding of one stands
  that is well formed and within the limits.
* **`segment_codec_exact`** — both together, for one segment and for runs of them.
-/

namespace SegmentWire

/-- The size field in front of a payload of a given length. -/
def Layout.sizeField : Layout → Nat → Bytes
  | .fixed _, _ => []
  | .sized field, length => bigEndian field length

namespace Segment

/-- The bytes of a segment on the wire. -/
def encoding (s : Segment) : Bytes :=
  s.tag.code :: (s.tag.layout.sizeField s.payload.length ++ s.payload)

/-- The payload has the width that the tag fixes, or, in the regular size class, at most 65535 bytes. In
    the other size class it has any length, even one that eight bytes cannot state: only that is also
    required of a well-formed segment. -/
structure Fits (s : Segment) : Prop where
  width : ∀ width, s.tag.fixedWidth = some width → s.payload.length = width
  regular : s.tag = .string ∨ s.tag = .binary → s.payload.length ≤ maxRegular

/-- A payload whose length stands in a size field is not longer than the limits allow. Payloads of
    a fixed width are not held against the limits. -/
def Within (limits : Limits) (s : Segment) : Prop :=
  s.tag.isVariable = true → s.payload.length ≤ limits.payload

/-- What a reader accepts as a segment. -/
structure Admitted (limits : Limits) (s : Segment) : Prop where
  wellFormed : s.WellFormed
  within : s.Within limits

end Segment

-- ── Tags and layouts ─────────────────────────────────────────────────────────────

/-- A tag is named by its own byte only. -/
theorem Tag.ofCode_eq_ok_iff {code : UInt8} {tag : Tag} :
    Tag.ofCode code = .ok tag ↔ code = tag.code := by
  constructor
  · intro h
    rw [Tag.ofCode] at h
    cases hcode : Tag.ofCode? code with
    | none => rw [hcode] at h; cases h
    | some found =>
        rw [hcode] at h
        cases h
        rw [Tag.ofCode?] at hcode
        split at hcode <;> cases hcode <;> exact UInt8.toNat_inj.mp ‹_›
  · rintro rfl
    rw [Tag.ofCode, Tag.ofCode?_code]

theorem Tag.fixedWidth_eq_some_iff {tag : Tag} {width : Nat} :
    tag.fixedWidth = some width ↔ tag.layout = .fixed width := by
  rw [Tag.fixedWidth]
  cases tag.layout with
  | fixed width' => simp
  | sized field => simp

/-- A size field of two bytes is that of the regular strings and binaries. -/
theorem Tag.layout_eq_sized_two_iff {tag : Tag} :
    tag.layout = .sized 2 ↔ tag = .string ∨ tag = .binary := by
  cases tag <;> simp [Tag.layout]

/-- No fixed width is greater than eight bytes, and there are two size fields. -/
theorem Tag.layout_cases (tag : Tag) :
    (∃ width ≤ 8, tag.layout = .fixed width) ∨ tag.layout = .sized 2 ∨ tag.layout = .sized 8 := by
  cases tag <;> simp [Tag.layout]

/-- A tag has a variable layout exactly when it has a size field. -/
theorem Tag.isVariable_eq_true_iff {tag : Tag} :
    tag.isVariable = true ↔ ∃ field, tag.layout = .sized field := by
  rw [Tag.isVariable, Tag.fixedWidth]
  cases hlayout : tag.layout with
  | fixed width => simp
  | sized field => simp

theorem Tag.not_isVariable_of_fixed {tag : Tag} {width : Nat} (h : tag.layout = .fixed width) :
    ¬ tag.isVariable = true := by
  intro hvariable
  obtain ⟨field, hsized⟩ := Tag.isVariable_eq_true_iff.mp hvariable
  rw [h] at hsized
  cases hsized

/-- What a size field can state is a word. -/
theorem Tag.le_maxWord_of_allows {tag : Tag} {length : Nat} (hvariable : tag.isVariable = true)
    (hallows : tag.layout.Allows length) : length ≤ maxWord := by
  obtain ⟨field, hlayout⟩ := Tag.isVariable_eq_true_iff.mp hvariable
  rw [hlayout] at hallows
  -- no size field is wider than a word
  have hfield : field ≤ 8 := by cases tag <;> cases hlayout <;> decide
  calc length ≤ 256 ^ field - 1 := Nat.le_sub_one_of_lt hallows
    _ ≤ 256 ^ 8 - 1 := Nat.sub_le_sub_right (Nat.pow_le_pow_right (by decide) hfield) 1
    _ = maxWord := by decide

namespace Segment

/-- A payload is well formed if it has the width that the tag fixes, or a length that the size
    field of its class can state. -/
theorem wellFormed_iff (s : Segment) :
    s.WellFormed ↔ s.tag.fixedWidth = some s.payload.length ∨
      (s.tag = .string ∨ s.tag = .binary) ∧ s.payload.length ≤ maxRegular ∨
      (s.tag = .hugeString ∨ s.tag = .hugeBinary) ∧ s.payload.length ≤ maxWord := by
  obtain ⟨tag, payload⟩ := s
  cases tag <;> simp [WellFormed, Layout.Allows, Tag.layout, Tag.fixedWidth, maxRegular, maxWord,
    eq_comm, Nat.lt_succ_iff]

/-- What a size field can state, the unbounded limits allow. -/
theorem WellFormed.within_unbounded {s : Segment} (h : s.WellFormed) : s.Within .unbounded :=
  fun hvariable => Tag.le_maxWord_of_allows hvariable h

/-- Without limits, a reader accepts every well-formed segment. -/
theorem admitted_unbounded_iff {s : Segment} : s.Admitted .unbounded ↔ s.WellFormed :=
  ⟨Admitted.wellFormed, fun h => ⟨h, h.within_unbounded⟩⟩

/-- A payload of the width that its tag fixes is accepted within all limits. -/
theorem admitted_of_fixed {s : Segment} {width : Nat} (hlayout : s.tag.layout = .fixed width)
    (hlength : s.payload.length = width) (limits : Limits) : s.Admitted limits := by
  constructor
  · show s.tag.layout.Allows s.payload.length
    rw [hlayout]
    exact hlength
  · intro hvariable
    exact absurd hvariable (Tag.not_isVariable_of_fixed hlayout)

/-- Parts are never changed when they are put together. -/
theorem eq_of_ofParts {tag : Tag} {payload : Bytes} {s : Segment}
    (h : ofParts tag payload = .ok s) : s = ⟨tag, payload⟩ := by
  rw [ofParts] at h
  split at h <;> split at h <;> cases h <;> rfl

-- ── Payloads that fit ────────────────────────────────────────────────────────────

section Fits

variable {s : Segment}

theorem Fits.length_eq (h : s.Fits) {width : Nat} (hlayout : s.tag.layout = .fixed width) :
    s.payload.length = width :=
  h.width width (Tag.fixedWidth_eq_some_iff.mpr hlayout)

theorem Fits.not_long (h : s.Fits) {field : Nat} (hlayout : s.tag.layout = .sized field) :
    ¬ (field = 2 ∧ maxRegular < s.payload.length) := by
  rintro ⟨rfl, hlong⟩
  have hregular := h.regular (Tag.layout_eq_sized_two_iff.mp hlayout)
  omega

theorem fits_of_fixed {tag : Tag} {payload : Bytes} {width : Nat} (hlayout : tag.layout = .fixed width)
    (hlength : payload.length = width) : Fits ⟨tag, payload⟩ := by
  constructor
  · intro width' hwidth
    rw [Tag.fixedWidth_eq_some_iff, hlayout] at hwidth
    cases hwidth
    exact hlength
  · intro htag
    rw [← Tag.layout_eq_sized_two_iff, hlayout] at htag
    cases htag

theorem fits_of_sized {tag : Tag} {payload : Bytes} {field : Nat} (hlayout : tag.layout = .sized field)
    (hlength : field = 2 → payload.length ≤ maxRegular) : Fits ⟨tag, payload⟩ := by
  constructor
  · intro width hwidth
    rw [Tag.fixedWidth_eq_some_iff, hlayout] at hwidth
    cases hwidth
  · intro htag
    rw [← Tag.layout_eq_sized_two_iff, hlayout] at htag
    cases htag
    exact hlength rfl

/-- A run of bytes fits the size class that is chosen by its length. -/
theorem fits_of_class {regular huge : Tag} (hregular : regular.layout = .sized 2)
    (hhuge : huge.layout = .sized 8) (payload : Bytes) :
    Fits ⟨if payload.length ≤ maxRegular then regular else huge, payload⟩ := by
  split
  · next hle => exact fits_of_sized hregular fun _ => hle
  · exact fits_of_sized hhuge fun h => absurd h (by decide)

/-- A well-formed segment is one that fits and is short enough for the greatest size field. -/
theorem wellFormed_iff_fits : s.WellFormed ↔ s.Fits ∧ s.payload.length ≤ maxWord := by
  constructor
  · intro h
    have hallows : s.tag.layout.Allows s.payload.length := h
    refine ⟨⟨?_, ?_⟩, ?_⟩
    · intro width hwidth
      rw [Tag.fixedWidth_eq_some_iff.mp hwidth] at hallows
      exact hallows
    · intro htag
      rw [Tag.layout_eq_sized_two_iff.mpr htag] at hallows
      exact Nat.le_of_lt_succ hallows
    · rcases s.tag.layout_cases with ⟨width, hle, hlayout⟩ | hlayout | hlayout
      · rw [hlayout] at hallows
        have hwidth : s.payload.length = width := hallows
        exact Nat.le_trans (by omega) (by decide : 8 ≤ maxWord)
      all_goals exact Tag.le_maxWord_of_allows (Tag.isVariable_eq_true_iff.mpr ⟨_, hlayout⟩) h
  · rintro ⟨h, hword⟩
    show s.tag.layout.Allows s.payload.length
    rcases s.tag.layout_cases with ⟨width, -, hlayout⟩ | hlayout | hlayout <;> rw [hlayout]
    · exact h.length_eq hlayout
    · exact Nat.lt_succ_of_le (h.regular (Tag.layout_eq_sized_two_iff.mp hlayout))
    · exact Nat.lt_succ_of_le hword

theorem WellFormed.fits (h : s.WellFormed) : s.Fits := (wellFormed_iff_fits.mp h).1

theorem Fits.ofParts_eq (h : s.Fits) : ofParts s.tag s.payload = .ok s := by
  rw [ofParts, Tag.fixedWidth, Tag.sizeFieldWidth]
  cases hlayout : s.tag.layout with
  | fixed width => exact if_pos (h.length_eq hlayout)
  | sized field => exact if_neg (h.not_long hlayout)

/-- **Parts make a segment exactly if the payload fits the tag**, and then they make it as they are. -/
theorem ofParts_eq_ok_iff {tag : Tag} {payload : Bytes} :
    ofParts tag payload = .ok s ↔ s = ⟨tag, payload⟩ ∧ s.Fits := by
  constructor
  · intro h
    obtain rfl := eq_of_ofParts h
    refine ⟨rfl, ?_, ?_⟩
    · intro width hwidth
      by_contra hne
      rw [ofParts, show tag.fixedWidth = some width from hwidth] at h
      simp only [if_neg hne] at h
      cases h
    · rintro (rfl | rfl)
      all_goals
        by_contra hlong
        have hrefused : 2 = 2 ∧ maxRegular < payload.length := ⟨rfl, Nat.not_le.mp hlong⟩
        exact nomatch (if_pos hrefused).symm.trans h
  · rintro ⟨rfl, h⟩
    exact h.ofParts_eq

end Fits

/-- Well-formed parts make a segment. -/
theorem WellFormed.ofParts_eq {s : Segment} (h : s.WellFormed) :
    ofParts s.tag s.payload = .ok s :=
  h.fits.ofParts_eq

-- ── Writing ──────────────────────────────────────────────────────────────────────

/-- **A segment whose payload fits is written as its encoding**, to every sink. -/
theorem Fits.write_eq_put {s : Segment} (h : s.Fits) : s.write = Sink.put s.encoding := by
  rw [write, writeSegment, encoding]
  cases hlayout : s.tag.layout with
  | fixed width =>
      show (if s.payload.length = width then _ else _) = _
      rw [if_pos (h.length_eq hlayout), Sink.put_bind_put]
      rfl
  | sized field =>
      show (if field = 2 ∧ maxRegular < s.payload.length then _ else _) = _
      rw [if_neg (h.not_long hlayout), Sink.put_bind_put, Sink.put_bind_put]
      rfl

theorem Fits.flatten_eq {s : Segment} (h : s.Fits) : s.flatten = .ok s.encoding := by
  rw [flatten, h.write_eq_put, Writer.bytes_put]

/-- The encoding is as long as the size says. -/
theorem Fits.length_encoding {s : Segment} (h : s.Fits) : s.encoding.length = s.size := by
  rw [encoding, size, Tag.fixedWidth, Tag.sizeFieldWidth, List.length_cons, List.length_append]
  cases hlayout : s.tag.layout with
  | fixed width =>
      have hwidth := h.length_eq hlayout
      show 0 + s.payload.length + 1 = 1 + width
      omega
  | sized field =>
      show (bigEndian field s.payload.length).length + s.payload.length + 1
        = 1 + field + s.payload.length
      rw [length_bigEndian]
      omega

/-- A run of segments whose payloads fit is written as their encodings, one after the other. -/
theorem forM_write_eq_put_of_fits {ss : List Segment} (h : ∀ s ∈ ss, s.Fits) :
    ss.forM write = Sink.put (ss.flatMap encoding) :=
  Writer.forM_eq_put fun s hs => (h s hs).write_eq_put

/-- **A well-formed segment is written as its encoding**, to every sink. -/
theorem WellFormed.write_eq_put {s : Segment} (h : s.WellFormed) :
    s.write = Sink.put s.encoding :=
  h.fits.write_eq_put

/-- The bytes of a well-formed segment are its encoding. -/
theorem WellFormed.flatten_eq {s : Segment} (h : s.WellFormed) :
    s.flatten = .ok s.encoding :=
  h.fits.flatten_eq

/-- The encoding of a well-formed segment is as long as its size says. -/
theorem WellFormed.length_encoding {s : Segment} (h : s.WellFormed) :
    s.encoding.length = s.size :=
  h.fits.length_encoding

/-- A run of well-formed segments is written as their encodings, one after the other. -/
theorem forM_write_eq_put {ss : List Segment} (h : ∀ s ∈ ss, s.WellFormed) :
    ss.forM write = Sink.put (ss.flatMap encoding) :=
  forM_write_eq_put_of_fits fun s hs => (h s hs).fits

end Segment

-- ── Reading ──────────────────────────────────────────────────────────────────────

/-- A reader finds a tag exactly where its byte stands. -/
theorem readTag_decodes (limits : Limits) :
    readTag.Decodes limits (fun tag e => e = [tag.code]) := by
  refine ((Reader.decodes_number 1).bind fun code => Reader.decodes_lift _).congr
    fun tag e => ?_
  constructor
  · rintro ⟨code, e₁, e₂, ⟨-, rfl⟩, ⟨htag, rfl⟩, rfl⟩
    rw [List.append_nil, ← Tag.ofCode_eq_ok_iff.mp htag]
    rfl
  · rintro rfl
    have hcode : UInt8.ofNat tag.code.toNat = tag.code := UInt8.ofNat_toNat
    refine ⟨tag.code.toNat, [tag.code], [], ⟨tag.code.toNat_lt, ?_⟩, ⟨?_, rfl⟩, rfl⟩
    · show [tag.code] = [UInt8.ofNat tag.code.toNat]
      rw [hcode]
    · rw [hcode]
      exact Tag.ofCode_eq_ok_iff.mpr rfl

/-- A reader finds a payload length that the tag and the limits allow exactly where the size field
    states it. -/
theorem readLength_decodes (limits : Limits) (tag : Tag) :
    (readLength tag).Decodes limits (fun length e => tag.layout.Allows length ∧
      (tag.isVariable = true → length ≤ limits.payload) ∧ e = tag.layout.sizeField length) := by
  rw [readLength]
  cases hlayout : tag.layout with
  | fixed width =>
      refine (Reader.decodes_pure width).congr fun length e => ?_
      constructor
      · rintro ⟨rfl, rfl⟩
        exact ⟨rfl, fun hvariable => absurd hvariable (Tag.not_isVariable_of_fixed hlayout), rfl⟩
      · rintro ⟨rfl, -, rfl⟩
        exact ⟨rfl, rfl⟩
  | sized field =>
      have hvariable : tag.isVariable = true := Tag.isVariable_eq_true_iff.mpr ⟨field, hlayout⟩
      refine ((Reader.decodes_number field).bind fun length => Reader.decodes_limits.bind
        fun bounds => Reader.Decodes.unless fun _ => Reader.decodes_pure length).congr
        fun length e => ?_
      constructor
      · rintro ⟨size, e₁, e₂, ⟨hlt, rfl⟩, ⟨bounds, e₃, e₄, ⟨rfl, rfl⟩, ⟨hle, rfl, rfl⟩, rfl⟩, rfl⟩
        exact ⟨hlt, fun _ => Nat.not_lt.mp hle, by rw [List.nil_append, List.append_nil]; rfl⟩
      · rintro ⟨hlt, hle, rfl⟩
        exact ⟨length, bigEndian field length, [], ⟨hlt, rfl⟩,
          ⟨limits, [], [], ⟨rfl, rfl⟩, ⟨Nat.not_lt.mpr (hle hvariable), rfl, rfl⟩, rfl⟩,
          (List.append_nil _).symm⟩

/-- **A reader finds a segment exactly where its encoding stands**, if the segment is well formed
    and within the limits. -/
theorem readSegment_decodes (limits : Limits) :
    readSegment.Decodes limits (fun s e => s.Admitted limits ∧ e = s.encoding) := by
  refine ((readTag_decodes limits).bind fun tag => (readLength_decodes limits tag).bind
    fun length => (Reader.decodes_exactly length).bind fun payload =>
      Reader.decodes_lift _).congr fun s e => ?_
  constructor
  · rintro ⟨tag, e₁, e₂, rfl, ⟨length, e₃, e₄, ⟨hallows, hle, rfl⟩,
      ⟨payload, e₅, e₆, ⟨rfl, rfl⟩, ⟨hparts, rfl⟩, rfl⟩, rfl⟩, rfl⟩
    obtain rfl := Segment.eq_of_ofParts hparts
    exact ⟨⟨hallows, hle⟩, by rw [List.append_nil]; rfl⟩
  · rintro ⟨⟨hwf, hwithin⟩, rfl⟩
    -- the parts are checked once more when they are put together, and then pass
    exact ⟨s.tag, [s.tag.code], _, rfl, ⟨s.payload.length, _, _, ⟨hwf, hwithin, rfl⟩,
      ⟨s.payload, s.payload, [], ⟨rfl, rfl⟩, ⟨hwf.ofParts_eq, rfl⟩,
        (List.append_nil s.payload).symm⟩, rfl⟩, rfl⟩

/-- A reader finds a field exactly where the encoding of its segment stands. -/
theorem readField_decodes (limits : Limits) :
    readField.Decodes limits
      (fun f e => f.segment.Admitted limits ∧ e = f.segment.encoding) := by
  refine ((readSegment_decodes limits).bind fun s => Reader.decodes_lift _).congr fun f e => ?_
  constructor
  · rintro ⟨s, e₁, e₂, ⟨hadmitted, rfl⟩, ⟨hfield, rfl⟩, rfl⟩
    rw [Field.ofSegment] at hfield
    split at hfield
    · cases hfield
      exact ⟨hadmitted, List.append_nil _⟩
    · cases hfield
  · rintro ⟨hadmitted, rfl⟩
    exact ⟨f.segment, f.segment.encoding, [], ⟨hadmitted, rfl⟩, ⟨dif_pos f.plain, rfl⟩,
      (List.append_nil _).symm⟩

-- ── Runs of segments ─────────────────────────────────────────────────────────────

/-- **Runs of segments delimit themselves.** Different runs of well-formed segments never
    concatenate to the same bytes. The induction takes off one segment at a time: equal bytes
    begin with equal segments and go on equally. -/
theorem Segment.eq_of_flatMap_encoding_eq {ss ts : List Segment} (hs : ∀ s ∈ ss, s.WellFormed)
    (ht : ∀ t ∈ ts, t.WellFormed) (h : ss.flatMap encoding = ts.flatMap encoding) : ss = ts := by
  induction ss generalizing ts with
  | nil =>
      cases ts with
      | nil => rfl
      | cons t ts => exact absurd h.symm (List.cons_ne_nil _ _)
  | cons s ss ih =>
      cases ts with
      | nil => exact absurd h (List.cons_ne_nil _ _)
      | cons t ts =>
          have hadmitted : ∀ {u : Segment}, u.WellFormed → u.Admitted .unbounded :=
            admitted_unbounded_iff.mpr
          obtain ⟨rfl, hrest⟩ := (readSegment_decodes .unbounded).unambiguous
            ⟨hadmitted (hs s List.mem_cons_self), rfl⟩
            ⟨hadmitted (ht t List.mem_cons_self), rfl⟩ h
          rw [ih (fun u hu => hs u (List.mem_cons_of_mem s hu))
            (fun u hu => ht u (List.mem_cons_of_mem s hu)) hrest]

-- ── The codec as a whole ─────────────────────────────────────────────────────────

/-- Without limits, a well-formed segment stands for its own bytes and no others. -/
theorem readSegment_decodes_flatten :
    readSegment.Decodes .unbounded (fun s e => s.WellFormed ∧ s.flatten = .ok e) := by
  refine (readSegment_decodes .unbounded).congr fun s e => ?_
  rw [Segment.admitted_unbounded_iff]
  refine and_congr_right fun hwf => ?_
  rw [hwf.flatten_eq, Except.ok.injEq]
  exact eq_comm

/-- **The segment codec is exactly invertible, and segments delimit themselves.** A segment is well
    formed if its payload has the width that its tag fixes, or a length that the size field of its
    class can state. From any source a segment is read exactly if it is well formed and its bytes
    are pending; so reading undoes writing whatever follows, and writing undoes reading on all that
    is accepted, payloads included that are empty in a huge class, booleans other than zero and
    one, and text that is not UTF-8. Different runs of segments never have the same bytes. -/
theorem segment_codec_exact :
    (∀ s : Segment, s.WellFormed ↔
      s.tag.fixedWidth = some s.payload.length ∨
      (s.tag = .string ∨ s.tag = .binary) ∧ s.payload.length ≤ maxRegular ∨
      (s.tag = .hugeString ∨ s.tag = .hugeBinary) ∧ s.payload.length ≤ maxWord) ∧
    (∀ (source : Source) (s : Segment) (left : Bytes),
      readSegment.Finds .unbounded source s left ↔
        s.WellFormed ∧ ∃ e, s.flatten = .ok e ∧ source.pending = e ++ left) ∧
    (∀ s : Segment, s.WellFormed →
      ∃ e, s.flatten = .ok e ∧ ∀ left, Segment.unflatten (e ++ left) = .ok s) ∧
    (∀ (bytes : Bytes) (s : Segment), Segment.unflatten bytes = .ok s →
      ∃ e, s.flatten = .ok e ∧ e <+: bytes) ∧
    ∀ ss ts : List Segment, (∀ s ∈ ss, s.WellFormed) → (∀ t ∈ ts, t.WellFormed) →
      (ss.forM Segment.write).bytes = (ts.forM Segment.write).bytes → ss = ts := by
  have hread := readSegment_decodes_flatten
  refine ⟨Segment.wellFormed_iff, hread.finds_iff_flatten, ?_, ?_, ?_⟩
  · intro s hwf
    refine ⟨s.encoding, hwf.flatten_eq, fun left => ?_⟩
    exact (hread.ofBytes_iff_flatten _ s).mpr
      ⟨hwf, s.encoding, hwf.flatten_eq, List.prefix_append _ _⟩
  · intro bytes s hs
    exact ((hread.ofBytes_iff_flatten bytes s).mp hs).2
  · intro ss ts hs ht hbytes
    rw [Segment.forM_write_eq_put hs, Segment.forM_write_eq_put ht, Writer.bytes_put,
      Writer.bytes_put] at hbytes
    exact Segment.eq_of_flatMap_encoding_eq hs ht (Except.ok.inj hbytes)

example : Segment.unflatten [16, 0, 0, 0, 0, 0, 0, 0, 1, 0xFF, 14] = .ok ⟨.hugeString, [0xFF]⟩ := by
  decide

end SegmentWire

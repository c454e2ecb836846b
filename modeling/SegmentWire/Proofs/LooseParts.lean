import SegmentWire.Proofs.ScanCounts
import SegmentWire.Proofs.Sizes

/-!
# Loose parts

A tag and a payload are put together to a segment, written as they are, flattened to a buffer, or asked
for their length only. Each of these looks at the tag in its own way, and none of them asks another one;
all of them come to one rule about the length of the payload.

* **`Tag.expectedLength`** — what the length of a refused payload is held against.
* **`Segment.refused_of_not_fits`** — what is wrong with a payload that does not fit its tag.
* **`Segment.ofParts_eq_error_iff`**, **`writeSegment_eq_ok_iff`**, **`writeSegment_of_not_fits`**,
  **`flattenSegment_eq_ok_iff`** — the rule, once for each of them.
* **`loose_parts_agree`** — all of them together, with the reader and the scan of what is written.
-/

namespace SegmentWire

/-- The length that a refused payload was expected to have, or not to exceed: the width that the tag
    fixes, or the greatest length of the regular size class. -/
def Tag.expectedLength (tag : Tag) : Nat := tag.fixedWidth.getD maxRegular

variable {tag : Tag} {payload : Bytes}

-- ── Putting together ─────────────────────────────────────────────────────────────

namespace Segment

/-- A payload does not fit for one of two reasons: another width than the tag fixes, or too great a
    length for the regular size class. -/
theorem refused_of_not_fits (h : ¬ Fits ⟨tag, payload⟩) :
    (∃ width, tag.layout = .fixed width ∧ payload.length ≠ width) ∨
      tag.layout = .sized 2 ∧ maxRegular < payload.length := by
  cases hlayout : tag.layout with
  | fixed width => exact Or.inl ⟨width, rfl, fun hlength => h (fits_of_fixed hlayout hlength)⟩
  | sized field =>
      have hlong : field = 2 ∧ maxRegular < payload.length := by
        by_contra hshort
        exact h (fits_of_sized hlayout fun hfield => Nat.not_lt.mp fun hlt => hshort ⟨hfield, hlt⟩)
      obtain ⟨rfl, hlt⟩ := hlong
      exact Or.inr ⟨rfl, hlt⟩

/-- Parts that make no segment are refused for the length of the payload. -/
theorem ofParts_eq_error_iff {e : WireError} :
    ofParts tag payload = .error e ↔
      ¬ Fits ⟨tag, payload⟩ ∧ e = .sizeMismatch tag.expectedLength payload.length := by
  by_cases hfits : Fits ⟨tag, payload⟩
  · rw [show ofParts tag payload = _ from hfits.ofParts_eq]
    exact iff_of_false nofun fun h => h.1 hfits
  · have hrefused : ofParts tag payload =
        .error (.sizeMismatch tag.expectedLength payload.length) := by
      rw [ofParts, Tag.expectedLength, Tag.fixedWidth, Tag.sizeFieldWidth]
      rcases refused_of_not_fits hfits with ⟨width, hlayout, hwidth⟩ | ⟨hlayout, hlong⟩
      · rw [hlayout]
        exact if_neg hwidth
      · rw [hlayout]
        exact if_pos ⟨rfl, hlong⟩
    rw [hrefused, Except.error.injEq, and_iff_right hfits]
    exact eq_comm

theorem length_payload_le (s : Segment) : s.payload.length ≤ s.encoding.length := by
  rw [encoding, List.length_cons, List.length_append]
  omega

/-- A scan of one segment with a payload comes to one. -/
theorem WellFormed.countSegments_encoding {s : Segment} (h : s.WellFormed)
    (hpayload : s.payload ≠ []) : countSegments s.encoding = .ok 1 := by
  have hscan := scansAs_encodings (List.forall_mem_singleton.mpr h)
  rw [List.flatMap_singleton] at hscan
  exact hscan.1 (List.forall_mem_singleton.mpr hpayload)

end Segment

-- ── Writing ──────────────────────────────────────────────────────────────────────

namespace Writer

variable {action : Writer Unit}

theorem bytes_eq_ok_iff {e : Bytes} : action.bytes = .ok e ↔ action.runCapped none = (.ok (), e) := by
  rw [bytes]
  rcases action.runCapped none with ⟨_ | _, taken⟩
  · exact iff_of_false nofun nofun
  · rw [Except.ok.injEq, Prod.mk.injEq, and_iff_right rfl]

theorem bytes_eq_error_iff {e : WireError} :
    action.bytes = .error e ↔ (action.runCapped none).1 = .error e := by
  rw [bytes]
  rcases action.runCapped none with ⟨_ | _, taken⟩
  · rw [Except.error.injEq, Except.error.injEq]
  · exact iff_of_false nofun nofun

end Writer

/-- Where the payload does not fit, the writer throws before its first write. -/
theorem writeSegment_of_not_fits (h : ¬ Segment.Fits ⟨tag, payload⟩) :
    writeSegment tag payload = throw (.sizeMismatch tag.expectedLength payload.length) := by
  rw [writeSegment, Tag.expectedLength, Tag.fixedWidth]
  rcases Segment.refused_of_not_fits h with ⟨width, hlayout, hwidth⟩ | ⟨hlayout, hlong⟩
  · rw [hlayout]
    exact if_neg hwidth
  · rw [hlayout]
    exact if_pos ⟨rfl, hlong⟩

/-- Parts are written to a sink without a limit exactly if the payload fits, and then as the encoding
    of the segment that they make. -/
theorem writeSegment_eq_ok_iff {e : Bytes} :
    (writeSegment tag payload).runCapped none = (.ok (), e) ↔
      Segment.Fits ⟨tag, payload⟩ ∧ e = Segment.encoding ⟨tag, payload⟩ := by
  by_cases hfits : Segment.Fits ⟨tag, payload⟩
  · have hflatten : (writeSegment tag payload).bytes = _ := hfits.flatten_eq
    rw [← Writer.bytes_eq_ok_iff, hflatten, Except.ok.injEq, and_iff_right hfits]
    exact eq_comm
  · rw [writeSegment_of_not_fits hfits]
    exact iff_of_false nofun fun h => hfits h.1

-- ── Flattening ───────────────────────────────────────────────────────────────────

theorem flattenSegment_of_nil (h : payload = []) (tag : Tag) :
    flattenSegment tag payload = .error (.emptyPayload tag) := by
  rw [flattenSegment, if_pos (List.isEmpty_iff.mpr h)]

/-- Apart from empty payloads, flattening is writing. -/
theorem flattenSegment_of_ne_nil (h : payload ≠ []) (tag : Tag) :
    flattenSegment tag payload = (writeSegment tag payload).bytes := by
  rw [flattenSegment, if_neg (mt List.isEmpty_iff.mp h)]

theorem flattenSegment_eq_ok_iff {e : Bytes} :
    flattenSegment tag payload = .ok e ↔
      payload ≠ [] ∧ Segment.Fits ⟨tag, payload⟩ ∧ e = Segment.encoding ⟨tag, payload⟩ := by
  by_cases hempty : payload = []
  · rw [flattenSegment_of_nil hempty]
    exact iff_of_false nofun fun h => h.1 hempty
  · rw [flattenSegment_of_ne_nil hempty, Writer.bytes_eq_ok_iff, writeSegment_eq_ok_iff,
      and_iff_right hempty]

/-- A scan by offset of a buffer comes to as many segments as the plain scan. -/
theorem scanWords_of_countSegments {bytes : Bytes} (hsize : bytes.length ≤ maxWord) {n : UInt64}
    (h : countSegments bytes = .ok n.toNat) : scanWords bytes.toArray = some (.ok n) := by
  obtain ⟨outcome, hscan, hmap⟩ := scanWords_eq bytes hsize
  rw [h] at hmap
  cases outcome with
  | error e => cases hmap
  | ok word => rw [hscan, UInt64.toNat_inj.mp (Except.ok.inj hmap)]

-- ── All together ─────────────────────────────────────────────────────────────────

/-- **One rule for loose parts.** A tag and a payload are written to a sink without a limit exactly if
    they make a segment. Then what is written are the bytes of the segment, as many as are foretold for
    the parts and as the segment says, and they are read back as the segment, whatever follows. If not, a
    payload of another length than expected is reported in both cases, with both lengths, and no sink has
    taken anything. Flattening refuses every empty payload, and gives otherwise the bytes or the failure
    of writing; what it gives is counted as one segment. That a payload is read back and counted is
    said where its length is a word, as it is stated on the wire. -/
theorem loose_parts_agree (tag : Tag) (payload : Bytes) :
    ((∃ s, Segment.ofParts tag payload = .ok s) ↔
      ∃ e, (writeSegment tag payload).runCapped none = (.ok (), e)) ∧
    (∀ s, Segment.ofParts tag payload = .ok s → s = ⟨tag, payload⟩ ∧ ∃ e, s.flatten = .ok e ∧
      (writeSegment tag payload).runCapped none = (.ok (), e) ∧
      e.length = encodedLength tag payload.length ∧ e.length = s.size ∧
      (payload.length ≤ maxWord → ∀ (source : Source) (left : Bytes),
        source.pending = e ++ left → readSegment.Finds .unbounded source s left)) ∧
    (∀ err, Segment.ofParts tag payload = .error err →
      err = .sizeMismatch tag.expectedLength payload.length ∧
      ∀ sink, writeSegment tag payload sink = (.error err, sink)) ∧
    (payload = [] → flattenSegment tag payload = .error (.emptyPayload tag)) ∧
    (payload ≠ [] →
      (∀ e, flattenSegment tag payload = .ok e ↔
        (writeSegment tag payload).runCapped none = (.ok (), e)) ∧
      ∀ err, flattenSegment tag payload = .error err ↔
        ((writeSegment tag payload).runCapped none).1 = .error err) ∧
    ∀ e, flattenSegment tag payload = .ok e →
      (payload.length ≤ maxWord → countSegments e = .ok 1) ∧
      (e.length ≤ maxWord → scanWords e.toArray = some (.ok 1)) := by
  refine ⟨?_, ?_, ?_, fun hempty => flattenSegment_of_nil hempty tag, ?_, ?_⟩
  · constructor
    · rintro ⟨s, hs⟩
      obtain ⟨rfl, hfits⟩ := Segment.ofParts_eq_ok_iff.mp hs
      exact ⟨_, writeSegment_eq_ok_iff.mpr ⟨hfits, rfl⟩⟩
    · rintro ⟨e, he⟩
      exact ⟨_, Segment.ofParts_eq_ok_iff.mpr ⟨rfl, (writeSegment_eq_ok_iff.mp he).1⟩⟩
  · intro s hs
    obtain ⟨rfl, hfits⟩ := Segment.ofParts_eq_ok_iff.mp hs
    have hlength := hfits.length_encoding
    refine ⟨rfl, _, hfits.flatten_eq, writeSegment_eq_ok_iff.mpr ⟨hfits, rfl⟩, ?_, hlength, ?_⟩
    · rw [hlength, Segment.size_eq_encodedLength]
    · intro hword source left hpending
      have hwellFormed := Segment.wellFormed_iff_fits.mpr ⟨hfits, hword⟩
      exact (readSegment_decodes .unbounded).finds
        ⟨Segment.admitted_unbounded_iff.mpr hwellFormed, rfl⟩ hpending
  · intro err herr
    obtain ⟨hfits, rfl⟩ := Segment.ofParts_eq_error_iff.mp herr
    refine ⟨rfl, fun sink => ?_⟩
    rw [writeSegment_of_not_fits hfits]
    rfl
  · intro hempty
    rw [flattenSegment_of_ne_nil hempty]
    exact ⟨fun e => Writer.bytes_eq_ok_iff, fun err => Writer.bytes_eq_error_iff⟩
  · intro e he
    obtain ⟨hempty, hfits, rfl⟩ := flattenSegment_eq_ok_iff.mp he
    have hcount : payload.length ≤ maxWord →
        countSegments (Segment.encoding ⟨tag, payload⟩) = .ok 1 := fun hword =>
      (Segment.wellFormed_iff_fits.mpr ⟨hfits, hword⟩).countSegments_encoding hempty
    refine ⟨hcount, fun hsize => scanWords_of_countSegments hsize ?_⟩
    exact hcount (Nat.le_trans (Segment.length_payload_le ⟨tag, payload⟩) hsize)

/-- Opaque bytes of one byte too many for the regular size class are refused alike, and no sink is
    asked. In the other class no bytes at all are written and read back, but not flattened. -/
theorem loose_parts_agree_class_boundary :
    let long : Bytes := .replicate 65536 0
    let e : Bytes := [17, 0, 0, 0, 0, 0, 0, 0, 0]
    Segment.ofParts .binary long = .error (.sizeMismatch 65535 65536) ∧
    (∀ sink, writeSegment .binary long sink = (.error (.sizeMismatch 65535 65536), sink)) ∧
    flattenSegment .hugeBinary [] = .error (.emptyPayload .hugeBinary) ∧
    (writeSegment .hugeBinary []).runCapped none = (.ok (), e) ∧
    (∀ (source : Source) (left : Bytes), source.pending = e ++ left →
      readSegment.Finds .unbounded source ⟨.hugeBinary, []⟩ left) ∧
    flattenSegment .bool [7] = .ok [11, 7] ∧ scanWords #[11, 7] = some (.ok 1) := by
  intro long e
  have hlength : long.length = 65536 := List.length_replicate
  have hlong : Segment.ofParts .binary long = .error (.sizeMismatch 65535 65536) := by
    refine Segment.ofParts_eq_error_iff.mpr ⟨fun hfits => ?_, by rw [hlength]; rfl⟩
    have hle : long.length ≤ maxRegular := hfits.regular (Or.inr rfl)
    rw [hlength] at hle
    exact absurd hle (by decide)
  have hbool : flattenSegment .bool [7] = .ok [11, 7] := by decide
  obtain ⟨-, -, hrefused, -⟩ := loose_parts_agree .binary long
  obtain ⟨-, hmade, -, hempty, -⟩ := loose_parts_agree .hugeBinary []
  obtain ⟨-, -, -, -, -, hcounted⟩ := loose_parts_agree .bool [7]
  obtain ⟨-, e', -, hwritten, -, -, hread⟩ := hmade _ rfl
  obtain rfl : e = e' := congrArg Prod.snd hwritten
  exact ⟨hlong, (hrefused _ hlong).2, hempty rfl, hwritten, hread (by decide), hbool,
    (hcounted _ hbool).2 (by decide)⟩

end SegmentWire

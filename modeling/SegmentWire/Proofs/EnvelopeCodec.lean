import SegmentWire.Envelope
import SegmentWire.Proofs.Payload
import SegmentWire.Proofs.SegmentCodec

/-!
# The markers of envelopes

An envelope begins with one fixed segment and ends with a segment that is fixed by a count. A
reader takes these two and no other, so that the frame adds no choice to what it encloses.

* **`startMarker`**, **`endMarker`** — the two segments.
* **`readStart_decodes`** — a reader finds the start of an envelope exactly where the start marker
  stands.
* **`checkEnd_eq_ok_iff`** — the one segment that passes for the end of an envelope.
-/

namespace SegmentWire

/-- The segment in front of every envelope. -/
def startMarker : Segment := .documentStart formatVersion

/-- The segment behind an envelope with a given count. -/
def endMarker (count : Nat) : Segment := ⟨.documentEnd, bigEndian 8 count⟩

theorem startMarker_admitted (limits : Limits) : startMarker.Admitted limits :=
  Segment.admitted_of_fixed (s := startMarker) rfl rfl limits

theorem endMarker_admitted (count : Nat) (limits : Limits) : (endMarker count).Admitted limits :=
  Segment.admitted_of_fixed (s := endMarker count) rfl (length_bigEndian 8 count) limits

-- ── Writing ──────────────────────────────────────────────────────────────────────

/-- The start of an envelope is written as the start marker. -/
theorem writeStart_eq_put : writeStart = Sink.put startMarker.encoding :=
  (startMarker_admitted .unbounded).wellFormed.write_eq_put

/-- The end of an envelope is written as the end marker of its count. -/
theorem writeEnd_eq_put (count : Nat) : writeEnd count = Sink.put (endMarker count).encoding :=
  (endMarker_admitted count .unbounded).wellFormed.write_eq_put

-- ── Reading ──────────────────────────────────────────────────────────────────────

/-- A reader finds the start of an envelope exactly where the start marker stands. -/
theorem readStart_decodes (limits : Limits) :
    readStart.Decodes limits (fun _ e => e = startMarker.encoding) := by
  refine ((readSegment_decodes limits).bind fun start => Reader.Decodes.unless fun _ =>
    (Reader.decodes_lift start.version).bind fun version => Reader.Decodes.unless fun _ =>
      Reader.decodes_pure ()).congr fun _ e => ?_
  constructor
  · rintro ⟨start, e₁, e₂, ⟨-, rfl⟩, ⟨-, version, e₃, e₄, ⟨hstart, rfl⟩, ⟨hversion, -, rfl⟩, rfl⟩,
      rfl⟩
    obtain rfl : version = formatVersion := Decidable.not_not.mp hversion
    obtain rfl : start = startMarker := Segment.version_eq_ok_iff.mp hstart
    exact List.append_nil _
  · rintro rfl
    exact ⟨startMarker, startMarker.encoding, [], ⟨startMarker_admitted limits, rfl⟩,
      ⟨not_not_intro rfl, formatVersion, [], [], ⟨Segment.version_eq_ok_iff.mpr rfl, rfl⟩,
        ⟨not_not_intro rfl, rfl, rfl⟩, rfl⟩, (List.append_nil _).symm⟩

/-- Of all segments, the end marker of a count alone passes for the end of an envelope with this
    count, and only if the count is a word. -/
theorem checkEnd_eq_ok_iff {marker : Segment} {count : Nat} :
    checkEnd marker count = .ok () ↔ count ≤ maxWord ∧ marker = endMarker count := by
  have hcheck : checkEnd marker count = if marker.tag ≠ .documentEnd then
      .error (.endExpected marker.tag)
    else marker.endCount >>= fun declared =>
      if declared.toNat ≠ count then .error (.sizeMismatch declared.toNat count) else .ok () := rfl
  rw [hcheck, unless_eq_ok_iff, bind_eq_ok_iff]
  constructor
  · rintro ⟨-, declared, hend, hdeclared⟩
    obtain rfl := Decidable.not_not.mp (unless_eq_ok_iff.mp hdeclared).1
    exact ⟨Nat.le_of_lt_succ declared.toNat_lt, Segment.endCount_eq_ok_iff.mp hend⟩
  · rintro ⟨hle, rfl⟩
    have hword : (UInt64.ofNat count).toNat = count := Segment.toNat_ofNat_of_le hle
    refine ⟨not_not_intro rfl, .ofNat count, ?_, if_neg (not_not_intro hword)⟩
    rw [Segment.endCount_eq_ok_iff, Segment.documentEnd, hword]
    rfl

end SegmentWire

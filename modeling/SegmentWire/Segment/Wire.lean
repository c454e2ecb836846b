import SegmentWire.Segment.Value
import SegmentWire.Field
import SegmentWire.Sink
import SegmentWire.Source

/-!
# Segments on the wire

A segment travels as its tag, the payload's size where the tag's layout has a size field, and
the payload. Nothing marks the end of a segment: the tag and the size field say where it is.

* **`writeSegment`**, **`Segment.write`**, **`Segment.flatten`** — the encoding, written to a sink
  or as bytes.
* **`flattenSegment`** — the encoding of loose parts, which refuses an empty payload.
* **`readSegment`**, **`readField`** — one segment, or one field, from a source.
-/

namespace SegmentWire

-- ── Writing ──────────────────────────────────────────────────────────────────────

/-- Writes a segment given by its parts. A payload that its tag does not allow is refused before
    anything is written. -/
def writeSegment (tag : Tag) (payload : Bytes) : Writer Unit :=
  match tag.layout with
  | .fixed width =>
    if payload.length = width then do
      Sink.put [tag.code]
      Sink.put payload
    else throw (.sizeMismatch width payload.length)
  | .sized field =>
    if field = 2 ∧ maxRegular < payload.length then
      throw (.sizeMismatch maxRegular payload.length)
    else do
      Sink.put [tag.code]
      Sink.put (bigEndian field payload.length)
      Sink.put payload

/-- The encoding of loose parts. Someone who holds raw bytes never means an empty payload, so that
    is refused even where the tag allows it. -/
def flattenSegment (tag : Tag) (payload : Bytes) : Except WireError Bytes :=
  if payload.isEmpty then .error (.emptyPayload tag) else (writeSegment tag payload).bytes

namespace Segment

/-- Writes the segment. -/
def write (s : Segment) : Writer Unit := writeSegment s.tag s.payload

/-- The encoding of the segment. -/
def flatten (s : Segment) : Except WireError Bytes := s.write.bytes

end Segment

-- ── Reading ──────────────────────────────────────────────────────────────────────

/-- The payload length of a segment whose tag has been read. Only a length that stands in a size
    field is held against the limits. -/
def readLength [Fetch] (tag : Tag) : Reader Nat :=
  match tag.layout with
  | .fixed width => pure width
  | .sized field => do
    let length ← Reader.number field
    let limits ← read
    if limits.payload < length then throw (.payloadLimit tag length limits.payload)
    return length

/-- The tag of the next segment. -/
def readTag [Fetch] : Reader Tag := do
  let code ← Reader.number 1
  (Tag.ofCode (.ofNat code) : Except WireError Tag)

/-- One segment. -/
def readSegment [Fetch] : Reader Segment := do
  let tag ← readTag
  let length ← readLength tag
  let payload ← Fetch.take .payload length
  (Segment.ofParts tag payload : Except WireError Segment)

/-- One segment that may live in a container. -/
def readField [Fetch] : Reader Field := do
  let s ← readSegment
  (Field.ofSegment s : Except WireError Field)

/-- The segment at the start of `bytes`, read without limits. -/
def Segment.unflatten (bytes : Bytes) : Except WireError Segment :=
  readSegment.ofBytes .unbounded bytes

-- ── Progress ─────────────────────────────────────────────────────────────────────

section Progress

variable {fetch : Fetch}

/-- Reading a length takes nothing back. -/
theorem readLength_pending_le {tag : Tag} {limits : Limits} {source rest : Source} {length : Nat}
    (h : readLength tag limits source = .ok (length, rest)) :
    rest.pending.length ≤ source.pending.length := by
  unfold readLength at h
  cases hlayout : tag.layout with
  | fixed width =>
    rw [hlayout] at h
    cases h
    exact Nat.le_refl _
  | sized field =>
    rw [hlayout] at h
    obtain ⟨size, middle, hsize, h⟩ := Reader.bind_eq_ok h
    have hlt := Reader.number_pending hsize
    obtain ⟨bounds, same, hread, h⟩ := Reader.bind_eq_ok h
    cases hread
    split at h
    · cases h
    · cases h
      omega

/-- Reading a segment leaves less pending than there was. -/
theorem readSegment_pending_lt {limits : Limits} {source rest : Source} {s : Segment}
    (h : readSegment limits source = .ok (s, rest)) :
    rest.pending.length < source.pending.length := by
  obtain ⟨tag, afterTag, htag, h⟩ := Reader.bind_eq_ok h
  obtain ⟨length, afterLength, hlength, h⟩ := Reader.bind_eq_ok h
  obtain ⟨payload, afterPayload, hpayload, h⟩ := Reader.bind_eq_ok h
  obtain ⟨code, afterCode, hcode, htag⟩ := Reader.bind_eq_ok htag
  have hfirst := Reader.number_pending hcode
  have hsame := (Reader.lift_eq_ok htag).2
  have hle := readLength_pending_le hlength
  have hsplit := (Fetch.take_pending hpayload).1
  have hlast := (Reader.lift_eq_ok h).2
  rw [hsplit, hsame, List.length_append] at hle
  rw [hlast]
  omega

end Progress

end SegmentWire

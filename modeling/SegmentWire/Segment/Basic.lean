import SegmentWire.Error

/-!
# Segments — a tag and a payload in wire order

A segment is the unit of the format. Its payload is kept exactly as it travels, every
multi-byte number big-endian.

* **`Segment.WellFormed`** — the payload's length is one that the tag allows.
* **`Segment.ofParts`** — a segment of a given tag and payload, if that payload fits the tag.
* **`Segment.size`** — the length of the encoding.
-/

namespace SegmentWire

-- powers are those of the core library, whatever else is imported
attribute [local instance (2000)] instPowNat

/-- A tag and its payload. -/
structure Segment where
  tag : Tag
  payload : Bytes
deriving DecidableEq, Repr

/-- The lengths that a layout allows: the fixed width, or what the size field can state. -/
def Layout.Allows : Layout → Nat → Prop
  | .fixed width, length => length = width
  | .sized field, length => length < 256 ^ field

instance (layout : Layout) (length : Nat) : Decidable (layout.Allows length) :=
  match layout with
  | .fixed width => inferInstanceAs (Decidable (length = width))
  | .sized field => inferInstanceAs (Decidable (length < 256 ^ field))

/-- The number of bytes that a segment with this tag and payload length occupies. -/
def encodedLength (tag : Tag) (payloadLength : Nat) : Nat :=
  match tag.layout with
  | .fixed width => 1 + width
  | .sized field => 1 + field + payloadLength

namespace Segment

/-- The payload has a length that the tag allows. -/
def WellFormed (s : Segment) : Prop := s.tag.layout.Allows s.payload.length

instance (s : Segment) : Decidable s.WellFormed :=
  inferInstanceAs (Decidable (Layout.Allows _ _))

/-- A segment of a given tag and payload. A fixed-width tag takes exactly its width, and the
    regular size class at most 65535 bytes. -/
def ofParts (tag : Tag) (payload : Bytes) : Except WireError Segment :=
  match tag.fixedWidth with
  | some width =>
    if payload.length = width then .ok ⟨tag, payload⟩
    else .error (.sizeMismatch width payload.length)
  | none =>
    if tag.sizeFieldWidth = 2 ∧ maxRegular < payload.length then
      .error (.sizeMismatch maxRegular payload.length)
    else .ok ⟨tag, payload⟩

/-- The number of bytes that the segment occupies when written. -/
def size (s : Segment) : Nat :=
  match s.tag.fixedWidth with
  | some width => 1 + width
  | none => 1 + s.tag.sizeFieldWidth + s.payload.length

end Segment

end SegmentWire

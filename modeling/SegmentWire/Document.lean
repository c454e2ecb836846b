import SegmentWire.Envelope
import SegmentWire.Sha256

/-!
# Documents — any segments in an envelope

A document is an envelope around a run of segments of any kind but the end marker, which a reader
would take as the end of the body. The count in the end marker is the number of members; container
indices among them are members like all others and are not grouped with what follows them.

* **`Document`** — the members in order, added by **`Document.push`**.
* **`Document.write`**, **`Document.flatten`**, **`readDocument`** — the wire form.
-/

namespace SegmentWire

/-- An ordered sequence of segments. -/
structure Document where
  members : Array Segment := #[]
deriving DecidableEq

namespace Document

/-- No member is an end marker. -/
def Closed (d : Document) : Prop := ∀ s ∈ d.members, s.tag ≠ .documentEnd

/-- The document with one more member; an end marker is refused. -/
def push (d : Document) (s : Segment) : Except WireError Document :=
  if s.tag = .documentEnd then .error .endMarkerMember else .ok ⟨d.members.push s⟩

/-- The member at a place, counted from zero. -/
def get? (d : Document) (place : Nat) : Option Segment := d.members[place]?

/-- The number of members. -/
def length (d : Document) : Nat := d.members.size

/-- There are no members. -/
def isEmpty (d : Document) : Bool := d.members.isEmpty

/-- The count in the end marker. -/
def integrityCount (d : Document) : Nat := d.members.size

/-- The length of the encoding, markers included. -/
def size (d : Document) : Nat :=
  startLength + d.members.foldl (fun total s => total + s.size) 0 + endLength

/-- Writes the start marker, every member in order, and the end marker. -/
def write (d : Document) : Writer Unit := do
  writeStart
  d.members.toList.forM fun s => s.write
  writeEnd d.integrityCount

/-- The encoding of the document. -/
def flatten (d : Document) : Except WireError Bytes := d.write.bytes

/-- The fingerprint of the encoding. -/
def fingerprint (d : Document) : Except WireError String :=
  d.flatten.map SegmentWire.fingerprint

end Document

/-- The members up to the next end marker, appended to those read before, and that marker. A
    member past the limit is refused once it has been read. -/
def readMembers [Fetch] (members : Array Segment) (limits : Limits) (source : Source) :
    Except WireError ((Array Segment × Segment) × Source) :=
  match _h : readSegment limits source with
  | .error e => .error e
  | .ok (s, rest) =>
    if s.tag = .documentEnd then .ok ((members, s), rest)
    else if limits.document ≤ members.size then .error (.documentLimit limits.document)
    else readMembers (members.push s) limits rest
termination_by source.pending.length
decreasing_by exact readSegment_pending_lt _h

/-- One document. -/
def readDocument [Fetch] : Reader Document := do
  readStart
  let (members, marker) ← (readMembers #[] : Reader (Array Segment × Segment))
  (checkEnd marker members.size : Except WireError Unit)
  return ⟨members⟩

/-- The document at the start of `bytes`, read within limits. -/
def Document.unflatten (bytes : Bytes) (limits : Limits := .unbounded) :
    Except WireError Document :=
  readDocument.ofBytes limits bytes

end SegmentWire

import SegmentWire.Segment.Value

/-!
# Fields — segments that may live in a container

Lists and maps are flat: a container index is never a member of one. A field is a segment that
has been checked for this once, when it was made. Numbers, booleans, texts and bytes need no check.
-/

namespace SegmentWire

/-- The kinds of value that make a field without a check. -/
def Kind.isPlain : Kind → Bool
  | documentStart | documentEnd | listIndex | mapIndex => false
  | _ => true

/-- No value of these kinds makes a container index. -/
theorem Segment.isContainer_ofValue {v : Value} (h : v.kind.isPlain = true) :
    (ofValue v).tag.isContainer = false := by
  cases v with
  | listIndex count => cases h
  | mapIndex count => cases h
  | text t =>
    rw [ofValue, ofText]
    split <;> rfl
  | binary bytes =>
    rw [ofValue, ofBinary]
    split <;> rfl
  | _ => rfl

/-- A segment whose tag is no container index. -/
structure Field where
  segment : Segment
  plain : segment.tag.isContainer = false
deriving DecidableEq

namespace Field

/-- A segment as a field; a container index is refused. -/
def ofSegment (s : Segment) : Except WireError Field :=
  if h : s.tag.isContainer = false then .ok ⟨s, h⟩ else .error (.nestedContainer s.tag)

/-- A value as a field. -/
def ofValue (v : Value) (h : v.kind.isPlain = true) : Field :=
  ⟨.ofValue v, Segment.isContainer_ofValue h⟩

/-- A value passes the check that its conversion leaves out. -/
theorem ofSegment_ofValue {v : Value} (h : v.kind.isPlain = true) :
    ofSegment (.ofValue v) = .ok (ofValue v h) :=
  dif_pos (Segment.isContainer_ofValue h)

/-- The number of bytes that the field occupies when written. -/
def size (f : Field) : Nat := f.segment.size

end Field

end SegmentWire

import SegmentWire.Segment.Basic
import SegmentWire.Text.Utf8
import SegmentWire.Ieee.Basic

/-!
# Typed values — what segments mean

A segment stands for a value of one of seventeen kinds. The two size classes of text, of bytes
and of each container index are one kind: which class a value takes follows from its size.

* **`Kind`**, **`ValueOf`**, **`Value`** — the kinds and their values. `ValueOf` leaves open what
  a run of opaque bytes is represented by.
* **`Segment.ofValue`** — the segment of a value. **`Segment.set`** stores one in a segment that is
  already there, and **`Segment.blank`** is what a new segment is set from.
* **`Segment.get`** — the value of a segment, read as a given kind. No kind is read as another,
  even of the same width.
-/

namespace SegmentWire

open Ieee (Binary32 Binary64)

/-- The kinds of value. -/
inductive Kind where
  | documentStart
  | documentEnd
  | int8
  | uint8
  | int16
  | uint16
  | int32
  | uint32
  | int64
  | uint64
  | bool
  | float32
  | float64
  | text
  | binary
  | listIndex
  | mapIndex
deriving DecidableEq, Repr

/-- A value, with opaque bytes represented by `Blob`. -/
inductive ValueOf (Blob : Type) where
  /-- The version of an envelope. -/
  | documentStart (version : UInt8)
  /-- The integrity count of an envelope. -/
  | documentEnd (count : UInt64)
  | int8 (n : Int8)
  | uint8 (n : UInt8)
  | int16 (n : Int16)
  | uint16 (n : UInt16)
  | int32 (n : Int32)
  | uint32 (n : UInt32)
  | int64 (n : Int64)
  | uint64 (n : UInt64)
  | bool (b : Bool)
  | float32 (x : Binary32)
  | float64 (x : Binary64)
  | text (t : String)
  | binary (blob : Blob)
  /-- The number of items of a list. -/
  | listIndex (count : UInt64)
  /-- The number of pairs of a map. -/
  | mapIndex (count : UInt64)
deriving DecidableEq

/-- A value with its bytes as they are. -/
abbrev Value := ValueOf Bytes

/-- The kind of a value. -/
def ValueOf.kind {Blob : Type} : ValueOf Blob → Kind
  | documentStart _ => .documentStart
  | documentEnd _ => .documentEnd
  | int8 _ => .int8
  | uint8 _ => .uint8
  | int16 _ => .int16
  | uint16 _ => .uint16
  | int32 _ => .int32
  | uint32 _ => .uint32
  | int64 _ => .int64
  | uint64 _ => .uint64
  | bool _ => .bool
  | float32 _ => .float32
  | float64 _ => .float64
  | text _ => .text
  | binary _ => .binary
  | listIndex _ => .listIndex
  | mapIndex _ => .mapIndex

/-- The kind that segments of a tag are read as. -/
def Tag.kind : Tag → Kind
  | documentStart => .documentStart
  | documentEnd => .documentEnd
  | int8 => .int8
  | uint8 => .uint8
  | int16 => .int16
  | uint16 => .uint16
  | int32 => .int32
  | uint32 => .uint32
  | int64 => .int64
  | uint64 => .uint64
  | bool => .bool
  | float32 => .float32
  | float64 => .float64
  | string | hugeString => .text
  | binary | hugeBinary => .binary
  | list | largeList => .listIndex
  | map | largeMap => .mapIndex

namespace Segment

-- ── Writing a value ──────────────────────────────────────────────────────────────

/-- A text, in the regular size class if its bytes fit that. -/
def ofText (text : String) : Segment :=
  ⟨if text.utf8ByteSize ≤ maxRegular then .string else .hugeString, Utf8.encode text⟩

/-- Opaque bytes, in the regular size class if they fit that. -/
def ofBinary (bytes : Bytes) : Segment :=
  ⟨if bytes.length ≤ maxRegular then .binary else .hugeBinary, bytes⟩

/-- The index of a list, in the regular size class if the count fits that. -/
def listIndex (count : UInt64) : Segment :=
  if count.toNat ≤ maxRegular then ⟨.list, bigEndian 2 count.toNat⟩
  else ⟨.largeList, bigEndian 8 count.toNat⟩

/-- The index of a map, in the regular size class if the count fits that. -/
def mapIndex (count : UInt64) : Segment :=
  if count.toNat ≤ maxRegular then ⟨.map, bigEndian 2 count.toNat⟩
  else ⟨.largeMap, bigEndian 8 count.toNat⟩

/-- The start marker of an envelope. -/
def documentStart (version : UInt8) : Segment := ⟨.documentStart, [version]⟩

/-- The end marker of an envelope. -/
def documentEnd (count : UInt64) : Segment := ⟨.documentEnd, bigEndian 8 count.toNat⟩

/-- The segment that stands for a value. -/
def ofValue : Value → Segment
  | .documentStart version => documentStart version
  | .documentEnd count => documentEnd count
  | .int8 n => ⟨.int8, bigEndian 1 n.toUInt8.toNat⟩
  | .uint8 n => ⟨.uint8, bigEndian 1 n.toNat⟩
  | .int16 n => ⟨.int16, bigEndian 2 n.toUInt16.toNat⟩
  | .uint16 n => ⟨.uint16, bigEndian 2 n.toNat⟩
  | .int32 n => ⟨.int32, bigEndian 4 n.toUInt32.toNat⟩
  | .uint32 n => ⟨.uint32, bigEndian 4 n.toNat⟩
  | .int64 n => ⟨.int64, bigEndian 8 n.toUInt64.toNat⟩
  | .uint64 n => ⟨.uint64, bigEndian 8 n.toNat⟩
  | .bool b => ⟨.bool, [if b then 1 else 0]⟩
  | .float32 x => ⟨.float32, bigEndian 4 x.bits.toNat⟩
  | .float64 x => ⟨.float64, bigEndian 8 x.bits.toNat⟩
  | .text t => ofText t
  | .binary bytes => ofBinary bytes
  | .listIndex count => listIndex count
  | .mapIndex count => mapIndex count

/-- The segment that a new one is set from. Its tag does not allow its payload, so it is never used as
    it is. -/
def blank : Segment := ⟨.uint8, []⟩

/-- A buffer after bytes have been copied over its front. -/
def overwrite (buffer bytes : Bytes) : Bytes := bytes ++ buffer.drop bytes.length

/-- The segment after a tag and a payload are stored in it. A payload as long as the old one is copied
    over that, and any other takes its place. -/
def store (s : Segment) (tag : Tag) (bytes : Bytes) : Segment :=
  ⟨tag, if s.payload.length = bytes.length then overwrite s.payload bytes else bytes⟩

/-- The segment after a value is stored in it: tag and payload are both those of the value. -/
def set (s : Segment) (v : Value) : Segment := s.store (ofValue v).tag (ofValue v).payload

/-- Nothing is left of what was there before. -/
theorem store_eq (s : Segment) (tag : Tag) (bytes : Bytes) : s.store tag bytes = ⟨tag, bytes⟩ := by
  rw [store]
  split
  · next hlength =>
    rw [overwrite, ← hlength, List.drop_length, List.append_nil]
  · rfl

@[simp]
theorem set_eq (s : Segment) (v : Value) : s.set v = ofValue v := store_eq s _ _

-- ── Reading a value ──────────────────────────────────────────────────────────────

/-- The number in the payload of a segment that has to have a given tag and width. -/
def number (s : Segment) (tag : Tag) (width : Nat) : Except WireError Nat :=
  if s.tag ≠ tag then .error (.typeMismatch tag s.tag)
  else if s.payload.length ≠ width then .error (.sizeMismatch width s.payload.length)
  else .ok (ofBigEndian s.payload)

/-- The version in a start marker. -/
def version (s : Segment) : Except WireError UInt8 := do
  return .ofNat (← s.number .documentStart 1)

/-- The integrity count in an end marker. -/
def endCount (s : Segment) : Except WireError UInt64 := do
  return .ofNat (← s.number .documentEnd 8)

/-- The text of a string of either size class. -/
def text (s : Segment) : Except WireError String :=
  if s.tag.isString then
    match Utf8.decode? s.payload with
    | some t => .ok t
    | none => .error (.notUtf8 s.tag)
  else .error (.typeMismatch .string s.tag)

/-- The bytes of a binary of either size class. -/
def binary (s : Segment) : Except WireError Bytes :=
  if s.tag.isBinary then .ok s.payload else .error (.typeMismatch .binary s.tag)

/-- The item count in a list index of either size class. -/
def listCount (s : Segment) : Except WireError UInt64 :=
  match s.tag with
  | .list => return .ofNat (← s.number .list 2)
  | .largeList => return .ofNat (← s.number .largeList 8)
  | found => .error (.typeMismatch .list found)

/-- The pair count in a map index of either size class. -/
def mapCount (s : Segment) : Except WireError UInt64 :=
  match s.tag with
  | .map => return .ofNat (← s.number .map 2)
  | .largeMap => return .ofNat (← s.number .largeMap 8)
  | found => .error (.typeMismatch .map found)

/-- The value of a segment, read as a given kind. Any payload byte but zero is a true boolean. -/
def get (s : Segment) : Kind → Except WireError Value
  | .documentStart => return .documentStart (← s.version)
  | .documentEnd => return .documentEnd (← s.endCount)
  | .int8 => return .int8 (UInt8.ofNat (← s.number .int8 1)).toInt8
  | .uint8 => return .uint8 (.ofNat (← s.number .uint8 1))
  | .int16 => return .int16 (UInt16.ofNat (← s.number .int16 2)).toInt16
  | .uint16 => return .uint16 (.ofNat (← s.number .uint16 2))
  | .int32 => return .int32 (UInt32.ofNat (← s.number .int32 4)).toInt32
  | .uint32 => return .uint32 (.ofNat (← s.number .uint32 4))
  | .int64 => return .int64 (UInt64.ofNat (← s.number .int64 8)).toInt64
  | .uint64 => return .uint64 (.ofNat (← s.number .uint64 8))
  | .bool => return .bool ((← s.number .bool 1) != 0)
  | .float32 => return .float32 ⟨BitVec.ofNat _ (← s.number .float32 4)⟩
  | .float64 => return .float64 ⟨BitVec.ofNat _ (← s.number .float64 8)⟩
  | .text => return .text (← s.text)
  | .binary => return .binary (← s.binary)
  | .listIndex => return .listIndex (← s.listCount)
  | .mapIndex => return .mapIndex (← s.mapCount)

/-- The value of a segment, read as the kind of its own tag. -/
def value (s : Segment) : Except WireError Value := s.get s.tag.kind

end Segment

end SegmentWire

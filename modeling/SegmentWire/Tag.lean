/-!
# Tags — the first byte of every segment

The tag alone decides how the rest of a segment is laid out: a payload of a fixed width, or a
size field followed by a payload of that size.

* **`Tag`** — the twenty-one tags, and **`Tag.code`** / **`Tag.ofCode?`** between them and their
  bytes. Zero and everything past twenty-one is no tag.
* **`Layout`** and **`Tag.layout`** — what follows the tag.
-/

namespace SegmentWire

-- powers are those of the core library, whatever else is imported
attribute [local instance (2000)] instPowNat

/-- What kind of value a segment holds. -/
inductive Tag where
  /-- The start of an envelope, with its version. -/
  | documentStart
  /-- The end of an envelope, with its integrity count. -/
  | documentEnd
  | int8
  | uint8
  | int16
  | uint16
  | int32
  | uint32
  | int64
  | uint64
  | bool
  | float32
  | float64
  /-- Text of at most 65535 bytes. -/
  | string
  /-- Opaque bytes, at most 65535 of them. -/
  | binary
  /-- Text of any length. -/
  | hugeString
  /-- Any number of opaque bytes. -/
  | hugeBinary
  /-- The index of a map of at most 65535 pairs. -/
  | map
  /-- The index of a list of at most 65535 items. -/
  | list
  /-- The index of a map of any number of pairs. -/
  | largeMap
  /-- The index of a list of any number of items. -/
  | largeList
deriving DecidableEq, Repr

/-- What follows a tag on the wire. -/
inductive Layout where
  /-- A payload of `width` bytes. -/
  | fixed (width : Nat)
  /-- The payload's size in `field` bytes, then the payload. -/
  | sized (field : Nat)
deriving DecidableEq, Repr

/-- The greatest payload size, or member count, of the regular size class. -/
def maxRegular : Nat := 65535

/-- The greatest number that eight bytes hold. -/
def maxWord : Nat := 2 ^ (64 : Nat) - 1

namespace Tag

/-- All tags, in the order of their codes. -/
def all : List Tag :=
  [documentStart, documentEnd, int8, uint8, int16, uint16, int32, uint32, int64, uint64, bool,
   float32, float64, string, binary, hugeString, hugeBinary, map, list, largeMap, largeList]

/-- The byte of a tag on the wire. -/
def code : Tag → UInt8
  | documentStart => 1
  | documentEnd => 2
  | int8 => 3
  | uint8 => 4
  | int16 => 5
  | uint16 => 6
  | int32 => 7
  | uint32 => 8
  | int64 => 9
  | uint64 => 10
  | bool => 11
  | float32 => 12
  | float64 => 13
  | string => 14
  | binary => 15
  | hugeString => 16
  | hugeBinary => 17
  | map => 18
  | list => 19
  | largeMap => 20
  | largeList => 21

/-- The tag with this byte, if there is one. -/
def ofCode? (code : UInt8) : Option Tag :=
  match code.toNat with
  | 1 => documentStart
  | 2 => documentEnd
  | 3 => int8
  | 4 => uint8
  | 5 => int16
  | 6 => uint16
  | 7 => int32
  | 8 => uint32
  | 9 => int64
  | 10 => uint64
  | 11 => bool
  | 12 => float32
  | 13 => float64
  | 14 => string
  | 15 => binary
  | 16 => hugeString
  | 17 => hugeBinary
  | 18 => map
  | 19 => list
  | 20 => largeMap
  | 21 => largeList
  | _ => none

/-- The layout that a tag prescribes. A container index has a fixed layout: its payload is the
    member count and no size field. -/
def layout : Tag → Layout
  | documentStart | int8 | uint8 | bool => .fixed 1
  | int16 | uint16 | map | list => .fixed 2
  | int32 | uint32 | float32 => .fixed 4
  | documentEnd | int64 | uint64 | float64 | largeMap | largeList => .fixed 8
  | string | binary => .sized 2
  | hugeString | hugeBinary => .sized 8

/-- The payload width that the tag implies, if it implies one. -/
def fixedWidth (tag : Tag) : Option Nat :=
  match tag.layout with
  | .fixed width => some width
  | .sized _ => none

/-- The width of the size field, zero where there is none. -/
def sizeFieldWidth (tag : Tag) : Nat :=
  match tag.layout with
  | .fixed _ => 0
  | .sized field => field

/-- The payload's size stands in a size field. -/
def isVariable (tag : Tag) : Bool := tag.fixedWidth.isNone

/-- The four container indices. -/
def isContainer : Tag → Bool
  | map | list | largeMap | largeList => true
  | _ => false

/-- The two envelope markers. -/
def isMarker : Tag → Bool
  | documentStart | documentEnd => true
  | _ => false

/-- The two size classes of text. -/
def isString : Tag → Bool
  | string | hugeString => true
  | _ => false

/-- The two size classes of opaque bytes. -/
def isBinary : Tag → Bool
  | binary | hugeBinary => true
  | _ => false

/-- The name that messages and displays use. -/
def name : Tag → String
  | documentStart => "DocumentStart"
  | documentEnd => "DocumentEnd"
  | int8 => "Int8"
  | uint8 => "UInt8"
  | int16 => "Int16"
  | uint16 => "UInt16"
  | int32 => "Int32"
  | uint32 => "UInt32"
  | int64 => "Int64"
  | uint64 => "UInt64"
  | bool => "Bool"
  | float32 => "Float32"
  | float64 => "Float64"
  | string => "String"
  | binary => "Binary"
  | hugeString => "HugeString"
  | hugeBinary => "HugeBinary"
  | map => "Map"
  | list => "List"
  | largeMap => "LargeMap"
  | largeList => "LargeList"

/-- Reading a tag's byte gives the tag. -/
theorem ofCode?_code (tag : Tag) : ofCode? tag.code = some tag := by
  cases tag <;> rfl

end Tag

end SegmentWire

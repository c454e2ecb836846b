import SegmentWire.Base64
import SegmentWire.Field
import SegmentWire.Ieee.Decimal
import SegmentWire.Json.Basic
import SegmentWire.Segment.Display

/-!
# Segments as JSON

A segment is shown as an object of its kind and its value, `type` and `value`. The kind carries the
width of every number; text and bytes of either size class are one kind each, bytes in base64, and
so are the container indices. JSON numbers express neither NaN nor infinities.

* **`TypedValue`** — a value as JSON holds it, bytes in base64.
* **`TypedValue.toJson`**, **`TypedValue.ofJson?`** — its object, and the reading of that. A
  structure may also come as the array of its fields in order.
* **`Segment.typed`**, **`Segment.ofTyped`** — a segment's typed value and back.
* **`Segment.toJson`**, **`Segment.ofJson`**, **`Field.ofJson`** — both steps at once.
-/

namespace SegmentWire

open Ieee (Binary32 Binary64 Binary)

-- ── Names ────────────────────────────────────────────────────────────────────────

/-- All kinds. -/
def Kind.all : List Kind :=
  [.documentStart, .documentEnd, .int8, .uint8, .int16, .uint16, .int32, .uint32, .int64, .uint64,
   .bool, .float32, .float64, .text, .binary, .listIndex, .mapIndex]

/-- The name of a kind in JSON. -/
def Kind.name : Kind → String
  | documentStart => "doc_start"
  | documentEnd => "doc_end"
  | int8 => "i8"
  | uint8 => "u8"
  | int16 => "i16"
  | uint16 => "u16"
  | int32 => "i32"
  | uint32 => "u32"
  | int64 => "i64"
  | uint64 => "u64"
  | bool => "bool"
  | float32 => "f32"
  | float64 => "f64"
  | text => "string"
  | binary => "binary"
  | listIndex => "list_index"
  | mapIndex => "map_index"

/-- The kind of a name. -/
def Kind.ofName? (name : String) : Option Kind := Kind.all.find? fun kind => kind.name == name

-- ── Reading JSON values ──────────────────────────────────────────────────────────

namespace Json

/-- The value as a whole number from `low` to `high`. Doubles are none, even if they are whole. -/
def int? (low high : Int) : Json → Option Int
  | number n => do
    let i ← n.toInt?
    if low ≤ i ∧ i ≤ high then some i else none
  | _ => none

/-- The value as a whole number of at most 64 bits without a sign. -/
def word? (value : Json) : Option UInt64 :=
  (value.int? 0 maxWord).map fun i => .ofNat i.toNat

/-- The value as a boolean. -/
def bool? : Json → Option Bool
  | bool b => some b
  | _ => none

/-- The value as a text. -/
def text? : Json → Option String
  | text t => some t
  | _ => none

/-- The value as an array. -/
def array? : Json → Option (List Json)
  | array items => some items
  | _ => none

/-- The value as the nearest floating-point number of a format. Whole numbers are rounded once,
    other numbers a second time after their rounding to doubles. -/
def float? {f : Ieee.Format} : Json → Option (Binary f)
  | number (.natural n) => some (.ofRatio false n.toNat 1)
  | number (.negative n) => some (.ofRatio true n.toInt.natAbs 1)
  | number (.real x) => some x.convert
  | _ => none

/-- The kind that a member of an object names: a name, or an object with the name as its one key
    and null as the value. -/
def kind? : Json → Option Kind
  | text name => Kind.ofName? name
  | object [(name, null)] => Kind.ofName? name
  | _ => none

end Json

-- ── Typed values ─────────────────────────────────────────────────────────────────

/-- A value with its bytes in base64. -/
abbrev TypedValue := ValueOf String

namespace TypedValue

/-- The JSON value that a typed value's object holds. -/
def content : TypedValue → Json
  | .documentStart version => .number (.natural version.toUInt64)
  | .documentEnd count => .number (.natural count)
  | .int8 n => .number (.ofInt n.toInt)
  | .uint8 n => .number (.natural n.toUInt64)
  | .int16 n => .number (.ofInt n.toInt)
  | .uint16 n => .number (.natural n.toUInt64)
  | .int32 n => .number (.ofInt n.toInt)
  | .uint32 n => .number (.natural n.toUInt64)
  | .int64 n => .number (.ofInt n.toInt)
  | .uint64 n => .number (.natural n)
  | .bool b => .bool b
  | .float32 x => .number (.real x.convert)
  | .float64 x => .number (.real x)
  | .text t => .text t
  | .binary blob => .text blob
  | .listIndex count => .number (.natural count)
  | .mapIndex count => .number (.natural count)

/-- The object of a typed value. -/
def toJson (v : TypedValue) : Json :=
  .object [("type", .text v.kind.name), ("value", v.content)]

/-- The typed value of a kind with a given content. -/
def ofContent? (content : Json) : Kind → Option TypedValue
  | .documentStart => (content.int? 0 255).map fun i => .documentStart (.ofNat i.toNat)
  | .documentEnd => content.word?.map .documentEnd
  | .int8 => (content.int? (-128) 127).map fun i => .int8 (.ofInt i)
  | .uint8 => (content.int? 0 255).map fun i => .uint8 (.ofNat i.toNat)
  | .int16 => (content.int? (-32768) 32767).map fun i => .int16 (.ofInt i)
  | .uint16 => (content.int? 0 65535).map fun i => .uint16 (.ofNat i.toNat)
  | .int32 => (content.int? (-2147483648) 2147483647).map fun i => .int32 (.ofInt i)
  | .uint32 => (content.int? 0 4294967295).map fun i => .uint32 (.ofNat i.toNat)
  | .int64 =>
    (content.int? (-9223372036854775808) 9223372036854775807).map fun i => .int64 (.ofInt i)
  | .uint64 => content.word?.map .uint64
  | .bool => content.bool?.map .bool
  | .float32 => content.float?.map .float32
  | .float64 => content.float?.map .float64
  | .text => content.text?.map .text
  | .binary => content.text?.map .binary
  | .listIndex => content.word?.map .listIndex
  | .mapIndex => content.word?.map .mapIndex

/-- The typed value of an object with a type and a value, or of the array of the two, where the type
    has to be a plain name. Other members of the object are ignored. -/
def ofJson? : Json → Option TypedValue
  | .object members => do
    let kind ← (← Json.member? "type" members).kind?
    ofContent? (← Json.member? "value" members) kind
  | .array [.text name, content] => do ofContent? content (← Kind.ofName? name)
  | _ => none

end TypedValue

-- ── Segments ─────────────────────────────────────────────────────────────────────

namespace Segment

/-- The typed value of a segment. It has none if it holds text that is not UTF-8, or a
    floating-point value that is not finite. -/
def typed (s : Segment) : Except WireError TypedValue := do
  match ← s.value with
  | .documentStart version => return .documentStart version
  | .documentEnd count => return .documentEnd count
  | .int8 n => return .int8 n
  | .uint8 n => return .uint8 n
  | .int16 n => return .int16 n
  | .uint16 n => return .uint16 n
  | .int32 n => return .int32 n
  | .uint32 n => return .uint32 n
  | .int64 n => return .int64 n
  | .uint64 n => return .uint64 n
  | .bool b => return .bool b
  | .float32 x =>
    if x.isFinite then return .float32 x
    else throw (.json (.notFinite s.tag (displayStyle.render x)))
  | .float64 x =>
    if x.isFinite then return .float64 x
    else throw (.json (.notFinite s.tag (displayStyle.render x)))
  | .text t => return .text t
  | .binary bytes => return .binary (Base64.encode bytes)
  | .listIndex count => return .listIndex count
  | .mapIndex count => return .mapIndex count

/-- The segment of a typed value, whose bytes have to be canonical base64. -/
def ofTyped : TypedValue → Except WireError Segment
  | .documentStart version => .ok (ofValue (.documentStart version))
  | .documentEnd count => .ok (ofValue (.documentEnd count))
  | .int8 n => .ok (ofValue (.int8 n))
  | .uint8 n => .ok (ofValue (.uint8 n))
  | .int16 n => .ok (ofValue (.int16 n))
  | .uint16 n => .ok (ofValue (.uint16 n))
  | .int32 n => .ok (ofValue (.int32 n))
  | .uint32 n => .ok (ofValue (.uint32 n))
  | .int64 n => .ok (ofValue (.int64 n))
  | .uint64 n => .ok (ofValue (.uint64 n))
  | .bool b => .ok (ofValue (.bool b))
  | .float32 x => .ok (ofValue (.float32 x))
  | .float64 x => .ok (ofValue (.float64 x))
  | .text t => .ok (ofValue (.text t))
  | .binary blob =>
    match Base64.decode? blob with
    | some bytes => .ok (ofValue (.binary bytes))
    | none => .error (.json .badBase64)
  | .listIndex count => .ok (ofValue (.listIndex count))
  | .mapIndex count => .ok (ofValue (.mapIndex count))

/-- The JSON form of a segment. -/
def toJson (s : Segment) : Except WireError Json := do
  return (← s.typed).toJson

/-- The segment of a JSON value. -/
def ofJson (value : Json) : Except WireError Segment :=
  match TypedValue.ofJson? value with
  | some v => ofTyped v
  | none => .error (.json .unexpected)

end Segment

/-- The field of a JSON value; a container index is refused. -/
def Field.ofJson (value : Json) : Except WireError Field := do
  Field.ofSegment (← Segment.ofJson value)

end SegmentWire

import SegmentWire.Segment.Value
import SegmentWire.Ieee.Decimal

/-!
# Displays — a segment as one line of text

The tag's name, an equals sign and the value. Text and bytes are previewed by their first
thirty-two bytes, text read leniently because the cut may fall inside a character.
Main function: **`Segment.display`**.
-/

namespace SegmentWire

/-- How many payload bytes of a text or a binary are shown. -/
def previewLength : Nat := 32

/-- Displayed floating-point values are written without an exponent, a value halfway between two
    decimals goes up, and a whole number has no point. -/
def displayStyle : Ieee.DecimalStyle := ⟨.up, none, false⟩

example : displayStyle.render (.ofRatio false 1 10 : Ieee.Binary32) = "0.1" := by decide +kernel

example : displayStyle.render (.ofRatio true 0 1 : Ieee.Binary64) = "-0" := by decide +kernel

example : displayStyle.render (.ofRatio false 1 (10 ^ 7) : Ieee.Binary64) = "0.0000001" := by
  decide +kernel

/-- Bytes as decimal numbers in brackets. -/
def displayBytes (bytes : Bytes) : String :=
  "[" ++ ", ".intercalate (bytes.map fun b => toString b.toNat) ++ "]"

/-- A value as its segment is displayed. -/
def Value.display : Value → String
  | .documentStart version => toString version.toNat
  | .documentEnd count | .listIndex count | .mapIndex count => toString count.toNat
  | .int8 n => toString n.toInt
  | .uint8 n => toString n.toNat
  | .int16 n => toString n.toInt
  | .uint16 n => toString n.toNat
  | .int32 n => toString n.toInt
  | .uint32 n => toString n.toNat
  | .int64 n => toString n.toInt
  | .uint64 n => toString n.toNat
  | .bool b => if b then "true" else "false"
  | .float32 x => displayStyle.render x
  | .float64 x => displayStyle.render x
  | .text t => "\"" ++ t ++ "\""
  | .binary bytes => displayBytes bytes

namespace Segment

/-- What is shown after the equals sign. A value that cannot be read shows its failure instead. -/
def displayValue (s : Segment) : String :=
  match s.tag.kind with
  | .text => "\"" ++ Utf8.lossy (s.payload.take previewLength) ++ "\""
  | .binary => displayBytes (s.payload.take previewLength)
  | kind =>
    match s.get kind with
    | .ok v => Value.display v
    | .error e => "<" ++ e.message ++ ">"

/-- The segment as one line. -/
def display (s : Segment) : String := s.tag.name ++ "=" ++ s.displayValue

end Segment

end SegmentWire

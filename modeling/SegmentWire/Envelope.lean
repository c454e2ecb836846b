import SegmentWire.Segment.Wire

/-!
# Envelopes — the frame of documents and messages

An envelope is a start marker with the format's version, a body, and an end marker with a count.
The count repeats what the body already says: a reader counts what it has read and refuses an
envelope that states another number.

* **`writeStart`**, **`writeEnd`** — the two markers.
* **`readStart`**, **`checkEnd`** — the checks of them.
-/

namespace SegmentWire

/-- The version that every envelope carries. -/
def formatVersion : UInt8 := 1

/-- The length of an encoded start marker. -/
def startLength : Nat := 2

/-- The length of an encoded end marker. -/
def endLength : Nat := 9

/-- Writes the start marker. -/
def writeStart : Writer Unit := writeSegment .documentStart [formatVersion]

/-- Writes the end marker. -/
def writeEnd (count : Nat) : Writer Unit := writeSegment .documentEnd (bigEndian 8 count)

/-- Reads the start marker and checks its version. -/
def readStart [Fetch] : Reader Unit := do
  let start ← readSegment
  if start.tag ≠ .documentStart then throw (.startExpected start.tag)
  let version ← (start.version : Except WireError UInt8)
  if version ≠ formatVersion then throw (.unknownVersion version)

/-- Checks that a segment is an end marker with a given count. -/
def checkEnd (marker : Segment) (count : Nat) : Except WireError Unit := do
  if marker.tag ≠ .documentEnd then throw (.endExpected marker.tag)
  let declared ← marker.endCount
  if declared.toNat ≠ count then throw (.sizeMismatch declared.toNat count)

end SegmentWire

import SegmentWire.Segment.Wire

/-!
# Field lists — ordered members behind an index

A list travels as its index, which states the number of items, followed by the items. The size
class of the index follows from the number of items at the time of writing; a reader takes either.

* **`FieldList`** — the items in order.
* **`FieldList.write`**, **`FieldList.flatten`**, **`readList`** — the wire form.
-/

namespace SegmentWire

/-- An ordered sequence of fields. -/
structure FieldList where
  items : Array Field := #[]
deriving DecidableEq

namespace FieldList

/-- The list of these items. -/
def ofList (items : List Field) : FieldList := ⟨items.toArray⟩

/-- The list with one more item at the end. -/
def push (l : FieldList) (item : Field) : FieldList := ⟨l.items.push item⟩

/-- The items in the opposite order. -/
def reverse (l : FieldList) : FieldList := ⟨l.items.reverse⟩

/-- The item at a place, counted from zero. -/
def get? (l : FieldList) (place : Nat) : Option Field := l.items[place]?

/-- The number of items. -/
def length (l : FieldList) : Nat := l.items.size

/-- There are no items. -/
def isEmpty (l : FieldList) : Bool := l.items.isEmpty

/-- The tag of the index that the list is written with. -/
def indexTag (l : FieldList) : Tag :=
  if l.length ≤ maxRegular then .list else .largeList

/-- The length of the encoding, index included. -/
def size (l : FieldList) : Nat :=
  encodedLength l.indexTag 0 + l.items.foldl (fun total f => total + f.size) 0

/-- Writes the index, then every item in order. -/
def write (l : FieldList) : Writer Unit := do
  (Segment.listIndex (.ofNat l.length)).write
  l.items.toList.forM fun f => f.segment.write

/-- The encoding of the list. -/
def flatten (l : FieldList) : Except WireError Bytes := l.write.bytes

end FieldList

/-- Holds a member count against the limits. -/
def checkContainer (count : Nat) : Reader Unit := do
  let limits ← read
  if limits.container < count then throw (.containerLimit count limits.container)

/-- So many fields, appended to those read before. -/
def readFields [Fetch] : Nat → Array Field → Reader (Array Field)
  | 0, fields => pure fields
  | count + 1, fields => do
    let field ← readField
    readFields count (fields.push field)

/-- One list: its index, then as many items as the index states. -/
def readList [Fetch] : Reader FieldList := do
  let index ← readSegment
  let count ← (index.listCount : Except WireError UInt64)
  checkContainer count.toNat
  return ⟨← readFields count.toNat #[]⟩

/-- The list at the start of `bytes`, read without limits. -/
def FieldList.unflatten (bytes : Bytes) : Except WireError FieldList :=
  readList.ofBytes .unbounded bytes

end SegmentWire

import SegmentWire.Document
import SegmentWire.Message

/-!
# Streams — items of different kinds, one after the other

Nothing separates the items of a stream. Each of them says where it ends, so a reader that is told
the kinds finds the same items at the same places.

* **`ItemKind`** and **`Item`** — what may stand in a stream.
* **`Item.write`**, **`writeItems`** — the items written to one sink.
* **`readItem`**, **`readItems`** — the items read from one source, up to the first failure.
-/

namespace SegmentWire

/-- The kinds of item that a stream holds. A field is written like a segment; the kinds differ in
    what a reader accepts. -/
inductive ItemKind where
  | segment
  | field
  | list
  | map
  | document
  | message
deriving DecidableEq, Repr

/-- An item of a stream. -/
inductive Item where
  | segment (s : Segment)
  | field (f : Field)
  | list (l : FieldList)
  | map (m : FieldMap)
  | document (d : Document)
  | message (m : Message)

namespace Item

/-- The kind of an item. -/
def kind : Item → ItemKind
  | segment _ => .segment
  | field _ => .field
  | list _ => .list
  | map _ => .map
  | document _ => .document
  | message _ => .message

/-- Writes the item. -/
def write : Item → Writer Unit
  | segment s => s.write
  | field f => f.segment.write
  | list l => l.write
  | map m => m.write
  | document d => d.write
  | message m => m.write

end Item

/-- Writes items one after the other; the first failure ends the writing. -/
def writeItems (items : List Item) : Writer Unit := items.forM Item.write

/-- One item of a given kind. -/
def readItem [Fetch] : ItemKind → Reader Item
  | .segment => Item.segment <$> readSegment
  | .field => Item.field <$> readField
  | .list => Item.list <$> readList
  | .map => Item.map <$> readMap
  | .document => Item.document <$> readDocument
  | .message => Item.message <$> readMessage

/-- Reads items of these kinds in order and appends them to those read before, each with the source
    as it was left after the item. The first failure ends the reading; without one, the source
    is given back as it was left after the last item. -/
def readItemsAfter [Fetch] (read : Array (Item × Source)) (limits : Limits) :
    List ItemKind → Source → Array (Item × Source) × Except WireError Source
  | [], source => (read, .ok source)
  | kind :: kinds, source =>
    match (readItem kind).runOn limits source with
    | .error e => (read, .error e)
    | .ok (item, rest) => readItemsAfter (read.push (item, rest)) limits kinds rest

/-- Items of these kinds in order, each with the source as it was left after the item, and how the
    reading ended. -/
def readItems [Fetch] (limits : Limits) (kinds : List ItemKind) (source : Source) :
    Array (Item × Source) × Except WireError Source :=
  readItemsAfter #[] limits kinds source

end SegmentWire

import Std.Data.ExtHashMap
import SegmentWire.FieldList

/-!
# Field maps — insertion-ordered dictionaries

A map keeps its pairs in the order in which their keys were first inserted, so that the same map
always has the same encoding. A position index beside the pairs finds a key without a search.

* **`FieldMap`** — the pairs and the index; **`FieldMap.Indexed`** says that they agree.
* **`FieldMap.exchange`**, **`FieldMap.insert`** — the value of a present key is replaced in its place,
  and an absent key is appended.
* **`FieldMap.withdraw`**, **`FieldMap.erase`** — the other pairs keep their order.
* **`FieldMap.write`**, **`FieldMap.flatten`**, **`readMap`** — the wire form: the map's index,
  then for each pair the key as a regular string segment and the value.
-/

namespace SegmentWire

/-- Pairs of a key and a field in insertion order, and the place of every key. -/
structure FieldMap where
  entries : Array (String × Field) := #[]
  positions : Std.ExtHashMap String Nat := ∅

namespace FieldMap

/-- The map without pairs. -/
def empty : FieldMap := {}

/-- The index maps exactly the keys of the pairs, each to its place. -/
def Indexed (m : FieldMap) : Prop :=
  ∀ (key : String) (place : Nat),
    m.positions[key]? = some place ↔ (m.entries[place]?).map Prod.fst = some key

/-- Maps are compared by their pairs alone, in order. -/
instance : BEq FieldMap := ⟨fun a b => a.entries == b.entries⟩

-- ── Operations ───────────────────────────────────────────────────────────────────

/-- The place of a key. -/
def position? (m : FieldMap) (key : String) : Option Nat := m.positions[key]?

/-- The value of a key. -/
def get? (m : FieldMap) (key : String) : Option Field :=
  match m.position? key with
  | some place => (m.entries[place]?).map Prod.snd
  | none => none

/-- Whether the key is present. -/
def contains (m : FieldMap) (key : String) : Bool := (m.position? key).isSome

/-- Puts a value under a key and gives back the one that was there: a present key keeps its place, an
    absent one goes to the end. -/
def exchange (m : FieldMap) (key : String) (value : Field) : Option Field × FieldMap :=
  match m.position? key with
  | some place =>
    ((m.entries[place]?).map Prod.snd,
      { m with entries := m.entries.modify place fun pair => (pair.1, value) })
  | none =>
    let last := m.entries.size
    (none, { positions := m.positions.insert key last, entries := m.entries.push (key, value) })

/-- The map after an insertion. -/
def insert (m : FieldMap) (key : String) (value : Field) : FieldMap := (m.exchange key value).2

/-- The index after the keys of some pairs have moved one place towards the front. -/
def moveUp (positions : Std.ExtHashMap String Nat) (pairs : List (String × Field)) :
    Std.ExtHashMap String Nat :=
  pairs.foldl (fun positions pair => positions.modify pair.1 (· - 1)) positions

/-- Takes a key out and gives back its value. The other pairs stay in the same order, and those
    behind the key move up. -/
def withdraw (m : FieldMap) (key : String) : Option Field × FieldMap :=
  match m.position? key with
  | some place =>
    let entries := m.entries.eraseIdxIfInBounds place
    ((m.entries[place]?).map Prod.snd,
      ⟨entries, moveUp (m.positions.erase key) (entries.toList.drop place)⟩)
  | none => (none, m)

/-- The map without a key. -/
def erase (m : FieldMap) (key : String) : FieldMap := (m.withdraw key).2

/-- The map of these pairs, inserted one after the other. -/
def ofList (pairs : List (String × Field)) : FieldMap :=
  pairs.foldl (fun m pair => m.insert pair.1 pair.2) empty

/-- The number of pairs. -/
def length (m : FieldMap) : Nat := m.entries.size

/-- There are no pairs. -/
def isEmpty (m : FieldMap) : Bool := m.entries.isEmpty

/-- The keys in order. -/
def keys (m : FieldMap) : List String := m.entries.toList.map Prod.fst

-- ── Writing ──────────────────────────────────────────────────────────────────────

/-- The tag of the index that the map is written with. -/
def indexTag (m : FieldMap) : Tag :=
  if m.length ≤ maxRegular then .map else .largeMap

/-- The length of the encoding, index and keys included. -/
def size (m : FieldMap) : Nat :=
  encodedLength m.indexTag 0 +
    m.entries.foldl
      (fun total pair => total + (encodedLength .string pair.1.utf8ByteSize + pair.2.size)) 0

/-- Writes a pair: the key as a regular string segment, then the value. -/
def writePair (pair : String × Field) : Writer Unit := do
  writeSegment .string (Utf8.encode pair.1)
  pair.2.segment.write

/-- Writes the index, then every pair in order. All keys are checked before anything is written, so
    that a key too long for a string segment leaves the sink untouched. -/
def write (m : FieldMap) : Writer Unit := do
  match m.entries.find? fun pair => maxRegular < pair.1.utf8ByteSize with
  | some pair => throw (.keyTooLong pair.1.utf8ByteSize)
  | none =>
    (Segment.mapIndex (.ofNat m.length)).write
    m.entries.toList.forM writePair

/-- The encoding of the map. -/
def flatten (m : FieldMap) : Except WireError Bytes := m.write.bytes

end FieldMap

-- ── Reading ──────────────────────────────────────────────────────────────────────

/-- One key, which has to be a regular string segment of valid text. -/
def readKey [Fetch] : Reader String := do
  let key ← readSegment
  if key.tag ≠ .string then throw (.keyNotString key.tag)
  (key.text : Except WireError String)

/-- So many pairs, added to those read before. A key that is already there is refused once its
    value has been read. -/
def readPairs [Fetch] : Nat → FieldMap → Reader FieldMap
  | 0, m => pure m
  | count + 1, m => do
    let key ← readKey
    let value ← readField
    if m.contains key then throw (.duplicateKey key)
    readPairs count (m.insert key value)

/-- One map: its index, then as many pairs as the index states. -/
def readMap [Fetch] : Reader FieldMap := do
  let index ← readSegment
  let count ← (index.mapCount : Except WireError UInt64)
  checkContainer count.toNat
  readPairs count.toNat .empty

/-- The map at the start of `bytes`, read without limits. -/
def FieldMap.unflatten (bytes : Bytes) : Except WireError FieldMap :=
  readMap.ofBytes .unbounded bytes

end SegmentWire

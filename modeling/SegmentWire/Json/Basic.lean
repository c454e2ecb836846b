import SegmentWire.Ieee.Basic

/-!
# JSON values

Numbers keep the three forms that matter to whoever reads them: a whole number that fits 64 bits
without a sign, a negative one that fits 64 bits with one, and everything else as a double.
Objects list their members by increasing key, each key once.

* **`Json`**, **`Json.Number`** — the values.
* **`Json.ofMembers`** — an object from members in any order; of a repeated key the last one counts.
-/

namespace SegmentWire

open Ieee (Binary64)

/-- A JSON number. -/
inductive Json.Number where
  /-- A whole number without a sign. -/
  | natural (n : UInt64)
  /-- A whole number below zero. -/
  | negative (n : Int64)
  /-- Any other number, negative zero among them. -/
  | real (x : Binary64)
deriving DecidableEq

/-- A JSON value. -/
inductive Json where
  | null
  | bool (b : Bool)
  | number (n : Json.Number)
  | text (t : String)
  | array (items : List Json)
  | object (members : List (String × Json))

namespace Json

/-- A whole number as a JSON number, if it is in the range of either 64-bit form. -/
def Number.ofInt (n : Int) : Number :=
  if 0 ≤ n then .natural (.ofNat n.toNat) else .negative (.ofInt n)

/-- The whole number that a JSON number is, unless it is a double. -/
def Number.toInt? : Number → Option Int
  | natural n => some n.toNat
  | negative n => some n.toInt
  | real _ => none

/-- The value of the key in an object's members. -/
def member? (key : String) (members : List (String × Json)) : Option Json :=
  (members.find? fun m => m.1 == key).map Prod.snd

/-- One more member on top of members by decreasing key; it takes the place of one with its key. -/
def stack : List (String × Json) → String × Json → List (String × Json)
  | [], m => [m]
  | top :: below, m => if top.1 = m.1 then m :: below else m :: top :: below

/-- An object of these members. The sorting is stable, so that of a repeated key the last member
    comes last. -/
def ofMembers (members : List (String × Json)) : Json :=
  .object ((members.mergeSort fun a b => a.1 ≤ b.1).foldl stack []).reverse

end Json

end SegmentWire

import SegmentWire.Json.Basic
import SegmentWire.Ieee.Decimal

/-!
# JSON text of values

A value is written on one line without blanks, or one member a line with an indent.

* **`Json.Style`** — the two layouts, **`Style.compact`** and **`Style.pretty`**.
* **`Json.render`** — a value as text.
-/

namespace SegmentWire.Json

open Ieee (DecimalStyle)

/-- Doubles are written without an exponent from `1e-5` up to below `1e16`, then with a point; a
    value halfway between two decimals goes to the even one. -/
def realStyle : DecimalStyle := ⟨.even, some (-5, 15), true⟩

example : realStyle.render (.ofRatio false 15 10 : Ieee.Binary64) = "1.5" := by decide +kernel

example : realStyle.render (.ofRatio true 1 1 : Ieee.Binary64) = "-1.0" := by decide +kernel

example : realStyle.render (.ofRatio false (10 ^ 16) 1 : Ieee.Binary64) = "1e+16" := by
  decide +kernel

example : realStyle.render (.ofRatio false 15 (10 ^ 7) : Ieee.Binary64) = "1.5e-6" := by
  decide +kernel

/-- A number as text. -/
def Number.render : Number → String
  | natural n => toString n.toNat
  | negative n => toString n.toInt
  | real x => realStyle.render x

/-- One character of a text. Only quotes, backslashes and controls are escaped. -/
def escape (c : Char) : String :=
  if c = '"' then "\\\""
  else if c = '\\' then "\\\\"
  else if c = '\x08' then "\\b"
  else if c = '\x0c' then "\\f"
  else if c = '\n' then "\\n"
  else if c = '\r' then "\\r"
  else if c = '\t' then "\\t"
  else if c < ' ' then
    "\\u00" ++ String.ofList [Nat.digitChar (c.toNat / 16), Nat.digitChar (c.toNat % 16)]
  else c.toString

/-- A text between quotes, after what is already written. -/
def writeText (written : String) (text : String) : String :=
  text.toList.foldl (fun w c => w ++ escape c) (written.push '"') |>.push '"'

example : writeText "" "a\x01\"\n" = "\"a\\u0001\\\"\\n\"" := by decide +kernel

/-- How a value is laid out: the indent of each level, or none for a single line. -/
structure Style where
  indent : Option Nat

/-- A single line without blanks. -/
def Style.compact : Style := ⟨none⟩

/-- One member a line, indented by two blanks a level. -/
def Style.pretty : Style := ⟨some 2⟩

/-- What stands before a member of a given level. -/
def Style.lineBreak (style : Style) (level : Nat) : String :=
  match style.indent with
  | none => ""
  | some blanks => "\n" ++ String.ofList (List.replicate (blanks * level) ' ')

/-- What stands between a key and its value. -/
def Style.colon (style : Style) : String :=
  match style.indent with
  | none => ":"
  | some _ => ": "

/-- What stands before a member: the first follows the bracket, any other one a comma. -/
def Style.lead (style : Style) (level : Nat) (first : Bool) : String :=
  (if first then "" else ",") ++ style.lineBreak level

/-- A bracket that closes the members of a level, on a line of its own if there are any. -/
def Style.close (style : Style) (level : Nat) (empty : Bool) (bracket : String) : String :=
  (if empty then "" else style.lineBreak level) ++ bracket

mutual

/-- A value, after what is already written. -/
def write (style : Style) (level : Nat) (written : String) : Json → String
  | .null => written ++ "null"
  | .bool true => written ++ "true"
  | .bool false => written ++ "false"
  | .number n => written ++ n.render
  | .text t => writeText written t
  | .array items =>
    writeItems style (level + 1) true (written ++ "[") items ++
      style.close level items.isEmpty "]"
  | .object members =>
    writeMembers style (level + 1) true (written ++ "\x7b") members ++
      style.close level members.isEmpty "\x7d"

/-- The items of an array, after what is already written. -/
def writeItems (style : Style) (level : Nat) (first : Bool) (written : String) :
    List Json → String
  | [] => written
  | item :: items =>
    writeItems style level false (write style level (written ++ style.lead level first) item) items

/-- The members of an object, after what is already written. -/
def writeMembers (style : Style) (level : Nat) (first : Bool) (written : String) :
    List (String × Json) → String
  | [] => written
  | (key, value) :: members =>
    writeMembers style level false
      (write style level (writeText (written ++ style.lead level first) key ++ style.colon) value)
      members

end

/-- A value as text. -/
def render (style : Style) (value : Json) : String := write style 0 "" value

end SegmentWire.Json

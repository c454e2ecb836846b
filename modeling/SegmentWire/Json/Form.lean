import SegmentWire.Json.NumberLiteral

/-!
# JSON text as written

A form is a JSON text's structure before its parts are interpreted: escapes are not yet paired to
characters, numbers not yet rounded, repeated keys still there. Whoever reads a form decides which
of its parts it interprets.

* **`Form`** — the structure, with **`TextLiteral`** and `NumberLiteral` at its leaves.
* **`TextLiteral.resolve?`** — the text that a literal stands for, if it stands for one.
* **`Form.resolve?`** — the value of a form whose nesting is within bounds.
-/

namespace SegmentWire.Json

-- ── Texts ────────────────────────────────────────────────────────────────────────

/-- A part of a text literal. -/
inductive Piece where
  /-- A character as itself, or by a short escape. -/
  | plain (c : Char)
  /-- A UTF-16 unit by its number. -/
  | unit (n : Nat)
deriving DecidableEq

/-- A text between quotes, as written. -/
abbrev TextLiteral := List Piece

/-- The first unit of a pair. -/
def isHighSurrogate (n : Nat) : Bool := 0xD800 ≤ n && n < 0xDC00

/-- The second unit of a pair. -/
def isLowSurrogate (n : Nat) : Bool := 0xDC00 ≤ n && n < 0xE000

/-- The characters of a literal, after those already read. Surrogates have to come in pairs. -/
def resolveAfter (read : String) : TextLiteral → Option String
  | [] => some read
  | .plain c :: rest => resolveAfter (read.push c) rest
  | .unit n :: rest =>
    if isLowSurrogate n then none
    else if isHighSurrogate n then
      match rest with
      | .unit low :: rest =>
        if isLowSurrogate low then
          resolveAfter (read.push (.ofNat (0x10000 + (n - 0xD800) * 0x400 + (low - 0xDC00)))) rest
        else none
      | _ => none
    else resolveAfter (read.push (.ofNat n)) rest

/-- The text of a literal. -/
def TextLiteral.resolve? (literal : TextLiteral) : Option String := resolveAfter "" literal

-- ── Forms ────────────────────────────────────────────────────────────────────────

/-- A JSON text's structure. -/
inductive Form where
  | null
  | bool (b : Bool)
  | number (n : NumberLiteral)
  | text (t : TextLiteral)
  | array (items : List Form)
  | object (members : List (TextLiteral × Form))

/-- How many arrays and objects may be open at once. -/
def maxDepth : Nat := 127

/-- The value of a form in which at most `depth` arrays and objects are open at once. -/
def Form.resolve? : Nat → Form → Option Json
  | _, .null => some .null
  | _, .bool b => some (.bool b)
  | _, .number n => n.resolve?.map .number
  | _, .text t => t.resolve?.map .text
  | 0, .array _ => none
  | 0, .object _ => none
  | depth + 1, .array items => (items.mapM (Form.resolve? depth)).map .array
  | depth + 1, .object members => do
    let members ← members.mapM fun (key, value) => do
      return (← key.resolve?, ← Form.resolve? depth value)
    return ofMembers members

end SegmentWire.Json

import SegmentWire.Json.Form
import SegmentWire.Error

/-!
# Reading JSON text

A text is cut into tokens character by character, and the tokens are put together to a form by a
machine that keeps the open arrays and objects on a stack. Both go through their input once, from
left to right.

* **`Token.scan?`** — the tokens of a text.
* **`Form.ofTokens?`** — the form that the tokens spell.
* **`Form.ofText?`**, **`Json.parse`** — the form and the value of a text.
-/

namespace SegmentWire.Json

-- ── Tokens ───────────────────────────────────────────────────────────────────────

/-- The smallest units of a JSON text. -/
inductive Token where
  | openArray
  | closeArray
  | openObject
  | closeObject
  | colon
  | comma
  | null
  | bool (b : Bool)
  | number (n : NumberLiteral)
  | text (t : TextLiteral)

/-- Where the scan of a text stands. Characters and pieces already read are in reverse. -/
inductive Mode where
  /-- Between two tokens. -/
  | between
  /-- Inside a text. -/
  | text (pieces : TextLiteral)
  /-- After the backslash of an escape. -/
  | escape (pieces : TextLiteral)
  /-- Inside the number of a unit that still owes `owed` digits. -/
  | unit (pieces : TextLiteral) (owed value : Nat)
  /-- Inside a number. -/
  | number (chars : List Char)
  /-- Inside a word. -/
  | word (chars : List Char)

/-- The tokens so far, and where the scan stands. -/
structure Scan where
  tokens : Array Token := #[]
  mode : Mode := .between

namespace Token

/-- Blanks between tokens. -/
def isBlank (c : Char) : Bool := c = ' ' || c = '\t' || c = '\n' || c = '\r'

/-- Characters that numbers are made of. -/
def isNumeric (c : Char) : Bool :=
  c.isDigit || c = '-' || c = '+' || c = '.' || c = 'e' || c = 'E'

/-- The value of a hexadecimal digit of either case. -/
def hexValue? (c : Char) : Option Nat :=
  if c.isDigit then some (c.toNat - 48)
  else if 'a' ≤ c ∧ c ≤ 'f' then some (c.toNat - 87)
  else if 'A' ≤ c ∧ c ≤ 'F' then some (c.toNat - 55)
  else none

/-- The character of a short escape. -/
def shortEscape? (c : Char) : Option Char :=
  if c = '"' ∨ c = '\\' ∨ c = '/' then some c
  else if c = 'b' then some '\x08'
  else if c = 'f' then some '\x0c'
  else if c = 'n' then some '\n'
  else if c = 'r' then some '\r'
  else if c = 't' then some '\t'
  else none

/-- The token of a word. -/
def ofWord? (word : List Char) : Option Token :=
  if word = ['n', 'u', 'l', 'l'] then some .null
  else if word = ['t', 'r', 'u', 'e'] then some (.bool true)
  else if word = ['f', 'a', 'l', 's', 'e'] then some (.bool false)
  else none

/-- A character between two tokens. -/
def start? (tokens : Array Token) (c : Char) : Option Scan :=
  if isBlank c then some ⟨tokens, .between⟩
  else if c = '"' then some ⟨tokens, .text []⟩
  else if c = '[' then some ⟨tokens.push .openArray, .between⟩
  else if c = ']' then some ⟨tokens.push .closeArray, .between⟩
  else if c = '\x7b' then some ⟨tokens.push .openObject, .between⟩
  else if c = '\x7d' then some ⟨tokens.push .closeObject, .between⟩
  else if c = ':' then some ⟨tokens.push .colon, .between⟩
  else if c = ',' then some ⟨tokens.push .comma, .between⟩
  else if c.isDigit ∨ c = '-' then some ⟨tokens, .number [c]⟩
  else if c.isAlpha then some ⟨tokens, .word [c]⟩
  else none

/-- One character of a text. -/
def step? (scan : Scan) (c : Char) : Option Scan :=
  match scan.mode with
  | .between => start? scan.tokens c
  | .text pieces =>
    if c = '"' then some ⟨scan.tokens.push (.text pieces.reverse), .between⟩
    else if c = '\\' then some ⟨scan.tokens, .escape pieces⟩
    else if c < ' ' then none
    else some ⟨scan.tokens, .text (.plain c :: pieces)⟩
  | .escape pieces =>
    if c = 'u' then some ⟨scan.tokens, .unit pieces 4 0⟩
    else (shortEscape? c).map fun e => ⟨scan.tokens, .text (.plain e :: pieces)⟩
  | .unit pieces owed value => do
    let value := 16 * value + (← hexValue? c)
    if owed = 1 then some ⟨scan.tokens, .text (.unit value :: pieces)⟩
    else some ⟨scan.tokens, .unit pieces (owed - 1) value⟩
  | .number chars =>
    if isNumeric c then some ⟨scan.tokens, .number (c :: chars)⟩
    else do start? (scan.tokens.push (.number (← NumberLiteral.ofChars? chars.reverse))) c
  | .word chars =>
    if c.isAlpha then some ⟨scan.tokens, .word (c :: chars)⟩
    else do start? (scan.tokens.push (← ofWord? chars.reverse)) c

/-- The tokens of a text. A text that ends inside a token has none. -/
def scan? (text : String) : Option (List Token) := do
  let scan ← text.toList.foldlM step? {}
  match scan.mode with
  | .between => some scan.tokens.toList
  | .number chars =>
    return (scan.tokens.push (.number (← NumberLiteral.ofChars? chars.reverse))).toList
  | .word chars => return (scan.tokens.push (← ofWord? chars.reverse)).toList
  | _ => none

end Token

-- ── Putting tokens together ──────────────────────────────────────────────────────

/-- An array or an object that is still open. -/
inductive Frame where
  | array (items : Array Form)
  /-- The members that are complete, and the key of the one that is not. -/
  | object (members : Array (TextLiteral × Form)) (key : TextLiteral)

/-- What may come next. -/
inductive Expect where
  | value
  /-- The first item of an array, or its end. -/
  | itemOrClose
  /-- The first key of an object, or its end. -/
  | keyOrClose
  | key
  | colon
  /-- A comma or the end of the innermost array or object. -/
  | commaOrClose
  /-- Nothing: the form is complete. -/
  | nothing (form : Form)

/-- The open arrays and objects, innermost first, and what may come next. -/
structure Assembly where
  frames : List Frame := []
  expect : Expect := .value

namespace Assembly

/-- A complete form goes into the innermost frame; without one the whole is complete. -/
def deliver (frames : List Frame) (form : Form) : Assembly :=
  match frames with
  | [] => ⟨[], .nothing form⟩
  | .array items :: outer => ⟨.array (items.push form) :: outer, .commaOrClose⟩
  | .object members key :: outer => ⟨.object (members.push (key, form)) [] :: outer, .commaOrClose⟩

/-- A token where a value may stand. -/
def value? (frames : List Frame) : Token → Option Assembly
  | .null => some (deliver frames .null)
  | .bool b => some (deliver frames (.bool b))
  | .number n => some (deliver frames (.number n))
  | .text t => some (deliver frames (.text t))
  | .openArray => some ⟨.array #[] :: frames, .itemOrClose⟩
  | .openObject => some ⟨.object #[] [] :: frames, .keyOrClose⟩
  | _ => none

/-- A token that ends the innermost frame. -/
def close? (frames : List Frame) (token : Token) : Option Assembly :=
  match frames, token with
  | .array items :: outer, .closeArray => some (deliver outer (.array items.toList))
  | .object members _ :: outer, .closeObject => some (deliver outer (.object members.toList))
  | _, _ => none

/-- A token where a key has to stand. -/
def key? (frames : List Frame) (token : Token) : Option Assembly :=
  match frames, token with
  | .object members _ :: outer, .text key => some ⟨.object members key :: outer, .colon⟩
  | _, _ => none

/-- One token. -/
def step? (assembly : Assembly) (token : Token) : Option Assembly :=
  let frames := assembly.frames
  match assembly.expect with
  | .value => value? frames token
  | .itemOrClose =>
    match token with
    | .closeArray => close? frames token
    | _ => value? frames token
  | .keyOrClose =>
    match token with
    | .closeObject => close? frames token
    | _ => key? frames token
  | .key => key? frames token
  | .colon =>
    match token with
    | .colon => some ⟨frames, .value⟩
    | _ => none
  | .commaOrClose =>
    match token, frames with
    | .comma, .array _ :: _ => some ⟨frames, .value⟩
    | .comma, .object .. :: _ => some ⟨frames, .key⟩
    | _, _ => close? frames token
  | .nothing _ => none

end Assembly

/-- The form that the tokens spell, all of them together. -/
def Form.ofTokens? (tokens : List Token) : Option Form := do
  let assembly ← tokens.foldlM Assembly.step? {}
  match assembly.expect with
  | .nothing form => some form
  | _ => none

/-- The form of a text. -/
def Form.ofText? (text : String) : Option Form := Token.scan? text >>= Form.ofTokens?

/-- The value of a text. -/
def parse (text : String) : Except JsonFault Json :=
  match Form.ofText? text >>= Form.resolve? maxDepth with
  | some value => .ok value
  | none => .error .malformed

end SegmentWire.Json

import SegmentWire.Json.Parser
import SegmentWire.Json.Printer
import SegmentWire.Limits

/-!
# Limits as JSON

Limits are an object with up to four members, or an array of up to four numbers in the same order.
Whatever is left out keeps its unbounded value. They are read from the text as written: a limit
that is given twice is refused, while the values of unknown members are not interpreted at all.

* **`Limits.ofJsonText`** — the limits of a text.
* **`Limits.toJsonText`** — the limits as text.
-/

namespace SegmentWire.Limits

open Json (Form TextLiteral)

/-- The four limits. -/
inductive Name where
  | payload
  | container
  | document
  | command
deriving DecidableEq, Repr

namespace Name

/-- The limits in order. -/
def all : List Name := [payload, container, document, command]

/-- The key of a limit. -/
def key : Name → String
  | payload => "max_payload_len"
  | container => "max_container_len"
  | document => "max_document_segments"
  | command => "max_command_len"

/-- The limit with a key. -/
def ofKey? (key : String) : Option Name := all.find? fun name => name.key == key

end Name

/-- The bound that a limit sets. -/
def get (limits : Limits) : Name → Nat
  | .payload => limits.payload
  | .container => limits.container
  | .document => limits.document
  | .command => limits.command

/-- The limits with one bound changed. -/
def set (limits : Limits) (bound : Nat) : Name → Limits
  | .payload => { limits with payload := bound }
  | .container => { limits with container := bound }
  | .document => { limits with document := bound }
  | .command => { limits with command := bound }

/-- A bound as written: a whole number of at most 64 bits without a sign. -/
def bound? : Form → Option Nat
  | .number n =>
    match n.resolve? with
    | some (.natural bound) => some bound.toNat
    | _ => none
  | _ => none

/-- One member of an object of limits. The limits that have already been given are in `given`. -/
def member? (read : Limits × List Name) (m : TextLiteral × Form) :
    Option (Limits × List Name) := do
  match Name.ofKey? (← m.1.resolve?) with
  | none => return read
  | some name =>
    if name ∈ read.2 then none
    return (read.1.set (← bound? m.2) name, name :: read.2)

/-- The limits in an object or an array. -/
def ofForm? : Form → Option Limits
  | .object members => (members.foldlM member? (unbounded, [])).map Prod.fst
  | .array bounds =>
    if bounds.length ≤ Name.all.length then
      (bounds.zip Name.all).foldlM
        (fun limits b => do return limits.set (← bound? b.1) b.2) unbounded
    else none
  | _ => none

/-- The limits of a JSON text. -/
def ofJsonText (text : String) : Except WireError Limits :=
  match Form.ofText? text with
  | none => .error (.json .malformed)
  | some form =>
    match ofForm? form with
    | some limits => .ok limits
    | none => .error (.json .unexpected)

/-- The limits as JSON, in order. -/
def toJson (limits : Limits) : Json :=
  .object (Name.all.map fun name => (name.key, .number (.natural (.ofNat (limits.get name)))))

/-- The limits as JSON text on one line. -/
def toJsonText (limits : Limits) : String := limits.toJson.render .compact

end SegmentWire.Limits

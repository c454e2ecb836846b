import SegmentWire.Document
import SegmentWire.Json.Parser
import SegmentWire.Json.Printer
import SegmentWire.Json.Typed
import SegmentWire.Message

/-!
# Documents and messages as JSON

A document is an object with the array of its `segments`; a message is an object with its `command`
and the array of its `attachments`, each with its `name` and its `field`. The array keeps the order
of the attachments, which an object would lose.

* **`Document.toJson`**, **`Document.ofJson`** — a document and back.
* **`TypedMessage`** — a message as JSON holds it.
* **`Message.toJson`**, **`Message.ofJson`**, **`Message.toJsonText`**, **`Message.ofJsonText`** — a
  message and back, as a value and as text.

Everything is typed before anything is built. Then members are added in order, and the first that
cannot be added decides the outcome.
-/

namespace SegmentWire

-- ── Documents ────────────────────────────────────────────────────────────────────

namespace Document

/-- The typed values of the members, unless one has none. -/
def typed (d : Document) : Except WireError (List TypedValue) :=
  d.members.toList.mapM Segment.typed

/-- The document of these typed values. -/
def ofTyped (values : List TypedValue) : Except WireError Document :=
  values.foldlM (fun d v => do d.push (← Segment.ofTyped v)) {}

/-- The JSON form of a document. -/
def toJson (d : Document) : Except WireError Json := do
  return .object [("segments", .array ((← d.typed).map TypedValue.toJson))]

/-- The typed values in the JSON form of a document. -/
def typedOfJson? : Json → Option (List TypedValue)
  | .object members => do (← (← Json.member? "segments" members).array?).mapM TypedValue.ofJson?
  | .array [segments] => do (← segments.array?).mapM TypedValue.ofJson?
  | _ => none

/-- The document of a JSON value. -/
def ofJson (value : Json) : Except WireError Document :=
  match typedOfJson? value with
  | some values => ofTyped values
  | none => .error (.json .unexpected)

end Document

-- ── Messages ─────────────────────────────────────────────────────────────────────

/-- A command and typed attachments in order. -/
structure TypedMessage where
  command : String
  attachments : List (String × TypedValue)

namespace TypedMessage

/-- The object of one attachment. -/
def attachmentToJson (attachment : String × TypedValue) : Json :=
  .object [("field", attachment.2.toJson), ("name", .text attachment.1)]

/-- The object of a typed message. -/
def toJson (m : TypedMessage) : Json :=
  .object [("attachments", .array (m.attachments.map attachmentToJson)),
    ("command", .text m.command)]

/-- The attachment of an object with a name and a field, or of the array of the two. -/
def attachmentOfJson? : Json → Option (String × TypedValue)
  | .object members => do
    let name ← (← Json.member? "name" members).text?
    return (name, ← TypedValue.ofJson? (← Json.member? "field" members))
  | .array [name, field] => do return (← name.text?, ← TypedValue.ofJson? field)
  | _ => none

/-- The attachments in an array of them. -/
def attachmentsOfJson? (value : Json) : Option (List (String × TypedValue)) := do
  (← value.array?).mapM attachmentOfJson?

/-- The typed message of an object with a command and, if there are any, attachments, or of the
    array of these. -/
def ofJson? : Json → Option TypedMessage
  | .object members => do
    let command ← (← Json.member? "command" members).text?
    match Json.member? "attachments" members with
    | some attachments => return ⟨command, ← attachmentsOfJson? attachments⟩
    | none => return ⟨command, []⟩
  | .array [command] => do return ⟨← command.text?, []⟩
  | .array [command, attachments] => do
    return ⟨← command.text?, ← attachmentsOfJson? attachments⟩
  | _ => none

end TypedMessage

namespace Message

/-- The typed form of a message, unless an attachment has none. -/
def typed (m : Message) : Except WireError TypedMessage := do
  let attachments ← m.attachments.entries.toList.mapM fun (name, field) => do
    return (name, ← field.segment.typed)
  return ⟨m.command, attachments⟩

/-- The message with one more typed attachment. A name that is already there is refused before
    the attachment is looked at. -/
def attachTyped (m : Message) (attachment : String × TypedValue) : Except WireError Message := do
  if m.attachments.contains attachment.1 then throw (.duplicateKey attachment.1)
  m.attachSegment attachment.1 (← Segment.ofTyped attachment.2)

/-- The message of a typed form. -/
def ofTyped (t : TypedMessage) : Except WireError Message :=
  t.attachments.foldlM attachTyped { command := t.command }

/-- The JSON form of a message. -/
def toJson (m : Message) : Except WireError Json := do
  return (← m.typed).toJson

/-- The message of a JSON value. -/
def ofJson (value : Json) : Except WireError Message :=
  match TypedMessage.ofJson? value with
  | some t => ofTyped t
  | none => .error (.json .unexpected)

/-- The JSON form of a message as indented text. -/
def toJsonText (m : Message) : Except WireError String := do
  return (← m.toJson).render .pretty

/-- The message of a JSON text. -/
def ofJsonText (text : String) : Except WireError Message := do
  match Json.parse text with
  | .ok value => ofJson value
  | .error fault => .error (.json fault)

end Message

end SegmentWire

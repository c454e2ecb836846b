import SegmentWire.FieldMap
import SegmentWire.Envelope
import SegmentWire.Sha256

/-!
# Messages — a command with named attachments

A message is an envelope around the command, a text of any length, and a map of attachments. The
count in its end marker is two, for the command and the map's index, and two more for every
attachment.

* **`Message`** — the command and the attachments, a dictionary by their names:
  **`Message.exchange`**, **`Message.withdraw`**, **`Message.attachment`**.
* **`Message.write`**, **`Message.flatten`**, **`readMessage`** — the wire form.
-/

namespace SegmentWire

/-- A command and its attachments. -/
structure Message where
  command : String := ""
  attachments : FieldMap := .empty

namespace Message

/-- Messages are compared by their commands and by the pairs of their attachments. -/
instance : BEq Message :=
  ⟨fun a b => a.command == b.command && a.attachments == b.attachments⟩

/-- Attaches a field under a name and gives back the one that was attached there before. -/
def exchange (m : Message) (name : String) (value : Field) : Option Field × Message :=
  let (previous, attachments) := m.attachments.exchange name value
  (previous, { m with attachments })

/-- The message with a field attached under a name, instead of any attached there before. -/
def attach (m : Message) (name : String) (value : Field) : Message := (m.exchange name value).2

/-- The message with a segment attached under a name; a container index is refused. -/
def attachSegment (m : Message) (name : String) (s : Segment) : Except WireError Message := do
  return m.attach name (← Field.ofSegment s)

/-- Takes the attachment of a name out and gives it back. -/
def withdraw (m : Message) (name : String) : Option Field × Message :=
  let (previous, attachments) := m.attachments.withdraw name
  (previous, { m with attachments })

/-- The message without the attachment of a name. -/
def detach (m : Message) (name : String) : Message := (m.withdraw name).2

/-- The attachment of a name. -/
def attachment (m : Message) (name : String) : Except WireError Field :=
  match m.attachments.get? name with
  | some field => .ok field
  | none => .error (.notFound name)

/-- The value of the attachment of a name, read as a given kind. -/
def get (m : Message) (name : String) (kind : Kind) : Except WireError Value := do
  (← m.attachment name).segment.get kind

/-- The count in the end marker. -/
def integrityCount (m : Message) : Nat := 2 + 2 * m.attachments.length

/-- The tag of the string that the command is written in. -/
def commandTag (m : Message) : Tag :=
  if m.command.utf8ByteSize ≤ maxRegular then .string else .hugeString

/-- The length of the encoding, markers included. -/
def size (m : Message) : Nat :=
  startLength + encodedLength m.commandTag m.command.utf8ByteSize + m.attachments.size + endLength

/-- Writes the start marker, the command, the attachments and the end marker. -/
def write (m : Message) : Writer Unit := do
  writeStart
  writeSegment m.commandTag (Utf8.encode m.command)
  m.attachments.write
  writeEnd m.integrityCount

/-- The command is written as the segment of its text. -/
theorem write_eq (m : Message) :
    m.write = writeStart >>= fun _ => (Segment.ofText m.command).write >>= fun _ =>
      m.attachments.write >>= fun _ => writeEnd m.integrityCount :=
  rfl

/-- The encoding of the message. -/
def flatten (m : Message) : Except WireError Bytes := m.write.bytes

/-- The fingerprint of the encoding. -/
def fingerprint (m : Message) : Except WireError String :=
  m.flatten.map SegmentWire.fingerprint

end Message

/-- A command, which has to be a string of either size class and within the limits. -/
def readCommand [Fetch] : Reader String := do
  let command ← readSegment
  if command.tag.isString = false then throw (.commandNotString command.tag)
  let limits ← read
  if limits.command < command.payload.length then
    throw (.commandLimit command.payload.length limits.command)
  (command.text : Except WireError String)

/-- One message. -/
def readMessage [Fetch] : Reader Message := do
  readStart
  let command ← readCommand
  let attachments ← readMap
  let message : Message := ⟨command, attachments⟩
  let marker ← readSegment
  (checkEnd marker message.integrityCount : Except WireError Unit)
  return message

/-- The message at the start of `bytes`, read within limits. -/
def Message.unflatten (bytes : Bytes) (limits : Limits := .unbounded) :
    Except WireError Message :=
  readMessage.ofBytes limits bytes

end SegmentWire

import SegmentWire.Bytes
import SegmentWire.Tag
import SegmentWire.Text.Quoted

/-!
# What can go wrong

Each constructor of **`WireError`** is one cause. **`WireError.kind`** groups the causes into the
fourteen kinds that callers tell apart by their codes, and **`WireError.message`** is the wording.
-/

namespace SegmentWire

/-- Why a JSON text does not give the value that was asked for, or a value has no JSON form. -/
inductive JsonFault where
  /-- The text is not JSON, nests too deeply, or holds a number past the range of doubles. -/
  | malformed
  /-- The JSON value has another form than the one asked for. -/
  | unexpected
  /-- A binary payload is not canonical base64. -/
  | badBase64
  /-- JSON numbers express neither NaN nor infinities; `shown` is the value as text. -/
  | notFinite (tag : Tag) (shown : String)
deriving DecidableEq, Repr

/-- A cause of failure. -/
inductive WireError where
  /-- The first byte of a segment is no tag. -/
  | unknownTag (code : UInt8)
  /-- A scanned buffer ends inside a size field. -/
  | truncatedSize
  /-- A scanned segment declares no payload. -/
  | emptySegment (tag : Tag)
  /-- A payload has the wrong width, or an envelope's count differs from what was read. -/
  | sizeMismatch (expected actual : Nat)
  /-- A value was read as another type than its own. -/
  | typeMismatch (expected found : Tag)
  /-- The input ended before the declared number of bytes. -/
  | shortRead (needed got : Nat)
  /-- The sink takes no more bytes. -/
  | sinkFull
  /-- The source failed instead of ending. -/
  | sourceFailed
  /-- A map key is something else than a regular string segment. -/
  | keyNotString (found : Tag)
  /-- A map key is too long for a regular string segment. -/
  | keyTooLong (length : Nat)
  /-- A map holds a key twice. -/
  | duplicateKey (key : String)
  /-- A container index stands where only plain fields may. -/
  | nestedContainer (tag : Tag)
  /-- An envelope does not begin with a start marker. -/
  | startExpected (found : Tag)
  /-- An envelope has an unknown version. -/
  | unknownVersion (version : UInt8)
  /-- An envelope's body is not followed by an end marker. -/
  | endExpected (found : Tag)
  /-- A message's command is no text. -/
  | commandNotString (found : Tag)
  /-- An end marker was offered as a document member. -/
  | endMarkerMember
  /-- The free-standing encoder was given no payload. -/
  | emptyPayload (tag : Tag)
  /-- A message has no attachment of this name. -/
  | notFound (name : String)
  /-- A text payload is not UTF-8. -/
  | notUtf8 (tag : Tag)
  /-- A payload is longer than the limits allow. -/
  | payloadLimit (tag : Tag) (length limit : Nat)
  /-- A container has more members than the limits allow. -/
  | containerLimit (count limit : Nat)
  /-- A document has more members than the limits allow. -/
  | documentLimit (limit : Nat)
  /-- A command is longer than the limits allow. -/
  | commandLimit (length limit : Nat)
  /-- The JSON view failed. -/
  | json (fault : JsonFault)
deriving DecidableEq, Repr

/-- The kinds of failure that callers tell apart. -/
inductive ErrorKind where
  | invalidSegment
  | sizeMismatch
  | typeMismatch
  | shortRead
  | io
  | invalidKey
  | duplicateKey
  | invalidContainer
  | invalidMessage
  | emptyPayload
  | notFound
  | utf8
  | limit
  | json
deriving DecidableEq, Repr

/-- The stable code of a kind. -/
def ErrorKind.code : ErrorKind → String
  | invalidSegment => "ERR_INVALID_SEGMENT"
  | sizeMismatch => "ERR_SIZE_MISMATCH"
  | typeMismatch => "ERR_TYPE_MISMATCH"
  | shortRead => "ERR_SHORT_READ"
  | io => "ERR_IO"
  | invalidKey => "ERR_INVALID_KEY"
  | duplicateKey => "ERR_DUP_KEY"
  | invalidContainer => "ERR_INVALID_CONTAINER"
  | invalidMessage => "ERR_INVALID_MESSAGE"
  | emptyPayload => "ERR_EMPTY_PAYLOAD"
  | notFound => "ERR_NOT_FOUND"
  | utf8 => "ERR_UTF8"
  | limit => "ERR_LIMIT"
  | json => "ERR_JSON"

/-- The wording of a JSON fault. -/
def JsonFault.message : JsonFault → String
  | malformed => "malformed text"
  | unexpected => "unexpected form"
  | badBase64 => "bad base64 payload"
  | notFinite tag shown => tag.name ++ " value " ++ shown ++ " has no JSON number form"

namespace WireError

/-- The kind that a cause belongs to. -/
def kind : WireError → ErrorKind
  | unknownTag _ | truncatedSize | emptySegment _ => .invalidSegment
  | sizeMismatch .. => .sizeMismatch
  | typeMismatch .. => .typeMismatch
  | shortRead .. => .shortRead
  | sinkFull | sourceFailed => .io
  | keyNotString _ | keyTooLong _ => .invalidKey
  | duplicateKey _ => .duplicateKey
  | nestedContainer _ => .invalidContainer
  | startExpected _ | unknownVersion _ | endExpected _ | commandNotString _ | endMarkerMember =>
    .invalidMessage
  | emptyPayload _ => .emptyPayload
  | notFound _ => .notFound
  | notUtf8 _ => .utf8
  | payloadLimit .. | containerLimit .. | documentLimit _ | commandLimit .. => .limit
  | json _ => .json

/-- The wording of a cause without the words that its whole kind shares. -/
def detail : WireError → String
  | unknownTag code => "unknown tag 0x" ++ hexByte code
  | truncatedSize => "truncated size field"
  | emptySegment tag => tag.name ++ " segment with empty payload"
  | sizeMismatch expected actual =>
    "expected " ++ toString expected ++ ", got " ++ toString actual
  | typeMismatch expected found => "expected " ++ expected.name ++ ", found " ++ found.name
  | shortRead needed got =>
    "needed " ++ toString needed ++ " bytes, got " ++ toString got
  | sinkFull => "sink full"
  | sourceFailed => "source failed"
  | keyNotString found => "map key must be a String segment, found " ++ found.name
  | keyTooLong length =>
    "key of " ++ toString length ++ " bytes does not fit a string segment"
  | duplicateKey key => "duplicate map key " ++ Text.quoted key
  | nestedContainer tag =>
    "container segment " ++ tag.name ++ " cannot be nested in a container"
  | startExpected found => "expected DocumentStart, found " ++ found.name
  | unknownVersion version => "unsupported envelope version " ++ toString version.toNat
  | endExpected found => "expected DocumentEnd, found " ++ found.name
  | commandNotString found => "command code must be a String segment, found " ++ found.name
  | endMarkerMember => "DocumentEnd cannot be a document member"
  | emptyPayload tag => "empty payload for " ++ tag.name ++ " segment"
  | notFound name => "attachment " ++ Text.quoted name ++ " not found"
  | notUtf8 tag => "payload of " ++ tag.name ++ " segment is not valid UTF-8"
  | payloadLimit tag length limit =>
    tag.name ++ " payload of " ++ toString length ++ " bytes exceeds " ++ toString limit
  | containerLimit count limit =>
    "container of " ++ toString count ++ " members exceeds " ++ toString limit
  | documentLimit limit => "document exceeds " ++ toString limit ++ " segments"
  | commandLimit length limit =>
    "command code of " ++ toString length ++ " bytes exceeds " ++ toString limit
  | json fault => fault.message

/-- The words that every message of a kind begins with. -/
def heading : ErrorKind → String
  | .invalidSegment => "invalid segment: "
  | .sizeMismatch => "size mismatch: "
  | .typeMismatch => "type mismatch: "
  | .shortRead => "short read: "
  | .io => "i/o error: "
  | .invalidKey => "invalid map key: "
  | .invalidMessage => "invalid message: "
  | .limit => "limit exceeded: "
  | .json => "json: "
  | .duplicateKey | .invalidContainer | .emptyPayload | .notFound | .utf8 => ""

/-- The wording of a cause. -/
def message (e : WireError) : String := heading e.kind ++ e.detail

end WireError

/-- The tag with this byte; any other byte is refused. -/
def Tag.ofCode (code : UInt8) : Except WireError Tag :=
  match Tag.ofCode? code with
  | some tag => .ok tag
  | none => .error (.unknownTag code)

end SegmentWire

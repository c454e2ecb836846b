import SegmentWire.Error

/-!
# Sinks — where encodings are written

A sink keeps what it took. It may have room for a limited number of bytes: a write that needs
more than the room fills it, and fails.

* **`Writer`** — an action that writes to a sink and may fail; what was taken before a failure
  stays taken.
* **`Sink.put`** — the one primitive write.
* **`Writer.bytes`** — what an action writes to a sink without a limit.
-/

namespace SegmentWire

/-- The bytes taken so far, and how many more there is room for; no room given means no limit. -/
structure Sink where
  taken : Array UInt8 := #[]
  room : Option Nat := none
deriving DecidableEq

/-- An action that writes to a sink and may fail. -/
abbrev Writer := ExceptT WireError (StateM Sink)

/-- Takes these bytes, or as many of them as there is room for. -/
def Sink.put (bytes : Bytes) : Writer Unit := fun sink =>
  match sink.room with
  | none => (.ok (), { sink with taken := sink.taken ++ bytes })
  | some room =>
    if bytes.length ≤ room then
      (.ok (), ⟨sink.taken ++ bytes, some (room - bytes.length)⟩)
    else (.error .sinkFull, ⟨sink.taken ++ bytes.take room, some 0⟩)

namespace Writer

/-- The outcome of an action on a fresh sink with room for `cap` bytes, and what the sink took. -/
def runCapped (action : Writer Unit) (cap : Option Nat) : Except WireError Unit × Bytes :=
  let (outcome, sink) := action.run { room := cap }
  (outcome, sink.taken.toList)

/-- The bytes that an action writes when nothing limits the sink. -/
def bytes (action : Writer Unit) : Except WireError Bytes :=
  match action.runCapped none with
  | (.ok (), taken) => .ok taken
  | (.error e, _) => .error e

end Writer

end SegmentWire

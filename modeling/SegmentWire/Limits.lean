import SegmentWire.Tag

/-!
# Limits — bounds on what a reader accepts

The format itself allows payloads and containers of up to `2 ^ 64 - 1`. A reader that does not
trust its input takes tighter bounds.
-/

namespace SegmentWire

/-- Upper bounds that a reader enforces. -/
structure Limits where
  /-- The longest payload of a text or a binary, in bytes. -/
  payload : Nat
  /-- The most members of a list, or pairs of a map. -/
  container : Nat
  /-- The most members of a document. -/
  document : Nat
  /-- The longest command of a message, in bytes. -/
  command : Nat
deriving DecidableEq, Repr

/-- The bounds that accept everything the format can state. -/
def Limits.unbounded : Limits := ⟨maxWord, maxWord, maxWord, maxWord⟩

end SegmentWire

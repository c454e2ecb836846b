import SegmentWire.Bytes

/-!
# UTF-8 — the bytes of a text, read strictly or leniently

Text travels as its UTF-8 bytes. A strict reading refuses anything else; a lenient one, which
serves previews only, shows each maximal part that cannot belong to any text as one U+FFFD.

* **`Utf8.encode`**, **`Utf8.decode?`** — the bytes of a text, and the text of those bytes.
* **`Utf8.lossy`** — the lenient reading. It runs a machine of two states: between characters,
  or inside one (`Unfinished`) that still owes continuation bytes.
-/

namespace SegmentWire.Utf8

/-- The UTF-8 bytes of a text. -/
def encode (text : String) : Bytes :=
  text.toByteArray.data.toList

/-- The text that these bytes encode, or none if they are not UTF-8. -/
def decode? (bytes : Bytes) : Option String :=
  String.fromUTF8? ⟨bytes.toArray⟩

-- ── The lenient reading ──────────────────────────────────────────────────────────

/-- What a malformed part is shown as. -/
def replacement : Char := '\uFFFD'

/-- A character whose first bytes have been read: the bits so far, how many continuation bytes
    it still owes, and the range that the next one has to lie in. -/
structure Unfinished where
  bits : Nat
  owed : Nat
  low : UInt8
  high : UInt8

/-- What a byte between two characters means. -/
inductive Lead where
  /-- A character of one byte. -/
  | single (c : Char)
  /-- The first byte of a longer character. -/
  | opening (start : Unfinished)
  /-- No character starts with this byte. -/
  | none

/-- The meaning of a byte between two characters. The narrowed ranges after `E0`, `ED`, `F0`
    and `F4` rule out overlong forms, surrogates and code points past `10FFFF`. -/
def lead (b : UInt8) : Lead :=
  let n := b.toNat
  if n < 0x80 then .single (Char.ofNat n)
  else if n < 0xC2 then .none
  else if n < 0xE0 then .opening ⟨n - 0xC0, 1, 0x80, 0xBF⟩
  else if n = 0xE0 then .opening ⟨0, 2, 0xA0, 0xBF⟩
  else if n = 0xED then .opening ⟨0xD, 2, 0x80, 0x9F⟩
  else if n < 0xF0 then .opening ⟨n - 0xE0, 2, 0x80, 0xBF⟩
  else if n = 0xF0 then .opening ⟨0, 3, 0x90, 0xBF⟩
  else if n < 0xF4 then .opening ⟨n - 0xF0, 3, 0x80, 0xBF⟩
  else if n = 0xF4 then .opening ⟨4, 3, 0x80, 0x8F⟩
  else .none

/-- One byte between two characters: what is shown for it, and the character it opens. -/
def start (b : UInt8) : List Char × Option Unfinished :=
  match lead b with
  | .single c => ([c], none)
  | .opening p => ([], some p)
  | .none => ([replacement], none)

/-- One byte of the lenient reading: what is shown for it and the state after it. A byte that
    cannot continue the open character ends it as malformed and is read again on its own. -/
def step : Option Unfinished → UInt8 → List Char × Option Unfinished
  | none, b => start b
  | some p, b =>
    if p.low ≤ b ∧ b ≤ p.high then
      let bits := p.bits * 64 + (b.toNat - 0x80)
      if p.owed = 1 then ([Char.ofNat bits], none)
      else ([], some ⟨bits, p.owed - 1, 0x80, 0xBF⟩)
    else
      let (shown, next) := start b
      (replacement :: shown, next)

/-- The characters shown for `bytes` from a given state. A character left open at the end is
    malformed. -/
def lossyFrom : Option Unfinished → Bytes → List Char
  | none, [] => []
  | some _, [] => [replacement]
  | state, b :: rest => (step state b).1 ++ lossyFrom (step state b).2 rest

/-- The lenient reading: valid characters as they are, and one U+FFFD for each maximal malformed
    part. -/
def lossy (bytes : Bytes) : String :=
  String.ofList (lossyFrom none bytes)

example : lossy [0x61, 0xE2, 0x82, 0x62, 0xED, 0xA0] = "a\uFFFDb\uFFFD\uFFFD" := by decide +kernel

end SegmentWire.Utf8

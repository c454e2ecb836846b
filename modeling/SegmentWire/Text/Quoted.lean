import SegmentWire.Text.Unprintable
import SegmentWire.Text.Extending
import SegmentWire.Text.Ignorable

/-!
# Quoted text — a name shown inside a sentence

Between double quotes, with a backslash before a quote and before a backslash, short escapes
for NUL, tab, carriage return and line feed, and the code point in hexadecimal for every other
character that would not be seen as itself. Main function: **`Text.quoted`**.
-/

namespace SegmentWire.Text

/-- The digits of `n` in lower-case hexadecimal, without leading zeros. -/
def hexDigits (n : Nat) : String :=
  String.ofList (Nat.toDigits 16 n)

/-- Characters that are shown by their code point: those without a printed form, marks that extend
    the character before them, and those that show nothing. -/
def isHidden (c : Char) : Bool :=
  unprintable.contains c || extending.contains c || ignorable.contains c

example : isHidden '\u115F' = true ∧ isHidden '\u1161' = false ∧ isHidden '\u0301' = true ∧
    isHidden '\uFF9E' = false ∧ isHidden '\uFF9F' = false := by decide +kernel

/-- One character of a quoted text. -/
def quotedChar (c : Char) : String :=
  if c = '\x00' then "\\0"
  else if c = '\t' then "\\t"
  else if c = '\r' then "\\r"
  else if c = '\n' then "\\n"
  else if c = '"' then "\\\""
  else if c = '\\' then "\\\\"
  else if ' ' ≤ c && c ≤ '~' then c.toString
  else if isHidden c then "\\u\x7b" ++ hexDigits c.toNat ++ "\x7d"
  else c.toString

/-- A text between double quotes, every character as `quotedChar` gives it. -/
def quoted (text : String) : String :=
  text.toList.foldl (fun shown c => shown ++ quotedChar c) "\"" ++ "\""

example : quoted "a\"b\n\u0301" = "\"a\\\"b\\n\\u\x7b301\x7d\"" := by decide +kernel

end SegmentWire.Text

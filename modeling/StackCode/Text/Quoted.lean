import StackCode.Text.CharClass
import StackCode.Text.Digits

namespace StackCode.Text

/-!
# Quoted text

* `quote` — text between double quotes; what has no glyph is written by its code point.
* `quoteBytes` — bytes between double quotes; what is not printable ASCII is written in hex.
-/

/-- The double quote. -/
def doubleQuote : Char := '\x22'

/-- The single quote. -/
def singleQuote : Char := '\x27'

/-- How a character is written between double quotes. -/
def quoteChar (c : Char) : List Char :=
  if c = '\x00' then ['\\', '0']
  else if c = '\t' then ['\\', 't']
  else if c = '\r' then ['\\', 'r']
  else if c = '\n' then ['\\', 'n']
  else if c = '\\' || c = doubleQuote then ['\\', c]
  else if isPrintable c then [c]
  else ['\\', 'u', '\x7b'] ++ (hex c.toNat).toList ++ ['\x7d']

/-- How a byte is written between double quotes. -/
def quoteByte (b : UInt8) : List Char :=
  let c := Char.ofNat b.toNat
  if c = '\t' then ['\\', 't']
  else if c = '\r' then ['\\', 'r']
  else if c = '\n' then ['\\', 'n']
  else if c = '\\' || c = doubleQuote || c = singleQuote then ['\\', c]
  else if 32 ≤ b && b < 127 then [c]
  else ['\\', 'x'] ++ (hexByte b).toList

/-- Text between double quotes. -/
def quote (s : String) : List Char :=
  doubleQuote :: s.toList.flatMap quoteChar ++ [doubleQuote]

/-- Bytes between double quotes. -/
def quoteBytes (bs : List UInt8) : List Char :=
  doubleQuote :: bs.flatMap quoteByte ++ [doubleQuote]

end StackCode.Text

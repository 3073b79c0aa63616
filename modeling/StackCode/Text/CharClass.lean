import StackCode.Text.CharClass.Unprintable
import StackCode.Text.CharClass.Extend
import StackCode.Text.CharClass.Alphabetic
import StackCode.Text.CharClass.Numeric

namespace StackCode.Text

/-!
# Classes of characters

* `isBlank` — white space in the sense of the property White_Space.
* `isLetter`, `isAlnum` — letters; letters and numbers.
* `isPrintable` — characters that stand for themselves in quoted text.

ASCII is decided by comparison, everything beyond it by the tables of `CharClass`.
-/

/-- Some range holds the code point `n`. -/
def CharClass.holds (ranges : List (Nat × Nat)) (n : Nat) : Bool :=
  ranges.any fun r => r.1 ≤ n && n ≤ r.2

/-- The white space beyond ASCII. -/
def CharClass.blank : List (Nat × Nat) :=
  [(0x85, 0x85), (0xA0, 0xA0), (0x1680, 0x1680), (0x2000, 0x200A), (0x2028, 0x2029),
   (0x202F, 0x202F), (0x205F, 0x205F), (0x3000, 0x3000)]

/-- Blank, tab, line feed, vertical tab, form feed, carriage return and the white space of
    Unicode. -/
def isBlank (c : Char) : Bool :=
  if c.val < 128 then c.val = 32 || (9 ≤ c.val && c.val ≤ 13)
  else CharClass.holds CharClass.blank c.toNat

/-- A letter of some script. -/
def isLetter (c : Char) : Bool :=
  if c.val < 128 then c.isAlpha else CharClass.holds CharClass.alphabetic c.toNat

/-- A letter or a number of some script. -/
def isAlnum (c : Char) : Bool :=
  if c.val < 128 then c.isAlphanum
  else CharClass.holds CharClass.alphabetic c.toNat || CharClass.holds CharClass.numeric c.toNat

/-- Has a glyph of its own; a character that extends the one before has none. -/
def isPrintable (c : Char) : Bool :=
  if c.val < 127 then 32 ≤ c.val
  else !CharClass.holds CharClass.extend c.toNat && !CharClass.holds CharClass.unprintable c.toNat

/-- Drops the blanks at both ends. -/
def trim (cs : List Char) : List Char :=
  ((cs.dropWhile isBlank).reverse.dropWhile isBlank).reverse

end StackCode.Text

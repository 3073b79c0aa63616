import StackCode.Binary64
import StackCode.Text.Numeral

namespace StackCode.Decimal

/-!
# Reading decimal numbers

* `read?` — an optional sign, then `inf`, `infinity` or `nan` in any case, or digits with an
  optional point and an optional power of ten.  Digits stand before the point, after it or both.
-/

/-- The number nearest to `digits * 10 ^ exponent`.  Far outside the range of the format the power
    is not computed: `count` is at least the number of digits. -/
def nearest (digits : Nat) (count : Nat) (exponent : Int) : Binary64 :=
  if digits = 0 then ⟨0⟩
  else if 400 < exponent then .infinity
  else if exponent + count < -400 then ⟨0⟩
  else .ofRatio (digits * Nat.pow 10 exponent.toNat) (Nat.pow 10 (-exponent).toNat)

/-- Reads `e` and an optionally signed exponent, or nothing. -/
def readExponent? : List Char → Option Int
  | [] => some 0
  | c :: cs => if c = 'e' || c = 'E' then Text.readInt? cs else none

/-- Reads digits, an optional point with digits after it, and an optional exponent. -/
def readDigits? (cs : List Char) : Option Binary64 := do
  let whole := cs.takeWhile Char.isDigit
  let rest := cs.dropWhile Char.isDigit
  let afterPoint := match rest with
    | '.' :: more => more
    | _ => []
  let places := afterPoint.takeWhile Char.isDigit
  let tail := if rest.head? = some '.' then afterPoint.dropWhile Char.isDigit else rest
  let digits ← Text.readNat? (whole ++ places)
  let exponent ← readExponent? tail
  return nearest digits (whole.length + places.length) (exponent - places.length)

/-- Reads a number without a sign. -/
def readUnsigned? (cs : List Char) : Option Binary64 :=
  let word := String.ofList (cs.map Char.toLower)
  if word = "inf" || word = "infinity" then some .infinity
  else if word = "nan" then some .nan
  else readDigits? cs

/-- The float nearest to a decimal number. -/
def read? : List Char → Option Binary64
  | '-' :: cs => (readUnsigned? cs).map Binary64.neg
  | '+' :: cs => readUnsigned? cs
  | cs => readUnsigned? cs

end StackCode.Decimal

import StackCode.Json

namespace StackCode.Json

/-!
# Numbers of documents

A number without fraction and exponent is an integer if 64 bits hold it.  Any other number becomes
a floating-point number in two roundings: its leading digits, as many as 64 bits hold, are rounded
first, and then their product with a power of ten or their quotient by one.

* `readNumber?` — reads a number and hands back what follows it.
* `gather` — the digits that 64 bits hold.
* `scale?` — multiplies a number by a power of ten.
-/

/-- Appends digits to those of `significand` while 64 bits hold the result, and hands back the
    digits that are left. -/
def gather (significand : Nat) : List Char → Nat × List Char
  | [] => (significand, [])
  | c :: cs =>
    let next := 10 * significand + (c.toNat - 48)
    if next < UInt64.size then gather next cs else (significand, c :: cs)

/-- The largest power of ten that one step of `scale?` takes. -/
def largestPower : Nat := 308

/-- The power `10 ^ e` as a floating-point number. -/
def power (e : Nat) : Binary64 := .ofRatio (Nat.pow 10 e) 1

/-- The number `x` times `10 ^ e`, or nothing if it is too large.  An exponent far below zero is
    taken in steps. -/
def scale? (x : Binary64) (e : Int) : Option Binary64 :=
  if x.isZero then some x
  else if 0 ≤ e then
    if e.toNat ≤ largestPower then
      let y := x.mul (power e.toNat)
      if y.isInfinite then none else some y
    else none
  else if e.natAbs ≤ largestPower then some (x.div (power e.natAbs))
  else scale? (x.div (power largestPower)) (e + largestPower)
termination_by e.natAbs
decreasing_by simp only [largestPower] at *; omega

/-- The decimal point and the digits behind it, of which there has to be one; or nothing. -/
def readPlaces? : List Char → Option (List Char × List Char)
  | '.' :: cs =>
    let places := cs.takeWhile Char.isDigit
    if places.isEmpty then none else some (places, cs.dropWhile Char.isDigit)
  | cs => some ([], cs)

/-- The exponent behind `e`, of which there has to be a digit; or nothing. -/
def readExponent? (cs : List Char) : Option (Option Int × List Char) :=
  match cs with
  | [] => some (none, [])
  | c :: rest =>
    if c = 'e' || c = 'E' then
      let (negative, rest) := match rest with
        | '-' :: more => (true, more)
        | '+' :: more => (false, more)
        | more => (false, more)
      (Text.readNat? (rest.takeWhile Char.isDigit)).map fun n =>
        (some (if negative then -(n : Int) else n), rest.dropWhile Char.isDigit)
    else some (none, cs)

/-- The integer of a sign and digits, if 64 bits hold it; negative zero is none. -/
def integer? (negative : Bool) (significand : Nat) : Option Int :=
  if negative then
    if significand = 0 ∨ 0x8000000000000000 < significand then none else some (-(significand : Int))
  else some significand

/-- Reads a number without its sign. -/
def readUnsigned? (negative : Bool) (cs : List Char) : Option (Number × List Char) := do
  let whole := cs.takeWhile Char.isDigit
  if whole.isEmpty || (whole.head? = some '0' && 1 < whole.length) then none
  let (places, rest) ← readPlaces? (cs.dropWhile Char.isDigit)
  let (exponent, rest) ← readExponent? rest
  let (leading, dropped) := gather 0 whole
  match places.isEmpty && exponent.isNone && dropped.isEmpty, integer? negative leading with
  | true, some i => return (.int i, rest)
  | _, _ =>
    let (significand, unused) := gather leading places
    let shift : Int := dropped.length - (places.length - unused.length : Nat)
    let x ← scale? (.ofRatio significand 1) (exponent.getD 0 + shift)
    return (.float (if negative then x.neg else x), rest)

/-- Reads a number: an optional minus sign, digits without a leading zero, an optional fraction and
    an optional exponent. -/
def readNumber? : List Char → Option (Number × List Char)
  | '-' :: cs => readUnsigned? true cs
  | cs => readUnsigned? false cs

end StackCode.Json

import StackCode.Binary64
import StackCode.Text.Numeral

namespace StackCode.Decimal

/-!
# The decimal text of a floating-point number

* `shortest` — the fewest digits that only the given number rounds to, and of those the nearest.
* `text` — positional notation without an exponent; a whole number has all its digits and `.0`.
-/

/-- A positive decimal number `digits * 10 ^ exponent`. -/
structure Scaled where
  digits : Nat
  exponent : Int
  deriving DecidableEq, Repr, Inhabited

/-- The rounding interval of a positive finite number, in quarters of its last place: the number
    is `4 * m` of them, and the interval reaches `below` down and `2` up.  Its ends belong to it
    when `m` is even. -/
def below (x : Binary64) : Nat :=
  if x.significand = 0x10000000000000 ∧ 1 < x.expField then 1 else 2

/-- The point of the grid `10 ^ e` that is nearest to `x` among those that round to `x`.  With
    quarters of the last place of `x` as the unit, the grid's spacing is `step / unit`. -/
def onGrid? (x : Binary64) (e : Int) : Option Scaled :=
  let quarter := x.exponent - 2
  let unit := Nat.pow 10 e.toNat <<< (-quarter).toNat
  let scale := Nat.pow 10 (-e).toNat <<< quarter.toNat
  let value := 4 * x.significand * scale
  let low := (4 * x.significand - below x) * scale
  let high := (4 * x.significand + 2) * scale
  let inside := fun point => if x.significand % 2 = 0 then low ≤ point ∧ point ≤ high
    else low < point ∧ point < high
  let down := value / unit
  let rest := value % unit
  if inside (down * unit) ∧ (2 * rest < unit ∨ ¬ inside ((down + 1) * unit)) then
    some ⟨down, e⟩
  else if inside ((down + 1) * unit) then some ⟨down + 1, e⟩
  else none

/-- The decimal number of the coarsest grid that has a point which rounds to `x`. -/
def shortest (x : Binary64) : Scaled :=
  ((List.range 660).findSome? fun i : Nat => onGrid? x (310 - i)).getD ⟨0, 0⟩

/-- Positional notation of `digits * 10 ^ exponent`. -/
def Scaled.positional (d : Scaled) : List Char :=
  let digits := Text.ofNat d.digits
  if 0 ≤ d.exponent then digits ++ List.replicate d.exponent.toNat '0'
  else
    let places := (-d.exponent).toNat
    let padded := List.replicate (places + 1 - digits.length) '0' ++ digits
    padded.take (padded.length - places) ++ '.' :: padded.drop (padded.length - places)

/-- The text of a number that is not a NaN, without its sign. -/
def magnitude (x : Binary64) : List Char :=
  if x.isInfinite then ['i', 'n', 'f']
  else if x.isWhole then Text.ofNat x.wholePart ++ ['.', '0']
  else (shortest x.abs).positional

/-- The float in positional notation, behind its sign. -/
def text (x : Binary64) : List Char :=
  if x.isNaN then ['N', 'a', 'N']
  else if x.isNegative then '-' :: magnitude x
  else magnitude x

end StackCode.Decimal

namespace StackCode

/-!
# Binary floating point

Numbers of 64 bits in the binary interchange format, kept as their bits, so that the sign of zero
and the payload of a NaN are values like any other.

* `Binary64` — the bits; two are equal when their bits are.
* `Binary64.significand`, `Binary64.exponent` — a finite number is `± significand * 2 ^ exponent`.
* `Binary64.ofRatio` — the number nearest to a quotient, an even significand where two are.
* `Binary64.add`, …, `Binary64.rem` — arithmetic that hands a NaN operand on.
-/

/-- The bits of a floating-point number. -/
structure Binary64 where
  bits : UInt64
  deriving DecidableEq, Repr, Inhabited

namespace Binary64

/-- The sign bit is set. -/
def isNegative (x : Binary64) : Bool := 0x8000000000000000 ≤ x.bits

/-- The number without its sign. -/
def abs (x : Binary64) : Binary64 := ⟨x.bits &&& 0x7FFFFFFFFFFFFFFF⟩

/-- The number with its sign turned, a NaN included. -/
def neg (x : Binary64) : Binary64 := ⟨x.bits ^^^ 0x8000000000000000⟩

/-- The exponent is the greatest, and there is a fraction. -/
def isNaN (x : Binary64) : Bool := 0x7FF0000000000000 < x.abs.bits

/-- The exponent is the greatest, and there is no fraction. -/
def isInfinite (x : Binary64) : Bool := x.abs.bits = 0x7FF0000000000000

/-- Neither infinite nor a NaN. -/
def isFinite (x : Binary64) : Bool := x.abs.bits < 0x7FF0000000000000

/-- Either zero. -/
def isZero (x : Binary64) : Bool := x.abs.bits = 0

/-- The exponent field. -/
def expField (x : Binary64) : Nat := (x.abs.bits >>> 52).toNat

/-- The fraction field. -/
def fraction (x : Binary64) : Nat := (x.bits &&& 0xFFFFFFFFFFFFF).toNat

/-- The integer `m` of a finite number `± m * 2 ^ q`. -/
def significand (x : Binary64) : Nat :=
  if x.expField = 0 then x.fraction else x.fraction + 0x10000000000000

/-- The exponent `q` of a finite number `± m * 2 ^ q`. -/
def exponent (x : Binary64) : Int := (max x.expField 1 : Nat) - 1075

/-- A finite number without a fractional part. -/
def isWhole (x : Binary64) : Bool :=
  x.isFinite && x.significand % (1 <<< (-x.exponent).toNat) = 0

/-- The integer part of a finite number without its sign. -/
def wholePart (x : Binary64) : Nat :=
  x.significand <<< x.exponent.toNat >>> (-x.exponent).toNat

/-- The positive infinity. -/
def infinity : Binary64 := ⟨0x7FF0000000000000⟩

/-- The quiet NaN without a payload. -/
def nan : Binary64 := ⟨0x7FF8000000000000⟩

/-- The NaN of an operation that has no value. -/
def invalid : Binary64 := nan.neg

/-- The NaN `x` with its quiet bit set. -/
def quiet (x : Binary64) : Binary64 := ⟨x.bits ||| 0x8000000000000⟩

/-! ### Rounding -/

/-- The integer nearest to `num / den`, the even one where two are. -/
def roundHalfEven (num den : Nat) : Nat :=
  let q := num / den
  let r := num % den
  if 2 * r < den then q else if den < 2 * r then q + 1 else q + q % 2

/-- The exponent of the numbers around `num / den`: the one that gives a significand of 53 bits,
    but none below `-1074`. -/
def scaleOf (num den : Nat) : Int :=
  let q : Int := (Nat.log2 num : Int) - Nat.log2 den - 52
  let tooLarge := num <<< (-q).toNat < den <<< (q.toNat + 52)
  max (if tooLarge then q - 1 else q) (-1074)

/-- The number nearest to `num / den`, for a positive `den`.  A significand that rounding carries
    over to `2 ^ 53` raises the exponent field by itself. -/
def ofRatio (num den : Nat) : Binary64 :=
  if num = 0 then ⟨0⟩
  else
    let q := scaleOf num den
    let m := roundHalfEven (num <<< (-q).toNat) (den <<< q.toNat)
    let bits := (q + 1074).toNat <<< 52 + m
    if bits < 0x7FF0000000000000 then ⟨UInt64.ofNat bits⟩ else infinity

/-- The number nearest to `m * 2 ^ q`, for a `q` of at least `-1074`. -/
def ofScaled (m : Nat) (q : Int) : Binary64 :=
  ofRatio (m <<< q.toNat) (1 <<< (-q).toNat)

/-- The number nearest to `i`. -/
def ofInt (i : Int) : Binary64 :=
  let x := ofRatio i.natAbs 1
  if i < 0 then x.neg else x

/-! ### Arithmetic -/

/-- The native number of the same bits. -/
def toFloat (x : Binary64) : Float := Float.ofBits x.bits

/-- The number of the same bits as a native one. -/
def ofFloat (f : Float) : Binary64 := ⟨f.toBits⟩

/-- The result of `op`, where a NaN operand is handed on, the first of two, and a result without a
    value is `invalid`. -/
def lift₂ (op : Float → Float → Float) (x y : Binary64) : Binary64 :=
  if x.isNaN then x.quiet
  else if y.isNaN then y.quiet
  else
    let z := ofFloat (op x.toFloat y.toFloat)
    if z.isNaN then invalid else z

/-- The sum, rounded once. -/
def add (x y : Binary64) : Binary64 := lift₂ (· + ·) x y

/-- The difference, rounded once. -/
def sub (x y : Binary64) : Binary64 := lift₂ (· - ·) x y

/-- The product, rounded once. -/
def mul (x y : Binary64) : Binary64 := lift₂ (· * ·) x y

/-- The quotient, rounded once. -/
def div (x y : Binary64) : Binary64 := lift₂ (· / ·) x y

/-- The power; a power with a value in spite of a NaN operand keeps it. -/
def pow (x y : Binary64) : Binary64 :=
  let z := ofFloat (Float.pow x.toFloat y.toFloat)
  if z.isNaN then lift₂ Float.pow x y else z

/-- The greatest whole number that is not above. -/
def floor (x : Binary64) : Binary64 :=
  if x.isNaN then x.quiet else ofFloat x.toFloat.floor

/-- The remainder of the division that truncates, which is exact and has the sign of `x`. -/
def rem (x y : Binary64) : Binary64 :=
  if x.isNaN then x.quiet
  else if y.isNaN then y.quiet
  else if x.isInfinite || y.isZero then invalid
  else if y.isInfinite then x
  else
    let q := min x.exponent y.exponent
    let m := (x.significand <<< (x.exponent - q).toNat) %
      (y.significand <<< (y.exponent - q).toNat)
    let r := ofScaled m q
    if x.isNegative then r.neg else r

/-- The order of two numbers; a NaN has none, and the two zeros are equal. -/
def compare? (x y : Binary64) : Option Ordering :=
  if x.isNaN || y.isNaN then none
  else if x.toFloat < y.toFloat then some .lt
  else if y.toFloat < x.toFloat then some .gt
  else some .eq

/-- A NaN is below nothing. -/
def lt (x y : Binary64) : Bool := x.compare? y = some .lt

end Binary64

end StackCode

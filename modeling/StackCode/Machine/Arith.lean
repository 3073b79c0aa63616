import StackCode.Const

namespace StackCode.Arith

/-!
# Arithmetic and comparison of constants

Integers have 64 bits; a result that does not fit is a fault.  Truth values count as the integers
`0` and `1`, and an integer beside a floating-point number is rounded to one.

* `Op`, `onInts`, `onFloats` — the arithmetic operators.
* `binary`, `unary` — operators on constants.
* `compare` — the comparisons by their numbers; `truthy` — the truth of a constant.
* `Fault` — why there is no result.
-/

/-- The arithmetic operators. -/
inductive Op where
  | add | sub | mul | trueDiv | floorDiv | mod | pow
  deriving DecidableEq, Repr

/-- Why an operator has no result. -/
inductive Fault where
  | divisionByZero
  | overflow
  /-- The type of a single operand. -/
  | badOperand (type : String)
  /-- The types of two operands. -/
  | badOperands (left right : String)
  /-- The types of two operands without an order. -/
  | unordered (left right : String)
  /-- A comparison that has no number. -/
  | noComparison
  deriving DecidableEq, Repr

/-- A constant that counts as a number. -/
inductive Number where
  | int (v : Int64)
  | float (x : Binary64)

namespace Number

/-- The number of a constant; truth values count as `0` and `1`. -/
def ofConst? : Const → Option Number
  | .bool b => some (int (if b then 1 else 0))
  | .int v => some (int v)
  | .float x => some (float x)
  | _ => none

/-- The number as a float, rounded where it has too many digits. -/
def toBinary64 : Number → Binary64
  | int v => .ofInt v.toInt
  | float x => x

end Number

/-! ### Integers -/

/-- The integer of value `i`; it is a fault if there is none. -/
def fit (i : Int) : Except Fault Int64 :=
  match Text.fitInt64? i with
  | some v => .ok v
  | none => .error .overflow

/-- `acc` times the power of `base` to a positive exponent, by repeated squaring. -/
def powOn (acc base : Int64) (exponent : Nat) : Except Fault Int64 := do
  let acc ← if exponent % 2 = 1 then fit (acc.toInt * base.toInt) else pure acc
  if exponent ≤ 1 then return acc
  let square ← fit (base.toInt * base.toInt)
  powOn acc square (exponent / 2)
termination_by exponent

/-- The power of an integer, while it does not leave 64 bits. -/
def powInt (base : Int64) (exponent : Nat) : Except Fault Int64 :=
  if exponent = 0 then .ok 1 else powOn 1 base exponent

/-- Operators that divide. -/
def Op.divides : Op → Bool
  | trueDiv | floorDiv | mod => true
  | _ => false

/-- Floating-point operators.  The result of `mod` has the sign of the divisor. -/
def onFloats (op : Op) (a b : Binary64) : Except Fault Const :=
  if b.isZero && op.divides then .error .divisionByZero
  else
    .ok <| .float <| match op with
      | .add => a.add b
      | .sub => a.sub b
      | .mul => a.mul b
      | .trueDiv => a.div b
      | .floorDiv => (a.div b).floor
      | .mod =>
        let r := a.rem b
        if !r.isZero && (r.lt ⟨0⟩ != b.lt ⟨0⟩) then r.add b else r
      | .pow => a.pow b

/-- The quotient toward zero; one beyond 64 bits is a fault. -/
def quotient (a b : Int64) : Except Fault Int64 := fit (a.toInt.tdiv b.toInt)

/-- The remainder of the quotient toward zero; it is a fault where the quotient is. -/
def remainder (a b : Int64) : Except Fault Int64 := do
  let _ ← quotient a b
  return a % b

/-- The quotient down to the floor: one less than that toward zero where there is a remainder and
    the signs differ. -/
def floorQuotient (a b : Int64) : Except Fault Int64 := do
  let q ← quotient a b
  return if a % b != 0 && (decide (a < 0) != decide (b < 0)) then q - 1 else q

/-- The remainder of the quotient down to the floor, which has the sign of the divisor. -/
def floorRemainder (a b : Int64) : Except Fault Int64 := do
  let r ← remainder a b
  return if r != 0 && (decide (r < 0) != decide (b < 0)) then r + b else r

/-- Integer operators.  Division goes down to the floor; `trueDiv`, and `pow` with an exponent that
    is negative or above 32 bits, give floating-point numbers. -/
def onInts (op : Op) (a b : Int64) : Except Fault Const :=
  if b = 0 && op.divides then .error .divisionByZero
  else
    match op with
    | .add => Const.int <$> fit (a.toInt + b.toInt)
    | .sub => Const.int <$> fit (a.toInt - b.toInt)
    | .mul => Const.int <$> fit (a.toInt * b.toInt)
    | .trueDiv => onFloats .trueDiv (.ofInt a.toInt) (.ofInt b.toInt)
    | .floorDiv => Const.int <$> floorQuotient a b
    | .mod => Const.int <$> floorRemainder a b
    | .pow =>
      if 0 ≤ b.toInt ∧ b.toInt.toNat < UInt32.size then Const.int <$> powInt a b.toInt.toNat
      else onFloats .pow (.ofInt a.toInt) (.ofInt b.toInt)

/-! ### Constants -/

/-- `n` copies of `s`; none for a negative `n`. -/
def repeated (s : String) (n : Int64) : String :=
  if s.isEmpty then "" else String.ofList (List.replicate n.toInt.toNat s.toList).flatten

/-- The result of an operator: numbers are calculated with, and sequences joined or repeated. -/
def binary (op : Op) (lhs rhs : Const) : Except Fault Const :=
  match Number.ofConst? lhs, Number.ofConst? rhs with
  | some (.int a), some (.int b) => onInts op a b
  | some a, some b => onFloats op a.toBinary64 b.toBinary64
  | _, _ =>
    match op, lhs, rhs with
    | .add, .str a, .str b => .ok (.str (a ++ b))
    | .add, .bytes a, .bytes b => .ok (.bytes (a ++ b))
    | .add, .tuple a, .tuple b => .ok (.tuple (a ++ b))
    | .mul, .str s, .int n => .ok (.str (repeated s n))
    | .mul, .int n, .str s => .ok (.str (repeated s n))
    | _, _, _ => .error (.badOperands lhs.typeName rhs.typeName)

/-- The truth of a constant: empty and zero are false, and so is `None`. -/
def truthy : Const → Bool
  | .none => false
  | .bool b => b
  | .int v => v != 0
  | .float x => !x.isZero
  | .str s => !s.isEmpty
  | .bytes bs => !bs.isEmpty
  | .tuple items => !items.isEmpty
  | .ellipsis => true
  | .code _ => true

/-- A number with its sign kept or, with `negate`, turned. -/
def signed (negate : Bool) (c : Const) : Except Fault Const :=
  match Number.ofConst? c with
  | some (.int v) => Const.int <$> fit (if negate then -v.toInt else v.toInt)
  | some (.float x) => .ok (.float (if negate then x.neg else x))
  | none => .error (.badOperand c.typeName)

/-! ### Comparison -/

/-- The lexicographic order of bytes. -/
def compareBytes : List UInt8 → List UInt8 → Ordering
  | [], [] => .eq
  | [], _ :: _ => .lt
  | _ :: _, [] => .gt
  | a :: as, b :: bs => if a < b then .lt else if b < a then .gt else compareBytes as bs

/-- The order of two constants, if they have one: numbers by value, text and bytes
    lexicographically, and otherwise only equal constants. -/
def order? (lhs rhs : Const) : Option Ordering :=
  match Number.ofConst? lhs, Number.ofConst? rhs with
  | some (.int a), some (.int b) =>
    some (if a < b then .lt else if b < a then .gt else .eq)
  | some a, some b => a.toBinary64.compare? b.toBinary64
  | _, _ =>
    match lhs, rhs with
    | .str a, .str b => some (if a < b then .lt else if b < a then .gt else .eq)
    | .bytes a, .bytes b => some (compareBytes a b)
    | _, _ => if lhs = rhs then some .eq else none

/-- The order of two constants; it is a fault if they have none. -/
def order (lhs rhs : Const) : Except Fault Ordering :=
  match order? lhs rhs with
  | some o => .ok o
  | none => .error (.unordered lhs.typeName rhs.typeName)

/-- The comparisons by number: `<`, `<=`, `==`, `!=`, `>`, `>=`, and as `8` and `9` whether two
    constants are the same or not. -/
def compare (number : Nat) (lhs rhs : Const) : Except Fault Bool :=
  match number with
  | 0 => (· == .lt) <$> order lhs rhs
  | 1 => (· != .gt) <$> order lhs rhs
  | 2 => .ok (order? lhs rhs == some .eq)
  | 3 => .ok (order? lhs rhs != some .eq)
  | 4 => (· == .gt) <$> order lhs rhs
  | 5 => (· != .lt) <$> order lhs rhs
  | 8 => .ok (lhs = rhs)
  | 9 => .ok (lhs ≠ rhs)
  | _ => .error .noComparison

end StackCode.Arith

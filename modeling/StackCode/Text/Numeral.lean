namespace StackCode.Text

/-!
# Decimal integers

* `ofNat`, `ofInt` — the digits of an integer, with a sign only where it is negative.
* `readNat?`, `readInt?` — a run of ASCII digits, `readInt?` after an optional sign.
* `readUInt32?`, `readInt64?` — the integers that fit; both take a leading `+`.
-/

/-- The value of the digits `cs` appended to the digits of `acc`. -/
def readDigits (acc : Nat) : List Char → Option Nat
  | [] => some acc
  | c :: cs => if c.isDigit then readDigits (10 * acc + (c.toNat - 48)) cs else none

/-- Reads one or more ASCII digits. -/
def readNat? (cs : List Char) : Option Nat :=
  if cs.isEmpty then none else readDigits 0 cs

/-- Reads an optional sign and one or more ASCII digits. -/
def readInt? : List Char → Option Int
  | '-' :: cs => (readNat? cs).map fun n => -(n : Int)
  | '+' :: cs => (readNat? cs).map Int.ofNat
  | cs => (readNat? cs).map Int.ofNat

/-- The 64-bit integer of value `i`, if there is one. -/
def fitInt64? (i : Int) : Option Int64 :=
  if (Int64.ofInt i).toInt = i then some (Int64.ofInt i) else none

/-- A number of 64 bits fits into them. -/
theorem fitInt64?_toInt (v : Int64) : fitInt64? v.toInt = some v := by
  simp only [fitInt64?, Int64.ofInt_toInt, if_true]

/-- An integer that fits into 64 bits. -/
def readInt64? (cs : List Char) : Option Int64 := (readInt? cs).bind fitInt64?

/-- Reads an integer from `0` to `2 ^ 32 - 1`; `+` is the only sign allowed. -/
def readUInt32? (cs : List Char) : Option UInt32 :=
  let digits := match cs with
    | '+' :: rest => rest
    | _ => cs
  (readNat? digits).bind fun n => if n < UInt32.size then some (UInt32.ofNat n) else none

/-- The decimal digits of a number. -/
def ofNat (n : Nat) : List Char := Nat.toDigits 10 n

/-- The decimal digits of an integer, behind its sign. -/
def ofInt (i : Int) : List Char :=
  if i < 0 then '-' :: ofNat i.natAbs else ofNat i.natAbs

end StackCode.Text

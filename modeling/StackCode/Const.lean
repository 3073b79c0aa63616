import StackCode.Binary64
import StackCode.Decimal.Shortest
import StackCode.Text.Quoted

namespace StackCode

/-!
# Constants and stored units

* `Const` — the values of a constant table; a nested unit is one of them.
* `StoredUnit` — a unit in its stored form: instruction bytes beside the tables that they index.
* `Const.text` — the text of a constant in listings.

Two constants are equal when they have the same type and the same content; floating-point numbers
are compared by their bits.
-/

mutual

/-- A value of a constant table. -/
inductive Const where
  | none
  | ellipsis
  | bool (b : Bool)
  | int (v : Int64)
  | float (x : Binary64)
  | str (s : String)
  | bytes (bs : List UInt8)
  | tuple (items : List Const)
  | code (unit : StoredUnit)

/-- A unit in its stored form. -/
structure StoredUnit where
  /-- Number of positional parameters. -/
  argcount : UInt32 := 0
  /-- Number of keyword-only parameters. -/
  kwonlyargcount : UInt32 := 0
  /-- Number of local variables. -/
  nlocals : UInt32 := 0
  /-- Room that the operand stack needs. -/
  stacksize : UInt32 := 0
  flags : UInt32 := 0
  /-- The instruction bytes. -/
  code : List UInt8 := []
  consts : List Const := []
  /-- Names of globals and attributes. -/
  names : List String := []
  /-- Names of local variables, parameters first. -/
  varnames : List String := []
  filename : String := ""
  name : String := ""
  firstlineno : UInt32 := 0
  /-- The encoded line table. -/
  lineTable : List UInt8 := []
  freevars : List String := []
  cellvars : List String := []

end

instance : Inhabited Const := ⟨.none⟩

instance : Inhabited StoredUnit := ⟨{}⟩

/-! ### Equality -/

mutual

/-- Decides whether two constants are equal. -/
def Const.decEq : (a b : Const) → Decidable (a = b)
  | .none, b => match b with
    | .none => isTrue rfl
    | .ellipsis | .bool _ | .int _ | .float _ | .str _ | .bytes _ | .tuple _ | .code _ =>
      isFalse nofun
  | .ellipsis, b => match b with
    | .ellipsis => isTrue rfl
    | .none | .bool _ | .int _ | .float _ | .str _ | .bytes _ | .tuple _ | .code _ =>
      isFalse nofun
  | .bool x, b => match b with
    | .bool y => decidable_of_iff (x = y) (by simp)
    | .none | .ellipsis | .int _ | .float _ | .str _ | .bytes _ | .tuple _ | .code _ =>
      isFalse nofun
  | .int x, b => match b with
    | .int y => decidable_of_iff (x = y) (by simp)
    | .none | .ellipsis | .bool _ | .float _ | .str _ | .bytes _ | .tuple _ | .code _ =>
      isFalse nofun
  | .float x, b => match b with
    | .float y => decidable_of_iff (x = y) (by simp)
    | .none | .ellipsis | .bool _ | .int _ | .str _ | .bytes _ | .tuple _ | .code _ =>
      isFalse nofun
  | .str x, b => match b with
    | .str y => decidable_of_iff (x = y) (by simp)
    | .none | .ellipsis | .bool _ | .int _ | .float _ | .bytes _ | .tuple _ | .code _ =>
      isFalse nofun
  | .bytes x, b => match b with
    | .bytes y => decidable_of_iff (x = y) (by simp)
    | .none | .ellipsis | .bool _ | .int _ | .float _ | .str _ | .tuple _ | .code _ =>
      isFalse nofun
  | .tuple x, b => match b with
    | .tuple y => @decidable_of_iff _ (x = y) (by simp) (Const.decEqList x y)
    | .none | .ellipsis | .bool _ | .int _ | .float _ | .str _ | .bytes _ | .code _ =>
      isFalse nofun
  | .code x, b => match b with
    | .code y => @decidable_of_iff _ (x = y) (by simp) (StoredUnit.decEq x y)
    | .none | .ellipsis | .bool _ | .int _ | .float _ | .str _ | .bytes _ | .tuple _ =>
      isFalse nofun

/-- Decides whether two lists of constants are equal. -/
def Const.decEqList : (xs ys : List Const) → Decidable (xs = ys)
  | [], ys => match ys with
    | [] => isTrue rfl
    | _ :: _ => isFalse nofun
  | x :: xs, ys => match ys with
    | [] => isFalse nofun
    | y :: ys =>
      @decidable_of_iff _ (x = y ∧ xs = ys) (by simp)
        (@instDecidableAnd _ _ (Const.decEq x y) (Const.decEqList xs ys))

/-- Decides whether two stored units are equal. -/
def StoredUnit.decEq : (a b : StoredUnit) → Decidable (a = b)
  | ⟨a₁, a₂, a₃, a₄, a₅, a₆, as, a₇, a₈, a₉, a₁₀, a₁₁, a₁₂, a₁₃, a₁₄⟩, b => match b with
    | ⟨b₁, b₂, b₃, b₄, b₅, b₆, bs, b₇, b₈, b₉, b₁₀, b₁₁, b₁₂, b₁₃, b₁₄⟩ =>
      have := Const.decEqList as bs
      have : Decidable ((a₁, a₂, a₃, a₄) = (b₁, b₂, b₃, b₄)) := inferInstance
      have : Decidable ((a₅, a₆, a₁₁, a₁₂) = (b₅, b₆, b₁₁, b₁₂)) := inferInstance
      have : Decidable ((a₇, a₈, a₉) = (b₇, b₈, b₉)) := inferInstance
      have : Decidable ((a₁₀, a₁₃, a₁₄) = (b₁₀, b₁₃, b₁₄)) := inferInstance
      decidable_of_iff
        (as = bs ∧ (a₁, a₂, a₃, a₄) = (b₁, b₂, b₃, b₄) ∧ (a₅, a₆, a₁₁, a₁₂) = (b₅, b₆, b₁₁, b₁₂) ∧
          (a₇, a₈, a₉) = (b₇, b₈, b₉) ∧ (a₁₀, a₁₃, a₁₄) = (b₁₀, b₁₃, b₁₄))
        (by simp only [Prod.mk.injEq, StoredUnit.mk.injEq]; grind)

end

instance : DecidableEq Const := Const.decEq

instance : DecidableEq StoredUnit := StoredUnit.decEq

/-! ### Parts of a constant -/

namespace Const

/-- The name of the constant's type. -/
def typeName : Const → String
  | none => "none"
  | ellipsis => "ellipsis"
  | bool _ => "bool"
  | int _ => "int"
  | float _ => "float"
  | str _ => "str"
  | bytes _ => "bytes"
  | tuple _ => "tuple"
  | code _ => "code"

/-- The integer, if it is one. -/
def int? : Const → Option Int64
  | int v => some v
  | _ => Option.none

/-- The unit, if it is one. -/
def code? : Const → Option StoredUnit
  | code unit => some unit
  | _ => Option.none

/-! ### Nesting -/

mutual

/-- How deep units are nested in a constant: `0` where it holds none. -/
def nesting : Const → Nat
  | tuple items => nestingItems items
  | code unit => unitNesting unit
  | _ => 0

/-- How deep units are nested in constants. -/
def nestingItems : List Const → Nat
  | [] => 0
  | item :: items => max (nesting item) (nestingItems items)

/-- How deep units are nested in a unit, itself counted. -/
def unitNesting : StoredUnit → Nat
  | { consts, .. } => nestingItems consts + 1

end

/-! ### Text -/

mutual

/-- The characters of a constant's text; a nested unit shows its name only. -/
def chars : Const → List Char
  | none => ['N', 'o', 'n', 'e']
  | ellipsis => ['.', '.', '.']
  | bool true => ['T', 'r', 'u', 'e']
  | bool false => ['F', 'a', 'l', 's', 'e']
  | int v => Text.ofInt v.toInt
  | float x => Decimal.text x
  | str s => Text.quote s
  | bytes bs => 'b' :: Text.quoteBytes bs
  | tuple items => '(' :: charsItems items
  | code unit => ['<', 'c', 'o', 'd', 'e', ' '] ++ unit.name.toList ++ ['>']

/-- The text of a tuple after its opening bracket; a single item has a comma behind it. -/
def charsItems : List Const → List Char
  | [] => [')']
  | [item] => chars item ++ [',', ')']
  | item :: items => chars item ++ charsRest items

/-- The text of the items of a tuple after the first of them. -/
def charsRest : List Const → List Char
  | [] => [')']
  | item :: items => ',' :: ' ' :: chars item ++ charsRest items

end

/-- The text of a constant as a string. -/
def text (c : Const) : String := String.ofList c.chars

end Const

/-- The nested units of the constant table, one level deep. -/
def StoredUnit.nested (unit : StoredUnit) : List StoredUnit := unit.consts.filterMap Const.code?

end StackCode

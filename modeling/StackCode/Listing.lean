import StackCode.Routine.Load
import StackCode.Routine.Store

namespace StackCode

/-!
# Listings

* `Routine.listing` — a routine as text, line by line, and after it the units nested in it.

A row shows the source line where one starts, `>>` where a jump leads, the offset under the
routine's encoding, the opcode and the operand.
-/

namespace Routine

/-- The first row: what is known of the routine. -/
def listingHead (c : Routine) : String :=
  let args := String.intercalate ", " c.signature.argnames
  "== " ++ c.name ++ " == (" ++ c.filename ++ s!":{c.firstlineno.toNat}, " ++ c.encoding.name ++
    ", args=[" ++ args ++ s!"], stacksize={c.stacksize.toNat})"

/-- The operand of a row: a jump shows the offset that it leads to. -/
def listingOperand (placed : List Placed) : Operand → String
  | .jump t =>
    match Body.offsetOf? placed t with
    | some offset => s!"to {offset}"
    | none => "to " ++ handleText t ++ " (unresolved)"
  | operand => operand.text

/-- Drops the blanks at the end. -/
def trimEnd (s : String) : String :=
  String.ofList (s.toList.reverse.dropWhile Text.isBlank).reverse

/-- The row of an instruction. -/
def listingRow (c : Routine) (placed : List Placed) (targets : List Handle) (p : Placed) :
    String :=
  let line := match c.lines.get? p.id with
    | some l => Text.padLeft 4 (toString l.toNat)
    | none => "    "
  let marker := if p.id ∈ targets then ">>" else "  "
  trimEnd <| line ++ " " ++ marker ++ " " ++ Text.padLeft 5 (toString p.offset) ++ " " ++
    Text.padRight 20 p.instr.opcode.name ++ " " ++ listingOperand placed p.instr.operand

/-- The rows of a routine without the units nested in it. -/
def listingRows (c : Routine) : List String :=
  let placed := c.layout c.encoding
  let targets := c.operands.filterMap Operand.target?
  c.listingHead :: placed.map (c.listingRow placed targets)

/-- The rows of a routine and of the units nested in it, `depth` levels down. -/
def listingTo : (depth : Nat) → Routine → List String
  | 0, c => c.listingRows
  | depth + 1, c =>
    c.listingRows ++ (c.consts.filterMap Const.code?).flatMap fun unit =>
      match load? unit c.encoding with
      | .ok nested => "" :: listingTo depth nested
      | .error e => ["", ";; " ++ unit.name ++ ": " ++ e.message]

/-- The listing of a routine and of everything nested in it. -/
def listing (c : Routine) : String :=
  String.join ((c.listingTo (Const.nestingItems c.consts)).map (· ++ "\n"))

end Routine

end StackCode

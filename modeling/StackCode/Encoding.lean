import StackCode.LineTable

namespace StackCode

/-!
# Instruction encodings

The two layouts of instruction bytes.

* `Encoding.legacy` — an opcode byte, and two operand bytes only where the opcode takes one.
* `Encoding.wordcode` — every instruction is an opcode byte and one operand byte.
* `Encoding.width`, `Encoding.maxOperand`, `Encoding.lineFormat` — what the layout allows.
-/

/-- How instructions are laid out in bytes. -/
inductive Encoding where
  | legacy
  | wordcode
  deriving DecidableEq, Repr, Inhabited

namespace Encoding

/-- Width of the operand field in bytes. -/
def argWidth : Encoding → Nat
  | legacy => 2
  | wordcode => 1

/-- Width of an instruction in bytes. -/
def width : Encoding → (hasArg : Bool) → Nat
  | legacy, true => 3
  | legacy, false => 1
  | wordcode, _ => 2

/-- Every instruction takes some bytes. -/
theorem width_pos (e : Encoding) (hasArg : Bool) : 0 < e.width hasArg := by
  cases e <;> cases hasArg <;> decide

/-- The largest operand that the operand field holds. -/
def maxOperand : Encoding → Nat
  | legacy => 65535
  | wordcode => 255

/-- The largest operand fills its bytes. -/
theorem maxOperand_eq (e : Encoding) : e.maxOperand + 1 = Nat.pow 256 e.argWidth := by
  cases e <;> rfl

/-- The format of the line table written beside the code. -/
def lineFormat : Encoding → LineTable.Format
  | legacy => .legacy
  | wordcode => .wordcode

/-- The byte that names the encoding in a container. -/
def tag : Encoding → UInt8
  | legacy => 0
  | wordcode => 1

/-- The encoding of a tag byte, if there is one. -/
def ofTag? (tag : UInt8) : Option Encoding :=
  if tag = 0 then some legacy else if tag = 1 then some wordcode else none

/-- Every encoding has a tag of its own. -/
@[simp] theorem ofTag?_tag (e : Encoding) : ofTag? e.tag = some e := by
  cases e <;> rfl

/-- The name in containers and messages. -/
def name : Encoding → String
  | legacy => "legacy"
  | wordcode => "wordcode"

/-- The name in descriptions of data and options. -/
def label : Encoding → String
  | legacy => "Legacy"
  | wordcode => "Wordcode"

/-- Reads a name without regard to the case of ASCII letters. -/
def ofName? (name : String) : Option Encoding :=
  match name.map Char.toLower with
  | "legacy" => some legacy
  | "wordcode" => some wordcode
  | _ => none

end Encoding

end StackCode

import StackCode.Const
import StackCode.Opcode

namespace StackCode

/-!
# Instructions

* `Handle` — the place of an instruction in its pool.
* `Operand` — what an instruction works on: a value, a name or another instruction, never an index.
* `Instr` — an opcode and its operand; `Instr.new?` makes one whose operand fits its opcode.
* `BuildError` — why pieces do not form an instruction, a pool or a routine.
-/

/-- The place of an instruction in its pool. -/
abbrev Handle := Nat

/-- The text of a handle in listings. -/
def handleText (id : Handle) : String := s!"#{id}"

/-- What an instruction works on. -/
inductive Operand where
  | none
  | int (v : UInt32)
  | const (c : Const)
  /-- A global or an attribute. -/
  | name (s : String)
  /-- A local variable. -/
  | localVar (s : String)
  /-- A cell or free variable. -/
  | freeVar (s : String)
  | jump (target : Handle)
  deriving DecidableEq

namespace Operand

/-- The name of the operand's kind. -/
def kind : Operand → String
  | none => "none"
  | int _ => "int"
  | const _ => "const"
  | name _ => "name"
  | localVar _ => "local"
  | freeVar _ => "free"
  | jump _ => "jump"

/-- Opcodes of the class take operands of this kind. -/
def fits : Operand → OperandClass → Bool
  | none, .none => true
  | int _, .int => true
  | const _, .const => true
  | name _, .name => true
  | localVar _, .local => true
  | freeVar _, .free => true
  | jump _, .jumpAbs => true
  | jump _, .jumpRel => true
  | _, _ => false

/-- The handle that a jump leads to. -/
def target? : Operand → Option Handle
  | jump t => some t
  | _ => Option.none

/-- The operand as listings show it. -/
def text : Operand → String
  | none => ""
  | int v => toString v.toNat
  | const c => c.text
  | name s => s
  | localVar s => s
  | freeVar s => s
  | jump t => handleText t

end Operand

/-- Why pieces do not form an instruction, a pool or a routine. -/
inductive BuildError where
  /-- The operand's kind is not that of the opcode's class. -/
  | operandMismatch (opcode : Opcode) (found : String)
  /-- A second parameter that takes surplus positional arguments. -/
  | duplicateVarargs (name : String)
  /-- A second parameter that takes surplus keyword arguments. -/
  | duplicateVarkw (name : String)
  /-- A parameter behind the one that takes surplus keyword arguments. -/
  | argAfterVarkw (name : String)
  /-- A variable that is neither a cell nor free. -/
  | unknownFreeVar (opcode : Opcode) (name : String)
  /-- An instruction that stands twice in one sequence. -/
  | duplicateInstr (id : Handle)
  /-- A handle that the pool has not given out. -/
  | unknownInstr (id : Handle)
  /-- A label behind the last instruction. -/
  | trailingLabel
  deriving DecidableEq, Repr

def BuildError.message : BuildError → String
  | .operandMismatch op found =>
    op.name ++ " expects a " ++ op.operandClass.label ++ s!" operand, got {found}"
  | .duplicateVarargs n => s!"cannot specify *args more than once (`{n}`)"
  | .duplicateVarkw n => s!"cannot specify **kwargs more than once (`{n}`)"
  | .argAfterVarkw n => s!"argument `{n}` follows **kwargs"
  | .unknownFreeVar op n =>
    op.name ++ s!" uses `{n}`, which is neither a cell nor a free variable"
  | .duplicateInstr id => "instruction " ++ handleText id ++ " appears more than once"
  | .unknownInstr id => "unknown instruction " ++ handleText id
  | .trailingLabel => "can't end with a label"

/-- An opcode and its operand. -/
structure Instr where
  opcode : Opcode
  operand : Operand
  deriving DecidableEq

namespace Instr

/-- The instruction, if its operand fits its opcode. -/
def new? (opcode : Opcode) (operand : Operand) : Except BuildError Instr :=
  if operand.fits opcode.operandClass then .ok ⟨opcode, operand⟩
  else .error (.operandMismatch opcode operand.kind)

/-- The handle that the instruction jumps to. -/
def target? (i : Instr) : Option Handle := i.operand.target?

/-- The net change of the operand stack. -/
def stackEffect (i : Instr) : Int :=
  match i.operand with
  | .int v => i.opcode.stackEffect v
  | _ => i.opcode.stackEffect 0

/-- The instruction as listings show it. -/
def text (i : Instr) : String :=
  match i.operand with
  | .none => i.opcode.name
  | operand => i.opcode.name ++ " " ++ operand.text

end Instr

end StackCode

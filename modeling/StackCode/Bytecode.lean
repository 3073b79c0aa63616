import StackCode.Bytes
import StackCode.Encoding
import StackCode.Opcode

namespace StackCode

/-!
# Instruction bytes

* `Located` — an instruction found in bytes: its offset, its opcode and the value of its operand.
* `locate` — the instruction that starts with a given byte.
* `walk` — all instructions of a code, one behind the other.
* `emit` — the bytes of an instruction.
-/

/-- An instruction found in bytes. -/
structure Located where
  offset : Nat
  opcode : Opcode
  /-- The operand field, `0` where there is none. -/
  arg : Nat
  /-- The offset behind the instruction. -/
  next : Nat
  deriving DecidableEq, Repr

/-- Why no instruction starts at an offset. -/
inductive LocateError where
  | unknownOpcode (offset : Nat) (byte : UInt8)
  /-- The code ends within the instruction. -/
  | truncated (offset : Nat)
  deriving DecidableEq, Repr

def LocateError.message : LocateError → String
  | .unknownOpcode o b => s!"unknown opcode {b} at offset {o}"
  | .truncated o => s!"truncated instruction at offset {o}"

/-- The instruction at `offset`, where `byte` is its first byte and `rest` follows. -/
def locate (e : Encoding) (offset : Nat) (byte : UInt8) (rest : List UInt8) :
    Except LocateError Located :=
  match Opcode.ofByte? byte with
  | .error _ => .error (.unknownOpcode offset byte)
  | .ok opcode =>
    let width := e.width opcode.hasArg
    if rest.length + 1 < width then .error (.truncated offset)
    else
      let arg := if opcode.hasArg then Bytes.toNat (rest.take e.argWidth) else 0
      .ok { offset := offset, opcode := opcode, arg := arg, next := offset + width }

/-- The instructions of the bytes from `offset` on. -/
def walk (e : Encoding) (offset : Nat) : List UInt8 → Except LocateError (List Located)
  | [] => .ok []
  | byte :: rest => do
    let here ← locate e offset byte rest
    let behind ← walk e here.next (rest.drop (here.next - offset - 1))
    return here :: behind
termination_by bytes => bytes.length
decreasing_by
  rw [List.length_drop, List.length_cons]
  omega

/-- The bytes of an instruction. -/
def emit (e : Encoding) (opcode : Opcode) (arg : Nat) : List UInt8 :=
  opcode.byte :: Bytes.ofNat (e.width opcode.hasArg - 1) arg

/-- An instruction is as long as its width says. -/
@[simp] theorem length_emit (e : Encoding) (opcode : Opcode) (arg : Nat) :
    (emit e opcode arg).length = e.width opcode.hasArg := by
  have := e.width_pos opcode.hasArg
  simp [emit]
  omega

end StackCode

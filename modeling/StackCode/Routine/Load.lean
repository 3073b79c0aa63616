import StackCode.Bytecode
import StackCode.Routine

namespace StackCode

/-!
# Loading stored units

* `Routine.load?` — the routine of a stored unit.  First the bytes are cut into instructions, then
  every operand is looked up in its table, where a jump finds the instruction at its target; lines
  and parameters follow.
* `LoadError` — why a stored unit is no routine.
-/

/-- Why a stored unit is no routine. -/
inductive LoadError where
  | locate (e : LocateError)
  /-- An operand beyond the end of its table. -/
  | operandOutOfRange (offset : Nat) (opcode : Opcode) (table : String) (index length : Nat)
  /-- A jump to an offset where no instruction starts. -/
  | misalignedJump (offset : Nat) (opcode : Opcode) (target : Nat)
  /-- A line that starts where no instruction does. -/
  | misalignedLineStart (offset : UInt32)
  | argumentLayout (e : Signature.LayoutError)
  | lineTable (e : LineTable.Error)
  | build (e : BuildError)
  deriving DecidableEq, Repr

def LoadError.message : LoadError → String
  | .locate e => e.message
  | .operandOutOfRange o op table index len =>
    op.name ++ s!" at offset {o}: index {index} out of range for {table} (len {len})"
  | .misalignedJump o op target =>
    op.name ++ s!" at offset {o} jumps to {target}, which is not an instruction boundary"
  | .misalignedLineStart o => s!"line table entry at offset {o} is not an instruction boundary"
  | .argumentLayout e =>
    let needed := e.needed
    let found := e.found
    s!"argument layout needs {needed} variable names, only {found} present"
  | .lineTable e => e.message
  | .build e => e.message

namespace Routine

/-- Puts the fault of a part among the faults of loading. -/
def part {ε α : Type} (wrap : ε → LoadError) (r : Except ε α) : Except LoadError α :=
  r.mapError wrap

/-- The position of the instruction that starts at `offset`. -/
def startingAt? (walked : List Located) (offset : Nat) : Option Nat :=
  walked.findIdx? (·.offset = offset)

/-- The entry of a table that the operand of `at` names. -/
def entry {α : Type} (here : Located) (label : String) (table : List α) : Except LoadError α :=
  match table[here.arg]? with
  | some a => .ok a
  | none => .error (.operandOutOfRange here.offset here.opcode label here.arg table.length)

/-- The jump to the instruction that starts at `target`. -/
def jumpTo (walked : List Located) (here : Located) (target : Nat) : Except LoadError Operand :=
  match startingAt? walked target with
  | some k => .ok (.jump k)
  | none => .error (.misalignedJump here.offset here.opcode target)

/-- What the operand field of an instruction stands for. -/
def resolve (unit : StoredUnit) (walked : List Located) (here : Located) :
    Except LoadError Operand :=
  match here.opcode.operandClass with
  | .none => .ok .none
  | .int => .ok (.int (UInt32.ofNat here.arg))
  | .const => Operand.const <$> entry here "consts" unit.consts
  | .name => Operand.name <$> entry here "names" unit.names
  | .local => Operand.localVar <$> entry here "varnames" unit.varnames
  | .free => Operand.freeVar <$> entry here "cellvars+freevars" (unit.cellvars ++ unit.freevars)
  | .jumpAbs => jumpTo walked here here.arg
  | .jumpRel => jumpTo walked here (here.next + here.arg)

/-- The instruction found at a place, with its operand resolved. -/
def instrAt (unit : StoredUnit) (walked : List Located) (here : Located) :
    Except LoadError Instr := do
  let operand ← resolve unit walked here
  part .build (Instr.new? here.opcode operand)

/-- The line map of line starts: every start has to be the offset of an instruction. -/
def lineMap (walked : List Located) (starts : List LineStart) : Except LoadError LineMap :=
  starts.foldlM (fun m s =>
    match startingAt? walked s.offset.toNat with
    | some k => .ok (m.insert k s.line)
    | none => .error (.misalignedLineStart s.offset)) .empty

/-- The routine of a stored unit whose bytes use the encoding `e`. -/
def load? (unit : StoredUnit) (e : Encoding) : Except LoadError Routine := do
  let walked ← part .locate (walk e 0 unit.code)
  let instrs ← walked.mapM (instrAt unit walked)
  let (ids, pool) ← match (Pool.insertMany instrs).run {} with
    | .ok ids pool => .ok (ids, pool)
    | .error err _ => .error (.build err)
  let lines ← if walked.isEmpty then .ok .empty else do
    let starts ← part .lineTable (LineTable.decode unit.lineTable unit.firstlineno e.lineFormat)
    lineMap walked starts
  let flags : Flags := ⟨unit.flags⟩
  let signature ← part .argumentLayout
    (Signature.ofLayout? unit.argcount.toNat unit.kwonlyargcount.toNat flags unit.varnames)
  part .build <| Routine.ofDraft? {
    pool := pool
    instrs := ids
    signature := signature
    cellvars := unit.cellvars
    freevars := unit.freevars
    name := unit.name
    filename := unit.filename
    firstlineno := unit.firstlineno
    lines := lines
    encoding := e
    flags := some flags }

end Routine

end StackCode

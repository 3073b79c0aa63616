import StackCode.Bytecode
import StackCode.Routine

namespace StackCode

/-!
# Storing routines

* `Body.layout` — the offsets of the live instructions; `Body.layout?` wants them to be 32-bit
  numbers.
* `Routine.store?` — the stored unit of a routine.  Operands become indices into derived tables, and
  jumps become offsets or distances.
* `Body.storedLines` — the line starts by offset; the line of an instruction that left the sequence
  moves on to the instruction that took over its jumps.
* `StoreError` — why a routine has no stored unit.
-/

/-- Why a routine has no stored unit. -/
inductive StoreError where
  /-- A jump to an instruction that is not in the sequence. -/
  | unresolvedJump (source : Handle) (opcode : Opcode) (target : Handle)
  /-- A relative jump to an instruction that is not behind it. -/
  | backwardRelativeJump (source : Handle) (opcode : Opcode) (target : Handle)
  /-- An operand that its field cannot hold. -/
  | operandOverflow (offset : Nat) (opcode : Opcode) (operand most : Nat)
  | unknownFreeVar (opcode : Opcode) (name : String)
  /-- The first offset, or else the size, that is no 32-bit number. -/
  | tooLarge (size : Nat)
  | lineTable (e : LineTable.Error)
  /-- The optimizer's own report. -/
  | optimizer (report : String)
  deriving DecidableEq, Repr

def StoreError.message : StoreError → String
  | .unresolvedJump source op target =>
    "unresolved jump: " ++ op.name ++ " " ++ handleText source ++ " targets " ++
      handleText target ++ ", which is not in the sequence"
  | .backwardRelativeJump source op target =>
    op.name ++ " " ++ handleText source ++ " jumps backwards to " ++ handleText target
  | .operandOverflow o op operand most =>
    op.name ++ s!" at offset {o}: operand {operand} exceeds {most}"
  | .unknownFreeVar op n => op.name ++ s!" uses unknown free variable `{n}`"
  | .tooLarge n => s!"code too large ({n} bytes)"
  | .lineTable e => e.message
  | .optimizer report => report

/-- A pass over the final bytes, which sees the tables and may fail with a report. -/
abbrev Optimizer :=
  (code : List UInt8) → (consts : List Const) → (names : List String) → (lineTable : List UInt8) →
    Except String (List UInt8)

/-- How a routine is stored. -/
structure StoreOptions where
  /-- The encoding in place of the routine's own. -/
  encoding : Option Encoding := none
  optimizer : Option Optimizer := none

namespace StoreOptions

/-- The fields of the options, an optimizer as whether there is one. -/
def fields (o : StoreOptions) : String :=
  let encoding := match o.encoding with
    | some e => "Some(" ++ e.label ++ ")"
    | none => "None"
  let optimizer := o.optimizer.isSome
  " \x7b encoding: " ++ encoding ++ s!", optimizer: {optimizer} \x7d"

/-- The options as text. -/
def describe (o : StoreOptions) : String := "EncodeOptions" ++ o.fields

end StoreOptions

/-- An instruction and its offset. -/
structure Placed where
  offset : Nat
  id : Handle
  instr : Instr
  deriving DecidableEq

namespace Body

/-- The instructions placed one behind the other from `offset` on. -/
def place (e : Encoding) (offset : Nat) : List (Handle × Instr) → List Placed
  | [] => []
  | (id, i) :: rest =>
    { offset := offset, id := id, instr := i } :: place e (offset + e.width i.opcode.hasArg) rest

/-- The live instructions and their offsets. -/
def layout (b : Body) (e : Encoding) : List Placed := place e 0 b.code

/-- The number of instruction bytes. -/
def codeSize (b : Body) (e : Encoding) : Nat :=
  b.code.foldr (fun entry size => e.width entry.2.opcode.hasArg + size) 0

/-- The layout of a body whose offsets, the end included, are 32-bit numbers. -/
def layout? (b : Body) (e : Encoding) : Except StoreError (List Placed) :=
  let placed := b.layout e
  match (placed.map (·.offset) ++ [b.codeSize e]).find? (UInt32.size ≤ ·) with
  | some offset => .error (.tooLarge offset)
  | none => .ok placed

/-- The offset of an instruction of the layout. -/
def offsetOf? (placed : List Placed) (id : Handle) : Option Nat :=
  (placed.find? (·.id = id)).map (·.offset)

/-! ### Operands -/

/-- The tables that operands are indices into. -/
structure Tables where
  consts : List Const
  names : List String
  varnames : List String
  /-- Cell variables, then free variables. -/
  cells : List String
  deriving DecidableEq

/-- The derived tables of a body. -/
def tables (b : Body) : Tables :=
  ⟨b.consts, b.names, b.varnames, b.cellvars ++ b.freevars⟩

/-- The place of a value in a derived table; tables hold every operand, so the value that fits no
    field is never taken. -/
def indexIn {α : Type} [BEq α] (table : List α) (a : α) : Nat :=
  (table.idxOf? a).getD (UInt64.size - 1)

/-- The value of the operand field of a placed instruction. -/
def fieldValue (t : Tables) (e : Encoding) (placed : List Placed) (p : Placed) :
    Except StoreError Nat :=
  match p.instr.operand with
  | .none => .ok 0
  | .int v => .ok v.toNat
  | .const c => .ok (indexIn t.consts c)
  | .name s => .ok (indexIn t.names s)
  | .localVar s => .ok (indexIn t.varnames s)
  | .freeVar s =>
    match t.cells.idxOf? s with
    | some k => .ok k
    | none => .error (.unknownFreeVar p.instr.opcode s)
  | .jump target =>
    match offsetOf? placed target with
    | none => .error (.unresolvedJump p.id p.instr.opcode target)
    | some offset =>
      if p.instr.opcode.operandClass = .jumpRel then
        let next := p.offset + e.width p.instr.opcode.hasArg
        if offset < next then .error (.backwardRelativeJump p.id p.instr.opcode target)
        else .ok (offset - next)
      else .ok offset

/-- The bytes of a placed instruction. -/
def instrBytes (t : Tables) (e : Encoding) (placed : List Placed) (p : Placed) :
    Except StoreError (List UInt8) := do
  let arg ← fieldValue t e placed p
  if e.maxOperand < arg then
    throw (.operandOverflow p.offset p.instr.opcode arg e.maxOperand)
  return emit e p.instr.opcode arg

/-- The bytes of the live instructions. -/
def codeBytes (b : Body) (e : Encoding) (placed : List Placed) :
    Except StoreError (List UInt8) := do
  let chunks ← placed.mapM (instrBytes b.tables e placed)
  return chunks.flatten

/-! ### Lines -/

/-- The lines of live instructions by offset. -/
def ownLines (b : Body) (placed : List Placed) : LineMap :=
  b.lines.entries.foldl (fun m entry =>
    match offsetOf? placed entry.1 with
    | some offset => m.insert offset entry.2
    | none => m) .empty

/-- The lines of instructions that left the sequence, each with the offset of the live instruction
    that took over. -/
def movedLines (b : Body) (placed : List Placed) : List (Nat × UInt32) :=
  b.lines.entries.filterMap fun entry =>
    match offsetOf? placed entry.1 with
    | some _ => none
    | none =>
      (b.pool.successor entry.1 fun id => (offsetOf? placed id).isSome).bind fun heir =>
        (offsetOf? placed heir).map (·, entry.2)

/-- The lines by offset.  A line that moves on gives way to a line of its new place. -/
def linesByOffset (b : Body) (placed : List Placed) : LineMap :=
  (b.movedLines placed).foldl (fun m entry => m.insertNew entry.1 entry.2) (b.ownLines placed)

/-- The line starts of the lines by offset. -/
def storedLines (b : Body) (placed : List Placed) : List LineStart :=
  (b.linesByOffset placed).entries.map LineStart.ofEntry

end Body

namespace Routine

/-- The stored unit of a routine under the encoding `e`, without a pass over its bytes. -/
def storeAs? (c : Routine) (e : Encoding) : Except StoreError StoredUnit := do
  let placed ← c.layout? e
  let code ← c.codeBytes e placed
  let starts := c.storedLines placed
  let lineTable ← (LineTable.encode starts c.firstlineno e.lineFormat).mapError .lineTable
  return {
    argcount := UInt32.ofNat c.signature.positional.length
    kwonlyargcount := UInt32.ofNat c.signature.kwonly.length
    nlocals := UInt32.ofNat c.varnames.length
    stacksize := c.stacksize
    flags := c.flags.mask
    code := code
    consts := c.consts
    names := c.names
    varnames := c.varnames
    filename := c.filename
    name := c.name
    firstlineno := c.firstlineno
    lineTable := lineTable
    freevars := c.freevars
    cellvars := c.cellvars }

/-- The stored unit of a routine. -/
def store? (c : Routine) (options : StoreOptions) : Except StoreError StoredUnit := do
  let unit ← c.storeAs? (options.encoding.getD c.encoding)
  match options.optimizer with
  | none => return unit
  | some optimize =>
    let code ← (optimize unit.code unit.consts unit.names unit.lineTable).mapError .optimizer
    return { unit with code := code }

end Routine

end StackCode

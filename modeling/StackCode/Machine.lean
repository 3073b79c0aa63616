import StackCode.Bytecode
import StackCode.Machine.Arith

namespace StackCode

/-!
# The machine

Runs the bytes of a stored unit on a stack of constants.

* `Machine.step` — what one instruction does to a frame, whatever the encoding.
* `Machine.run` — runs instructions until one returns, one fails, or the step limit is reached.
* `Machine.eval?` — the value of a unit for given arguments.
* `EvalError` — why a unit has no value.

Constants, locals, stack shuffles, arithmetic, comparisons, jumps, tuples and the return are
covered; every other instruction is unsupported.
-/

/-- Why a unit has no value. -/
inductive EvalError where
  | argCount (expected found : Nat)
  | locate (e : LocateError)
  | unsupported (offset : Nat) (opcode : Opcode)
  /-- An operand beyond the end of its table. -/
  | badOperand (offset : Nat) (opcode : Opcode) (index : Nat)
  | stackUnderflow (offset : Nat) (opcode : Opcode)
  /-- Operands of the wrong type. -/
  | typeError (opcode : Opcode) (detail : String)
  | zeroDivision (offset : Nat)
  | overflow (opcode : Opcode)
  /-- A local variable without a value. -/
  | unboundLocal (name : String)
  /-- The number of steps allowed. -/
  | stepLimit (limit : Nat)
  /-- No instruction is left to run. -/
  | fellOffEnd
  deriving DecidableEq, Repr

def EvalError.message : EvalError → String
  | .argCount e f => s!"expected {e} arguments, got {f}"
  | .locate e => e.message
  | .unsupported o op => op.name ++ s!" at offset {o} is not supported"
  | .badOperand o op index => op.name ++ s!" at offset {o}: operand {index} out of range"
  | .stackUnderflow o op => "stack underflow in " ++ op.name ++ s!" at offset {o}"
  | .typeError op detail => op.name ++ ": " ++ detail
  | .zeroDivision o => s!"division by zero at offset {o}"
  | .overflow op => "integer overflow in " ++ op.name
  | .unboundLocal n => s!"local variable `{n}` referenced before assignment"
  | .stepLimit n => s!"step limit of {n} reached"
  | .fellOffEnd => "execution fell off the end of the code"

/-- The state of a run between two instructions. -/
structure Frame where
  locals : Array (Option Const)
  /-- The operand stack, its top at the end. -/
  stack : Array Const := #[]
  /-- The greatest number of values on the stack so far. -/
  maxDepth : Nat := 0
  deriving DecidableEq

/-- Where a run goes on after an instruction. -/
inductive Flow where
  /-- At the next instruction. -/
  | next
  /-- At the target of the jump. -/
  | jump
  /-- Nowhere: the unit has a value. -/
  | done (value : Const)
  deriving DecidableEq

/-- What a run has come to. -/
structure Outcome where
  value : Const
  /-- The number of instructions run. -/
  steps : Nat
  maxDepth : Nat
  deriving DecidableEq

namespace Machine

/-- An action on a frame. -/
abbrev FrameM (α : Type) := EStateM EvalError Frame α

/-! ### The stack -/

/-- Pushes a constant, and notes how deep the stack has become. -/
def push (c : Const) : FrameM Unit :=
  modify fun f =>
    let stack := f.stack.push c
    { f with stack := stack, maxDepth := max f.maxDepth stack.size }

/-- Pops the constant on top, which an instruction needs. -/
def pop (here : Located) : FrameM Const := do
  let f ← get
  match f.stack.back? with
  | some c =>
    set { f with stack := f.stack.pop }
    return c
  | none => throw (.stackUnderflow here.offset here.opcode)

/-- The value `depth` places below the top. -/
def peek (here : Located) (depth : Nat) : FrameM Const := do
  let f ← get
  if f.stack.size < depth + 1 then throw (.stackUnderflow here.offset here.opcode)
  match f.stack[f.stack.size - (depth + 1)]? with
  | some c => return c
  | none => throw (.stackUnderflow here.offset here.opcode)

/-- Takes the topmost `n` values off the stack, the lowest of them first. -/
def popMany (here : Located) (n : Nat) : FrameM (List Const) := do
  let f ← get
  if f.stack.size < n then throw (.stackUnderflow here.offset here.opcode)
  set { f with stack := f.stack.extract 0 (f.stack.size - n) }
  return (f.stack.extract (f.stack.size - n) f.stack.size).toList

/-! ### Locals -/

/-- The content of the local variable that the operand names. -/
def localSlot (here : Located) : FrameM (Option Const) := do
  let f ← get
  match f.locals[here.arg]? with
  | some content => return content
  | none => throw (.badOperand here.offset here.opcode here.arg)

/-- Sets or clears the local variable of an instruction. -/
def setLocal (here : Located) (content : Option Const) : FrameM Unit :=
  modify fun f => { f with locals := f.locals.setIfInBounds here.arg content }

/-! ### Instructions -/

/-- The arithmetic operator of an opcode. -/
def operator? : Opcode → Option Arith.Op
  | .binaryAdd | .inplaceAdd => some .add
  | .binarySubtract | .inplaceSubtract => some .sub
  | .binaryMultiply | .inplaceMultiply => some .mul
  | .binaryTrueDivide | .inplaceTrueDivide => some .trueDiv
  | .binaryFloorDivide | .inplaceFloorDivide => some .floorDiv
  | .binaryModulo | .inplaceModulo => some .mod
  | .binaryPower | .inplacePower => some .pow
  | _ => none

/-- The error that a fault of arithmetic is at an instruction. -/
def ofFault (here : Located) : Arith.Fault → EvalError
  | .divisionByZero => .zeroDivision here.offset
  | .overflow => .overflow here.opcode
  | .badOperand t => .typeError here.opcode s!"bad operand type: {t}"
  | .badOperands l r => .typeError here.opcode s!"unsupported operand types: {l} and {r}"
  | .unordered l r => .typeError here.opcode s!"cannot order {l} and {r}"
  | .noComparison => .unsupported here.offset here.opcode

/-- Pushes the result of an operator. -/
def pushResult (here : Located) (r : Except Arith.Fault Const) : FrameM Unit :=
  match r with
  | .ok c => push c
  | .error fault => throw (ofFault here fault)

/-- Takes the jump if the top of the stack has the truth `wanted`. -/
def jumpIf (wanted : Bool) (c : Const) : Flow := if Arith.truthy c = wanted then .jump else .next

/-- What the instruction does. -/
def step (unit : StoredUnit) (here : Located) : FrameM Flow :=
  match here.opcode with
  | .nop => return .next
  | .popTop => do
    let _ ← pop here
    return .next
  | .rotTwo => do
    let top ← pop here
    let second ← pop here
    push top
    push second
    return .next
  | .rotThree => do
    let top ← pop here
    let second ← pop here
    let third ← pop here
    push top
    push third
    push second
    return .next
  | .dupTop => do
    let top ← peek here 0
    push top
    return .next
  | .dupTopTwo => do
    let second ← peek here 1
    let top ← peek here 0
    push second
    push top
    return .next
  | .unaryPositive => do
    let c ← pop here
    pushResult here (Arith.signed false c)
    return .next
  | .unaryNegative => do
    let c ← pop here
    pushResult here (Arith.signed true c)
    return .next
  | .unaryNot => do
    let c ← pop here
    push (.bool (!Arith.truthy c))
    return .next
  | .compareOp => do
    let rhs ← pop here
    let lhs ← pop here
    pushResult here (Const.bool <$> Arith.compare here.arg lhs rhs)
    return .next
  | .loadConst =>
    match unit.consts[here.arg]? with
    | some c => do
      push c
      return .next
    | none => throw (.badOperand here.offset here.opcode here.arg)
  | .loadFast => do
    match ← localSlot here with
    | some c =>
      push c
      return .next
    | none => throw (.unboundLocal (unit.varnames[here.arg]?.getD ""))
  | .storeFast => do
    let _ ← localSlot here
    let c ← pop here
    setLocal here (some c)
    return .next
  | .deleteFast => do
    let _ ← localSlot here
    setLocal here none
    return .next
  | .buildTuple => do
    let items ← popMany here here.arg
    push (.tuple items)
    return .next
  | .jumpForward => return .jump
  | .jumpAbsolute => return .jump
  | .popJumpIfFalse => do
    let c ← pop here
    return jumpIf false c
  | .popJumpIfTrue => do
    let c ← pop here
    return jumpIf true c
  | .jumpIfFalseOrPop => do
    let c ← peek here 0
    if Arith.truthy c = false then return .jump
    let _ ← pop here
    return .next
  | .jumpIfTrueOrPop => do
    let c ← peek here 0
    if Arith.truthy c = true then return .jump
    let _ ← pop here
    return .next
  | .returnValue => do
    let c ← pop here
    return .done c
  | opcode =>
    match operator? opcode with
    | some op => do
      let rhs ← pop here
      let lhs ← pop here
      pushResult here (Arith.binary op lhs rhs)
      return .next
    | none => throw (.unsupported here.offset opcode)

/-! ### Runs -/

/-- The instruction at `pc`. -/
def fetch (e : Encoding) (code : List UInt8) (pc : Nat) : Except EvalError Located :=
  match code.drop pc with
  | [] => .error .fellOffEnd
  | byte :: rest => (locate e pc byte rest).mapError .locate

/-- The offset that the jump `here` leads to. -/
def jumpTarget (here : Located) : Nat :=
  match here.opcode.operandClass with
  | .jumpAbs => here.arg
  | .jumpRel => here.next + here.arg
  | _ => here.next

/-- Runs at most `left` instructions from `pc` on, after `done` of them. -/
def run (unit : StoredUnit) (e : Encoding) (done : Nat) :
    (left : Nat) → (pc : Nat) → Frame → Except EvalError Outcome
  | 0, _, _ => .error (.stepLimit done)
  | left + 1, pc, frame => do
    let here ← fetch e unit.code pc
    match (step unit here).run frame with
    | .error err _ => .error err
    | .ok (.done value) frame => .ok ⟨value, done + 1, frame.maxDepth⟩
    | .ok .next frame => run unit e (done + 1) left here.next frame
    | .ok .jump frame => run unit e (done + 1) left (jumpTarget here) frame

/-- The frame in which the first local variables hold the arguments. -/
def entryFrame (unit : StoredUnit) (args : List Const) : Frame :=
  let size := max unit.varnames.length args.length
  { locals := (args.map some ++ List.replicate (size - args.length) none).toArray }

/-- The value of a unit whose bytes use the encoding `e`, in at most `limit` steps. -/
def eval? (unit : StoredUnit) (e : Encoding) (args : List Const) (limit : Nat) :
    Except EvalError Outcome :=
  -- The counts are added as the 32-bit numbers they are.
  let expected := (unit.argcount + unit.kwonlyargcount).toNat
  if args.length ≠ expected then .error (.argCount expected args.length)
  else run unit e 0 limit 0 (entryFrame unit args)

end Machine

end StackCode

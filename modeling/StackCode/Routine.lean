import StackCode.Encoding
import StackCode.LineMap
import StackCode.Pool
import StackCode.Signature

namespace StackCode

/-!
# Routines

A routine is a sequence of instructions of a pool together with what a stored unit says of it.
Tables of constants, names and local variables are not part of it: they follow from the operands.

* `Body` — the pool, the sequence and the description.
* `Draft` — a body that may leave its flags open.
* `Routine` — a checked body with flags; `Routine.ofDraft?` checks.
* `Body.consts`, `Body.names`, `Body.varnames`, `Body.stacksize` — what follows from the operands.
* `Body.linesInEffect`, `Body.lineOf` — the source lines in effect at the instructions.
-/

/-- Instructions in order and what is known of them. -/
structure Body where
  pool : Pool := {}
  /-- The live instructions in execution order. -/
  instrs : List Handle := []
  signature : Signature := {}
  cellvars : List String := []
  freevars : List String := []
  name : String := ""
  filename : String := ""
  firstlineno : UInt32 := 0
  /-- The instructions that start a source line. -/
  lines : LineMap := .empty
  /-- The encoding where no other is asked for. -/
  encoding : Encoding := .wordcode
  deriving DecidableEq

/-- A body whose flags are given or left to be derived. -/
structure Draft extends Body where
  flags : Option Flags := none
  deriving DecidableEq

/-- A checked body with its flags. -/
structure Routine extends Body where
  flags : Flags
  deriving DecidableEq

namespace Body

/-- The live instructions with their handles. -/
def code (b : Body) : List (Handle × Instr) :=
  b.instrs.filterMap fun id => (b.pool.get? id).map (id, ·)

/-- The opcodes of the live instructions, in order. -/
def opcodes (b : Body) : List Opcode := b.code.map (·.2.opcode)

/-- The operands of the live instructions, in order. -/
def operands (b : Body) : List Operand := b.code.map (·.2.operand)

/-- The position of an instruction in the sequence. -/
def indexOf? (b : Body) (id : Handle) : Option Nat := b.instrs.findIdx? (· == id)

/-! ### Derived tables -/

/-- The constants in the order of their first use. -/
def consts (b : Body) : List Const :=
  (b.operands.filterMap fun
    | .const c => some c
    | _ => none).eraseDups

/-- The texts with `s` at its place, where they are in order and without repetition. -/
def insertText (s : String) : List String → List String
  | [] => [s]
  | t :: ts => if s < t then s :: t :: ts else if s = t then t :: ts else t :: insertText s ts

/-- The texts in order and without repetition. -/
def sortTexts (ts : List String) : List String := ts.foldl (fun acc t => insertText t acc) []

/-- The names in order. -/
def names (b : Body) : List String :=
  sortTexts (b.operands.filterMap fun
    | .name s => some s
    | _ => none)

/-- The parameters, then the other local variables in order. -/
def varnames (b : Body) : List String :=
  let params := b.signature.varnames.eraseDups
  let locals := sortTexts (b.operands.filterMap fun
    | .localVar s => some s
    | _ => none)
  params ++ locals.filter (· ∉ params)

/-! ### Stack and lines -/

/-- The greatest of `most` and the depths that stack effects lead to from `depth`. -/
def deepest (depth most : Int) : List Int → Int
  | [] => most
  | e :: es => deepest (depth + e) (max most (depth + e)) es

/-- The room that the operand stack needs: the greatest sum of the effects of the first
    instructions. -/
def stacksize (b : Body) : UInt32 :=
  let most := deepest 0 0 (b.code.map (·.2.stackEffect))
  if most.toNat < UInt32.size then UInt32.ofNat most.toNat else 0xFFFFFFFF

/-- The lines of live instructions, in execution order. -/
def lineStarts (b : Body) : List (Handle × UInt32) :=
  b.instrs.filterMap fun id => (b.lines.get? id).map (id, ·)

/-- The instructions of a sequence that starts in line `line`, each with the line in effect. -/
def linesFrom (lines : LineMap) (line : UInt32) : List Handle → List (Handle × UInt32)
  | [] => []
  | id :: rest =>
    let here := (lines.get? id).getD line
    (id, here) :: linesFrom lines here rest

/-- The live instructions, each with the source line in effect. -/
def linesInEffect (b : Body) : List (Handle × UInt32) :=
  linesFrom b.lines b.firstlineno b.instrs

/-- The source line in effect at a live instruction. -/
def lineOf (b : Body) (id : Handle) : Option UInt32 := b.linesInEffect.lookup id

/-! ### Checks -/

/-- Fails on a handle that is unknown or in `seen`, and on a variable that is neither cell nor
    free; all other handles are checked after it. -/
def check (b : Body) (seen : List Handle) : List Handle → Except BuildError Unit
  | [] => .ok ()
  | id :: rest =>
    match b.pool.get? id with
    | none => .error (.unknownInstr id)
    | some i =>
      if id ∈ seen then .error (.duplicateInstr id)
      else
        match i.operand with
        | .freeVar s =>
          if s ∈ b.cellvars ∨ s ∈ b.freevars then check b (id :: seen) rest
          else .error (.unknownFreeVar i.opcode s)
        | _ => check b (id :: seen) rest

/-- The flags of a body that gives none. -/
def derivedFlags (b : Body) : Flags :=
  ((((Flags.ofList [.optimized, .newLocals]).set .varargs b.signature.varargs.isSome).set
    .varKeywords b.signature.varkw.isSome).set
    .generator (b.opcodes.any Opcode.isYield)).set
    .noFree (!b.opcodes.any Opcode.usesFree)

end Body

namespace Routine

/-- The routine of a draft. -/
def ofDraft? (d : Draft) : Except BuildError Routine := do
  d.toBody.check [] d.instrs
  return { d.toBody with flags := d.flags.getD d.toBody.derivedFlags }

/-- The draft that makes the same routine again. -/
def toDraft (c : Routine) : Draft := { c.toBody with flags := some c.flags }

/-- What the flags say of the routine, and whether it is empty. -/
def traits (c : Routine) : List String :=
  let named := [(Flag.generator, "generator"), (.coroutine, "coroutine"),
    (.iterableCoroutine, "iterable_coroutine"), (.nested, "nested"), (.newLocals, "newlocals")]
  (named.filter (c.flags.has ·.1)).map (·.2) ++ if c.instrs.isEmpty then ["empty"] else []

end Routine

end StackCode

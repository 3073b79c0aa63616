import StackCode.Instr

namespace StackCode

/-!
# The instruction pool

A pool gives instructions their identity.  It only grows; a handle is a place in it.  Beside every
instruction stand the instructions that jump to it, so that all of them can be redirected at once.

* `Pool.insert`, `Pool.insertMany` — store instructions.
* `Pool.replace` — gives an instruction another operand.
* `Pool.steal` — hands the jumps to one instruction over to another.
* `Pool.resolve`, `Pool.successor` — follow the instructions that took over from each other.

The changing operations are actions on a pool; one that fails leaves the pool as it was.
-/

/-- An instruction in its pool. -/
structure Slot where
  instr : Instr
  /-- The instructions that jump here. -/
  targetOf : List Handle := []
  /-- The instruction that took over the jumps to this one. -/
  stolenBy : Option Handle := none
  deriving DecidableEq

/-- The instructions allocated so far. -/
structure Pool where
  slots : Array Slot := #[]
  deriving DecidableEq

/-- An action on a pool. -/
abbrev PoolM (α : Type) := EStateM BuildError Pool α

/-- Runs a check that leaves the state alone. -/
def guarded {σ α : Type} (check : Except BuildError α) : EStateM BuildError σ α :=
  match check with
  | .ok a => pure a
  | .error e => throw e

namespace Pool

/-- How many instructions the pool has given handles to. -/
def size (p : Pool) : Nat := p.slots.size

/-- The pool has given out the handle. -/
def contains (p : Pool) (id : Handle) : Bool := id < p.size

/-- The instruction of a handle. -/
def get? (p : Pool) (id : Handle) : Option Instr := p.slots[id]?.map (·.instr)

/-- The instructions that jump to `id`, in the order in which they came to do so. -/
def targetOf (p : Pool) (id : Handle) : List Handle := (p.slots[id]?.map (·.targetOf)).getD []

/-- The instruction that took over the jumps to `id`. -/
def stolenBy (p : Pool) (id : Handle) : Option Handle := p.slots[id]?.bind (·.stolenBy)

/-- The target of the jump `id`. -/
def target? (p : Pool) (id : Handle) : Option Handle := (p.get? id).bind Instr.target?

/-! ### Changes to single slots -/

/-- The pool with one more instruction, whose target does not know of it yet. -/
def push (p : Pool) (i : Instr) : Pool := ⟨p.slots.push { instr := i }⟩

/-- The pool with another operand, where notes stay as they are. -/
def setOperand (p : Pool) (id : Handle) (operand : Operand) : Pool :=
  ⟨p.slots.modify id fun s => { s with instr := { s.instr with operand := operand } }⟩

/-- Notes that `jumper` jumps to `id`. -/
def addJumper (p : Pool) (id jumper : Handle) : Pool :=
  ⟨p.slots.modify id fun s =>
    if jumper ∈ s.targetOf then s else { s with targetOf := s.targetOf ++ [jumper] }⟩

/-- Notes that `jumper` does not jump to `id`. -/
def dropJumper (p : Pool) (id jumper : Handle) : Pool :=
  ⟨p.slots.modify id fun s => { s with targetOf := s.targetOf.filter (· ≠ jumper) }⟩

/-- Notes the jump `id` at its target. -/
def link (p : Pool) (id : Handle) : Pool :=
  match p.target? id with
  | some t => p.addJumper t id
  | none => p

/-- Takes back the note of the jump `id`. -/
def unlink (p : Pool) (id : Handle) : Pool :=
  match p.target? id with
  | some t => p.dropJumper t id
  | none => p

/-! ### Operations -/

/-- Fails on a handle from `bound` on. -/
def checkBelow (bound : Nat) (id : Handle) : Except BuildError Unit :=
  if id < bound then .ok () else .error (.unknownInstr id)

/-- Fails on a jump to a handle from `bound` on. -/
def checkTarget (bound : Nat) (operand : Operand) : Except BuildError Unit :=
  match operand.target? with
  | some t => checkBelow bound t
  | none => .ok ()

/-- Stores an instruction.  A jump has to lead to an instruction that is stored already. -/
def insert (i : Instr) : PoolM Handle := do
  let p ← get
  guarded (checkTarget p.size i.operand)
  set ((p.push i).link p.size)
  return p.size

/-- Stores instructions under consecutive handles.  Their jumps may lead to each other. -/
def insertMany (instrs : List Instr) : PoolM (List Handle) := do
  let p ← get
  let total := p.size + instrs.length
  guarded (instrs.forM fun i => checkTarget total i.operand)
  let ids := List.range' p.size instrs.length
  set (ids.foldl link (instrs.foldl push p))
  return ids

/-- Gives the instruction `id` another operand, which has to fit its opcode. -/
def replace (id : Handle) (operand : Operand) : PoolM Unit := do
  let p ← get
  match p.get? id with
  | none => throw (.unknownInstr id)
  | some old =>
    let _ ← guarded (Instr.new? old.opcode operand)
    guarded (checkTarget p.size operand)
    set (((p.unlink id).setOperand id operand).link id)

/-- The pool in which the jumps to `victim` lead to `thief`. -/
def moveJumps (p : Pool) (thief victim : Handle) : Pool :=
  let incoming := p.targetOf victim
  let cleared : Pool := ⟨p.slots.modify victim fun s => { s with targetOf := [] }⟩
  let redirected := incoming.foldl (fun q j => q.setOperand j (.jump thief)) cleared
  let noted := incoming.foldl (fun q j => q.addJumper thief j) redirected
  ⟨noted.slots.modify victim fun s => { s with stolenBy := some thief }⟩

/-- Hands the jumps to `victim` over to `thief`; nothing happens when they are the same. -/
def steal (thief victim : Handle) : PoolM Unit := do
  let p ← get
  guarded (checkBelow p.size thief)
  guarded (checkBelow p.size victim)
  if thief ≠ victim then set (p.moveJumps thief victim)

/-! ### Successors -/

/-- The instruction reached from `id` in at most `fuel` steps to an instruction that took over. -/
def resolveIn (p : Pool) : (fuel : Nat) → Handle → Handle
  | 0, id => id
  | fuel + 1, id =>
    match p.stolenBy id with
    | some next => resolveIn p fuel next
    | none => id

/-- The last of the instructions that took over from each other, starting with `id`. -/
def resolve (p : Pool) (id : Handle) : Handle := p.resolveIn p.size id

/-- The first accepted instruction among `id` and those that took over, `fuel` of them at most. -/
def acceptedIn (p : Pool) (accept : Handle → Bool) : (fuel : Nat) → Handle → Option Handle
  | 0, _ => none
  | fuel + 1, id =>
    if accept id then some id
    else
      match p.stolenBy id with
      | some next => acceptedIn p accept fuel next
      | none => none

/-- The first accepted instruction among those that took over from `id`. -/
def successor (p : Pool) (id : Handle) (accept : Handle → Bool) : Option Handle :=
  match p.stolenBy id with
  | some next => p.acceptedIn accept p.size next
  | none => none

end Pool

end StackCode

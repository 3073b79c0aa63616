import StackCode.Routine

namespace StackCode

/-!
# Building routines

* `Builder` — a draft with the labels and the line that wait for the next instruction.
* `Builder.label`, `Builder.place` — a label is a placeholder in the pool that jumps may lead to;
  once it is placed, the next instruction takes its jumps over.
* `Builder.push` — appends an instruction.
* `Builder.build` — the routine built so far; the builder starts afresh.
-/

/-- A routine under construction. -/
structure Builder where
  draft : Draft := { name := "<code>", filename := "<codeweave>", firstlineno := 1 }
  /-- The labels that are placed before the next instruction. -/
  pendingLabels : List Handle := []
  /-- The line that the next instruction starts. -/
  pendingLine : Option UInt32 := none
  deriving DecidableEq

/-- An action on a builder. -/
abbrev BuilderM (α : Type) := EStateM BuildError Builder α

namespace Builder

/-- Runs an action on the builder's pool.  What a failing action has done to it stays done. -/
def onPool {α : Type} (act : PoolM α) : BuilderM α := fun b =>
  match act.run b.draft.pool with
  | .ok a pool => .ok a { b with draft := { b.draft with pool := pool } }
  | .error e pool => .error e { b with draft := { b.draft with pool := pool } }

/-- Changes the draft. -/
def modifyDraft (f : Draft → Draft) : BuilderM Unit :=
  modify fun b => { b with draft := f b.draft }

/-- Sets the parameters. -/
def args (words : List String) : BuilderM Unit := do
  let sig ← guarded (Signature.parse? words)
  modifyDraft fun d => { d with signature := sig }

/-- The next instruction starts `line`. -/
def line (line : UInt32) : BuilderM Unit := modify fun b => { b with pendingLine := some line }

/-- A new label that is not placed yet. -/
def label : BuilderM Handle := do
  let i ← guarded (Instr.new? .nop .none)
  onPool (Pool.insert i)

/-- Places a label before the next instruction. -/
def place (label : Handle) : BuilderM Unit :=
  modify fun b => { b with pendingLabels := b.pendingLabels ++ [label] }

/-- Appends an instruction.  A jump to a label that is placed leads on to the instruction after the
    label. -/
def pushInstr (i : Instr) : BuilderM Handle := do
  let b ← get
  let i ← match i.target? with
    | some t => guarded (Instr.new? i.opcode (.jump (b.draft.pool.resolve t)))
    | none => pure i
  let id ← onPool (Pool.insert i)
  modify fun b => { b with pendingLabels := [] }
  b.pendingLabels.forM fun l => onPool (Pool.steal id l)
  modify fun b => { b with
    pendingLine := none
    draft := { b.draft with
      lines := match b.pendingLine with
        | some l => b.draft.lines.insert id l
        | none => b.draft.lines
      instrs := b.draft.instrs ++ [id] } }
  return id

/-- Appends an instruction whose operand has to fit its opcode. -/
def push (opcode : Opcode) (operand : Operand) : BuilderM Handle := do
  let i ← guarded (Instr.new? opcode operand)
  pushInstr i

/-- The routine built so far.  The builder gives its draft away, whether or not it is sound. -/
def build : BuilderM Routine := do
  let b ← get
  unless b.pendingLabels.isEmpty do throw .trailingLabel
  set { b with draft := {} }
  guarded (Routine.ofDraft? b.draft)

end Builder

end StackCode

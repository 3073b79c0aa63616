import StackCode.Transform.Rule

namespace StackCode

/-!
# Handlers as data

* `Action` — a step of a handler that is written down as data.
* `Action.handler` — the handler that takes the steps in order; the first fault ends it.
* `Visit` — what a handler notes of a firing; the notes are the user state.

A handler keeps two lists: the instructions that it puts in place of the run, and those that it has
made.
-/

/-- An instruction that a step refers to. -/
inductive Ref where
  /-- One of the run. -/
  | matched (index : Nat)
  /-- One of those that the handler has made. -/
  | made (index : Nat)
  /-- One by its handle, which is not checked. -/
  | id (handle : Handle)
  deriving DecidableEq, Repr

/-- The reference as text. -/
def Ref.text : Ref → String
  | .matched k => s!"[\"m\",{k}]"
  | .made k => s!"[\"n\",{k}]"
  | .id n => s!"[\"id\",{n}]"

/-- An instruction that a step makes. -/
inductive Making where
  | instr (opcode : Opcode) (operand : Operand)
  | jump (opcode : Opcode) (target : Ref)
  /-- Another instruction of the same opcode and operand. -/
  | copy (source : Ref)
  /-- Loads the transformed unit that another instruction loads. -/
  | nested (source : Ref)
  deriving DecidableEq

/-- A step of a handler. -/
inductive Action where
  /-- Puts the whole run in place. -/
  | keep
  | put (r : Ref)
  /-- Makes an instruction and, unless it is hidden, puts it in place. -/
  | make (m : Making) (hide : Bool)
  | steal (thief victim : Ref)
  | setLine (r : Ref) (line : UInt32)
  | begin (m : Mode)
  | fail (report : String)
  /-- Notes the firing. -/
  | log
  deriving DecidableEq

/-- The note of a firing. -/
structure Visit where
  unit : String
  mode : Mode
  matched : List Handle
  texts : List String
  /-- The lines that the matched instructions start. -/
  lines : List (Option UInt32)
  /-- The number of instructions in the pool. -/
  poolSize : Nat
  /-- The number of notes before this one. -/
  logged : Nat
  description : String
  deriving DecidableEq

/-- The instructions put in place and those made so far. -/
structure Progress where
  out : List Handle := []
  made : List Handle := []

namespace Action

/-- The script of a handler that notes firings. -/
abbrev LogScript := Script (List Visit)

/-- Goes on with an instruction that exists. -/
def withRef (matched : List Handle) (p : Progress) (r : Ref) (k : Handle → LogScript) :
    LogScript :=
  let found := match r with
    | .matched n => matched[n]?
    | .made n => p.made[n]?
    | .id n => some n
  match found with
  | some id => k id
  | none => .fail (.handler ("no such reference " ++ r.text))

/-- Goes on with a result, or fails with a fault. -/
def orFail {α : Type} (k : α → LogScript) : Except BuildError α → LogScript
  | .ok a => k a
  | .error e => .fail (.build e)

/-- Stores an instruction whose operand has to fit its opcode. -/
def emit (opcode : Opcode) (operand : Operand) (k : Handle → LogScript) : LogScript :=
  orFail (fun i => .emit i (orFail k)) (Instr.new? opcode operand)

/-- Goes on with the instruction behind a handle. -/
def withInstr (id : Handle) (k : Instr → LogScript) : LogScript :=
  .look fun v =>
    match v.draft.pool.get? id with
    | some i => k i
    | none => .fail (.unknownInstr id)

/-- Makes an instruction, and goes on with it. -/
def making (matched : List Handle) (p : Progress) (m : Making) (k : Handle → LogScript) :
    LogScript :=
  match m with
  | .instr opcode operand => emit opcode operand k
  | .jump opcode target => withRef matched p target fun t => emit opcode (.jump t) k
  | .copy source =>
    withRef matched p source fun id => withInstr id fun i => emit i.opcode i.operand k
  | .nested source =>
    withRef matched p source fun id => withInstr id fun i =>
      match i.operand with
      | .const (.code unit) =>
        .nested unit fun
          | .ok result => emit .loadConst (.const (.code result)) k
          | .error e => .fail e
      | _ => .fail (.handler "not a code constant")

/-- The note of a firing. -/
def visit (matched : List Handle) (v : View (List Visit)) : Visit where
  unit := v.draft.name
  mode := v.mode
  matched := matched
  texts := matched.filterMap fun id => (v.draft.pool.get? id).map Instr.text
  lines := matched.map v.draft.lines.get?
  poolSize := v.draft.pool.size
  logged := v.state.length
  description := "Rewrite \x7b unit: " ++ String.ofList (Text.quote v.draft.name) ++ ", mode: " ++
    v.mode.describe ++ ", .. \x7d"

/-- The script of steps that follow upon some progress. -/
def script (matched : List Handle) (p : Progress) : List Action → LogScript
  | [] => .done p.out
  | .keep :: rest => script matched { p with out := p.out ++ matched } rest
  | .put r :: rest =>
    withRef matched p r fun id => script matched { p with out := p.out ++ [id] } rest
  | .make m hide :: rest =>
    making matched p m fun id =>
      script matched ⟨if hide then p.out else p.out ++ [id], p.made ++ [id]⟩ rest
  | .steal thief victim :: rest =>
    withRef matched p thief fun t => withRef matched p victim fun v =>
      .steal t v (orFail fun _ => script matched p rest)
  | .setLine r line :: rest =>
    withRef matched p r fun id => .setLine id line (script matched p rest)
  | .begin m :: rest => .begin m (script matched p rest)
  | .fail report :: _ => .fail (.handler report)
  | .log :: rest =>
    .look fun v => .setState (v.state ++ [visit matched v]) (script matched p rest)

/-- The handler that takes steps in order. -/
def handler (actions : List Action) : Handler (List Visit) := fun matched =>
  script matched {} actions

end Action

end StackCode

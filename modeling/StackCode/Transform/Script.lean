import StackCode.Mode
import StackCode.Routine.Load
import StackCode.Routine.Store

namespace StackCode

/-!
# Scripts of handlers

A handler replaces a run of instructions.  What it does is a script: a program of the operations
that a pass offers, ending in the instructions that take the place of the run.

* `Script` — a program over a user state.
* `View` — what a script sees of the pass.
* `TransformError` — why a pass fails.
-/

/-- Why a pass fails. -/
inductive TransformError where
  | build (e : BuildError)
  | load (e : LoadError)
  | store (e : StoreError)
  /-- A handle that is not of this unit. -/
  | unknownInstr (id : Handle)
  /-- A handler's own report. -/
  | handler (report : String)
  /-- Passes that handlers have nested deeper than `Transformer.handlerDepth`, in place of passes
      that may never come to an end. -/
  | tooDeep
  deriving DecidableEq, Repr

def TransformError.message : TransformError → String
  | .build e => e.message
  | .load e => e.message
  | .store e => e.message
  | .unknownInstr id => "instruction " ++ handleText id ++ " does not belong to this unit"
  | .handler report => report
  | .tooDeep => "passes are nested too deep"

/-- What a script sees of the pass. -/
structure View (σ : Type) where
  /-- The unit; its sequence is that from before the pass. -/
  draft : Draft
  mode : Mode
  state : σ

/-- A program of a handler.  An operation that can fail hands its result to what follows, which may
    go on or fail with it. -/
inductive Script (σ : Type) : Type where
  /-- Ends with the instructions that take the place of the run. -/
  | done (out : List Handle)
  | fail (e : TransformError)
  | look (k : View σ → Script σ)
  /-- Stores an instruction. -/
  | emit (i : Instr) (k : Except BuildError Handle → Script σ)
  /-- Hands the jumps to `victim` over to `thief`. -/
  | steal (thief victim : Handle) (k : Except BuildError Unit → Script σ)
  /-- Marks an instruction as the start of a line. -/
  | setLine (id : Handle) (line : UInt32) (k : Script σ)
  /-- Switches the pass to a mode. -/
  | begin (m : Mode) (k : Script σ)
  | setState (s : σ) (k : Script σ)
  /-- Transforms a nested unit by the same rules. -/
  | nested (unit : StoredUnit) (k : Except TransformError StoredUnit → Script σ)

/-- The program that replaces a run of instructions. -/
abbrev Handler (σ : Type) := (matched : List Handle) → Script σ

end StackCode

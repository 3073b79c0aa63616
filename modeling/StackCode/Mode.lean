namespace StackCode

/-!
# Modes

* `Mode` — what gates rules: a rule fires only in its modes.
* `ModeStack` — the modes of the passes in progress; each pass starts in mode `0`.
-/

/-- A state of a pass that gates rules. -/
structure Mode where
  number : UInt32 := 0
  deriving DecidableEq, Repr, Inhabited

/-- The mode as messages name it. -/
def Mode.text (m : Mode) : String := s!"mode {m.number.toNat}"

/-- The mode in descriptions of rules and passes. -/
def Mode.describe (m : Mode) : String := s!"Mode({m.number.toNat})"

/-- The modes of the passes in progress, that of the innermost pass first. -/
structure ModeStack where
  frames : List Mode := []
  deriving DecidableEq, Repr

namespace ModeStack

/-- The mode of the innermost pass, `0` outside of passes. -/
def current (s : ModeStack) : Mode := s.frames.headD {}

/-- The number of passes in progress. -/
def depth (s : ModeStack) : Nat := s.frames.length

/-- Starts a pass. -/
def enter (s : ModeStack) : ModeStack := ⟨{} :: s.frames⟩

/-- Ends the innermost pass. -/
def leave (s : ModeStack) : ModeStack := ⟨s.frames.tail⟩

/-- Switches the innermost pass to a mode; outside of passes nothing happens. -/
def begin (s : ModeStack) (m : Mode) : ModeStack :=
  match s.frames with
  | [] => s
  | _ :: rest => ⟨m :: rest⟩

/-- To leave a frame that was entered changes nothing. -/
@[simp] theorem leave_enter (s : ModeStack) : s.enter.leave = s := rfl

/-- The mode that is begun is left with its frame. -/
@[simp] theorem leave_begin (s : ModeStack) (m : Mode) : (s.begin m).leave = s.leave := by
  cases s with
  | mk frames => cases frames <;> rfl

/-- To begin a mode enters no frame. -/
@[simp] theorem depth_begin (s : ModeStack) (m : Mode) : (s.begin m).depth = s.depth := by
  cases s with
  | mk frames => cases frames <;> rfl

end ModeStack

end StackCode

import Mathlib.Logic.Relation
import StackCode.Machine

namespace StackCode.Machine

/-!
# Turns of a run

A run takes turns: each fetches an instruction and does it.

* `Turn` — what comes of one turn; `turn` — the turn at a program counter.
* `run_succ` — a run is a turn and the run behind it.
* `Reaches` — a run gets from one program counter and frame to another by turns that go on.
* `Reaches.invariant` — what every turn keeps holds wherever a run gets.
* `exists_fails_of_run` — an error of a run is the step limit, or that of a turn that is reached.
* `exists_returns_of_run` — a value of a run is that of a turn that is reached.
-/

variable {unit : StoredUnit} {e : Encoding}

/-- What comes of one turn of a run. -/
inductive Turn where
  /-- The run goes on. -/
  | goes (pc : Nat) (frame : Frame)
  | returns (value : Const) (frame : Frame)
  | fails (err : EvalError)

/-- The turn at `pc`: the instruction there is fetched and done. -/
def turn (unit : StoredUnit) (e : Encoding) (pc : Nat) (frame : Frame) : Turn :=
  match fetch e unit.code pc with
  | .error err => .fails err
  | .ok here =>
    match (step unit here).run frame with
    | .error err _ => .fails err
    | .ok (.done value) frame => .returns value frame
    | .ok .next frame => .goes here.next frame
    | .ok .jump frame => .goes (jumpTarget here) frame

/-- **Turns.** A run takes the turn at its program counter, and runs on from where that goes. -/
theorem run_succ (done left pc : Nat) (frame : Frame) :
    run unit e done (left + 1) pc frame =
      match turn unit e pc frame with
      | .goes pc frame => run unit e (done + 1) left pc frame
      | .returns value frame => .ok ⟨value, done + 1, frame.maxDepth⟩
      | .fails err => .error err := by
  rw [run, turn]
  cases fetch e unit.code pc with
  | error err => rfl
  | ok here =>
    simp only [bind, Except.bind]
    cases (step unit here).run frame with
    | error err frame => rfl
    | ok flow frame => cases flow <;> rfl

/-! ### Places that a run gets to -/

/-- A run that is at the first program counter, with the frame beside it, gets to the second. -/
def Reaches (unit : StoredUnit) (e : Encoding) : Nat × Frame → Nat × Frame → Prop :=
  Relation.ReflTransGen fun here there => turn unit e here.1 here.2 = .goes there.1 there.2

/-- **Invariants.** What holds at the start and is kept by every turn that goes on holds wherever
    the run gets. -/
theorem Reaches.invariant {I : Nat → Frame → Prop} {start here : Nat × Frame}
    (h : Reaches unit e start here)
    (hkeep : ∀ pc frame, I pc frame → ∀ pc' frame', turn unit e pc frame = .goes pc' frame' →
      I pc' frame')
    (hstart : I start.1 start.2) : I here.1 here.2 := by
  induction h with
  | refl => exact hstart
  | tail _ hturn ih => exact hkeep _ _ ih _ _ hturn

/-- **Errors.** A run that fails has come to its step limit, or to a turn that fails. -/
theorem exists_fails_of_run {done left pc : Nat} {frame : Frame} {err : EvalError}
    (h : run unit e done left pc frame = .error err) :
    err = .stepLimit (done + left) ∨
      ∃ pc' frame', Reaches unit e (pc, frame) (pc', frame') ∧
        turn unit e pc' frame' = .fails err := by
  -- The induction is on the steps that are left; each turn that goes on takes one of them.
  induction left generalizing done pc frame with
  | zero =>
    cases h
    exact .inl rfl
  | succ left ih =>
    rw [run_succ] at h
    cases hturn : turn unit e pc frame with
    | goes pc₁ frame₁ =>
      rw [hturn] at h
      rcases ih h with hlimit | ⟨pc', frame', hreach, hfails⟩
      · left
        rw [hlimit, Nat.add_assoc, Nat.add_comm 1]
      · right
        exact ⟨pc', frame', .head hturn hreach, hfails⟩
    | returns value frame₁ =>
      rw [hturn] at h
      cases h
    | fails err' =>
      rw [hturn] at h
      cases h
      exact .inr ⟨pc, frame, .refl, hturn⟩

/-- **Values.** A run that has a value has come to a turn that returns it. -/
theorem exists_returns_of_run {done left pc : Nat} {frame : Frame} {outcome : Outcome}
    (h : run unit e done left pc frame = .ok outcome) :
    ∃ pc' frame' frame'', Reaches unit e (pc, frame) (pc', frame') ∧
      turn unit e pc' frame' = .returns outcome.value frame'' ∧
      outcome.maxDepth = frame''.maxDepth := by
  induction left generalizing done pc frame with
  | zero => cases h
  | succ left ih =>
    rw [run_succ] at h
    cases hturn : turn unit e pc frame with
    | goes pc₁ frame₁ =>
      rw [hturn] at h
      obtain ⟨pc', frame', frame'', hreach, hreturns, hdepth⟩ := ih h
      exact ⟨pc', frame', frame'', .head hturn hreach, hreturns, hdepth⟩
    | returns value frame₁ =>
      rw [hturn] at h
      cases h
      exact ⟨pc, frame, frame₁, .refl, hturn, rfl⟩
    | fails err =>
      rw [hturn] at h
      cases h

end StackCode.Machine

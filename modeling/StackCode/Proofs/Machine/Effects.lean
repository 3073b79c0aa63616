import Mathlib.Algebra.Ring.Int.Defs
import Mathlib.Algebra.Ring.Nat
import StackCode.Machine
import StackCode.Proofs.Bytecode
import StackCode.Proofs.Fallible

namespace StackCode

/-!
# Stack effects

How the instructions change the number of values on the stack, by the stack effects of their
opcodes.

* `Machine.Moves` — actions that change the number of values on the stack by a given amount, with
  a lemma for each action that instructions are made of.
* `Machine.step_moves` — instructions change it by the stack effect of their opcode, but for the two
  jumps that pop a value where they are not taken; none needs more room than that effect.
* `Machine.size_of_step` — the exact change by an instruction of a code, for each way to go on.
-/

namespace Machine

/-! ### Actions -/

/-- Where the action succeeds, it changes the number of values on the stack by `change`, and at no
    time are there more than `peak` values beyond those at its start. -/
def Moves {α : Type} (change : α → Int) (peak : Int) (m : FrameM α) : Prop :=
  ∀ frame a frame', m.run frame = .ok a frame' →
    (frame'.stack.size : Int) = frame.stack.size + change a ∧
      (frame'.maxDepth : Int) ≤ max (frame.maxDepth : Int) (frame.stack.size + peak)

section

variable {α β : Type} {here : Located} {amount peak : Int}

/-- Returning a value changes nothing. -/
theorem moves_pure {change : α → Int} (a : α) (h : change a = 0) :
    Moves change peak (pure a : FrameM α) := by
  intro frame a' frame' hrun
  obtain ⟨rfl, rfl⟩ := run_pure_eq_ok.1 hrun
  omega

/-- What fails has no change to account for. -/
theorem moves_throw {change : α → Int} (err : EvalError) :
    Moves change peak (throw err : FrameM α) := by
  intro frame a frame' hrun
  cases hrun

/-- What a first action leaves of the change and of the room is up to the second. -/
theorem moves_bind {change : β → Int} {m : FrameM α} {k : α → FrameM β}
    (hm : Moves (fun _ => amount) peak m)
    (hk : ∀ a, Moves (fun b => change b - amount) (peak - amount) (k a)) :
    Moves change peak (m >>= k) := by
  intro frame b frame'' hrun
  obtain ⟨a, frame', hfirst, hsecond⟩ := run_bind_eq_ok.1 hrun
  have h₁ := hm frame a frame' hfirst
  have h₂ := hk a frame' b frame'' hsecond
  dsimp only at h₁ h₂
  omega

/-- A push adds a value, and reaches one above. -/
theorem moves_push (c : Const) (h : 1 ≤ peak) : Moves (fun _ => 1) peak (push c) := by
  intro frame a frame' hrun
  cases hrun
  simp only [Array.size_push]
  omega

/-- A pop takes a value away. -/
theorem moves_pop : Moves (fun _ => -1) peak (pop here) := by
  intro frame a frame' hrun
  unfold pop at hrun
  simp only [EStateM.run_bind, EStateM.run_get] at hrun
  cases hback : frame.stack.back? with
  | none =>
    rw [hback] at hrun
    cases hrun
  | some c =>
    rw [hback] at hrun
    cases hrun
    have hpos : 0 < frame.stack.size := by
      rw [Array.back?_eq_getElem?] at hback
      have := (Array.getElem?_eq_some_iff.1 hback).1
      omega
    simp only [Array.size_pop]
    omega

/-- A look changes nothing. -/
theorem moves_peek (depth : Nat) : Moves (fun _ => 0) peak (peek here depth) := by
  intro frame a frame' hrun
  unfold peek at hrun
  simp only [EStateM.run_bind, EStateM.run_get] at hrun
  by_cases hsize : frame.stack.size < depth + 1
  · simp only [if_pos hsize] at hrun
    cases hrun
  · simp only [if_neg hsize] at hrun
    cases hvalue : frame.stack[frame.stack.size - (depth + 1)]? with
    | none =>
      rw [hvalue] at hrun
      cases hrun
    | some c =>
      rw [hvalue] at hrun
      cases hrun
      dsimp only
      omega

/-- Popping several values takes them all away. -/
theorem moves_popMany (n : Nat) : Moves (fun _ => -(n : Int)) peak (popMany here n) := by
  intro frame a frame' hrun
  unfold popMany at hrun
  simp only [EStateM.run_bind, EStateM.run_get] at hrun
  by_cases hsize : frame.stack.size < n
  · simp only [if_pos hsize] at hrun
    cases hrun
  · simp only [if_neg hsize] at hrun
    cases hrun
    simp only [Array.size_extract]
    omega

/-- Pushing the result of an operation adds a value. -/
theorem moves_pushResult (r : Except Arith.Fault Const) (h : 1 ≤ peak) :
    Moves (fun _ => 1) peak (pushResult here r) := by
  cases r with
  | ok c => exact moves_push c h
  | error fault => exact moves_throw _

/-- Finding a local variable changes nothing. -/
theorem moves_localSlot : Moves (fun _ => 0) peak (localSlot here) := by
  intro frame a frame' hrun
  unfold localSlot at hrun
  simp only [EStateM.run_bind, EStateM.run_get] at hrun
  cases hlocal : frame.locals[here.arg]? with
  | none =>
    rw [hlocal] at hrun
    cases hrun
  | some content =>
    rw [hlocal] at hrun
    cases hrun
    dsimp only
    omega

/-- Setting a local variable changes nothing on the stack. -/
theorem moves_setLocal (content : Option Const) :
    Moves (fun _ => 0) peak (setLocal here content) := by
  intro frame a frame' hrun
  cases hrun
  simp only
  omega

/-! ### Instructions -/

/-- How many values an instruction leaves beyond those at its start: as many as the stack effect of
    its opcode says, but for a jump that pops a value where it is not taken. -/
def change (here : Located) (flow : Flow) : Int :=
  match here.opcode, flow with
  | .jumpIfFalseOrPop, .next => -1
  | .jumpIfTrueOrPop, .next => -1
  | opcode, _ => opcode.stackEffect (UInt32.ofNat here.arg)

/-- The two jumps pop the value where they fall through, and their effect is that of the jump. -/
theorem change_next_of_mem (h : here.opcode ∈ [.jumpIfFalseOrPop, .jumpIfTrueOrPop]) :
    change here .next = here.opcode.stackEffect (UInt32.ofNat here.arg) - 1 := by
  unfold change
  rw [List.mem_pair] at h
  rcases h with hop | hop
  · rw [hop]
    rfl
  · rw [hop]
    rfl

/-- But for two opcodes, the change is the effect in the catalog, whichever way the run goes on. -/
theorem change_of_not_mem (h : here.opcode ∉ [.jumpIfFalseOrPop, .jumpIfTrueOrPop])
    (flow : Flow) : change here flow = here.opcode.stackEffect (UInt32.ofNat here.arg) := by
  rw [List.mem_pair, not_or] at h
  unfold change
  split
  · exact absurd ‹_› h.1
  · exact absurd ‹_› h.2
  · rfl

/-- When a run jumps, the change is the effect in the catalog for all opcodes. -/
theorem change_of_ne_next {flow : Flow} (h : flow ≠ .next) :
    change here flow = here.opcode.stackEffect (UInt32.ofNat here.arg) := by
  unfold change
  split
  · exact absurd rfl h
  · exact absurd rfl h
  · rfl

/-- The effect in the catalog is an upper bound in all cases. -/
theorem change_le (here : Located) (flow : Flow) :
    change here flow ≤ here.opcode.stackEffect (UInt32.ofNat here.arg) := by
  by_cases hop : here.opcode ∈ [.jumpIfFalseOrPop, .jumpIfTrueOrPop]
  · by_cases hflow : flow = .next
    · rw [hflow, change_next_of_mem hop]
      omega
    · exact Int.le_of_eq (change_of_ne_next hflow)
  · exact Int.le_of_eq (change_of_not_mem hop flow)

/-- Operand fields of less than 31 bits are read as they are. -/
theorem toInt32_ofNat {n : Nat} (h : n < 2 ^ 31) : (UInt32.ofNat n).toInt32.toInt = n := by
  have hnat : (UInt32.ofNat n).toNat = n := UInt32.toNat_ofNat_of_lt' (by
    show n < 4294967296
    omega)
  show (UInt32.ofNat n).toBitVec.toInt = n
  rw [BitVec.toInt_eq_toNat_of_lt]
  · exact congrArg Nat.cast hnat
  · show 2 * (UInt32.ofNat n).toNat < 2 ^ 32
    omega

/-- **Steps.** An instruction changes the number of values by the stack effect of its opcode, and
    needs no more room than that. -/
theorem step_moves (unit : StoredUnit) (harg : here.arg < 2 ^ 31) :
    Moves (change here) (max 0 (here.opcode.stackEffect (UInt32.ofNat here.arg)))
      (step unit here) := by
  have hnumber := toInt32_ofNat harg
  unfold step change
  cases hop : here.opcode
  all_goals dsimp only [operator?, Opcode.stackEffect]
  case buildTuple =>
    rw [hnumber]
    refine moves_bind (moves_popMany _) fun items => moves_bind (moves_push _ ?_) fun _ =>
      moves_pure _ ?_
    · omega
    · omega
  case jumpIfFalseOrPop =>
    refine moves_bind (moves_peek 0) fun c => ?_
    cases Arith.truthy c with
    | false => exact moves_pure _ rfl
    | true => exact moves_bind moves_pop fun _ => moves_pure _ rfl
  case jumpIfTrueOrPop =>
    refine moves_bind (moves_peek 0) fun c => ?_
    cases Arith.truthy c with
    | false => exact moves_bind moves_pop fun _ => moves_pure _ rfl
    | true => exact moves_pure _ rfl
  case loadConst =>
    cases unit.consts[here.arg]? with
    | none => exact moves_throw _
    | some c => exact moves_bind (moves_push c (by decide)) fun _ => moves_pure _ rfl
  case loadFast =>
    refine moves_bind moves_localSlot fun content => ?_
    cases content with
    | none => exact moves_throw _
    | some c => exact moves_bind (moves_push c (by decide)) fun _ => moves_pure _ rfl
  -- All other instructions pop and push a fixed number of values, or have no meaning.
  all_goals repeat first
    | exact moves_throw _
    | exact moves_pure _ (by decide)
    | refine moves_bind moves_pop fun _ => ?_
    | refine moves_bind (moves_peek _) fun _ => ?_
    | refine moves_bind moves_localSlot fun _ => ?_
    | refine moves_bind (moves_setLocal _) fun _ => ?_
    | refine moves_bind (moves_push _ (by decide)) fun _ => ?_
    | refine moves_bind (moves_pushResult _ (by decide)) fun _ => ?_

end

/-! ### Instructions of a code -/

section

variable {e : Encoding} {code : List UInt8} {pc : Nat} {here : Located}

/-- Operands of a code are far below the bound of signed numbers. -/
theorem arg_lt_of_fetch (hfetch : fetch e code pc = .ok here) : here.arg < 2 ^ 31 := by
  unfold fetch at hfetch
  cases hrest : code.drop pc with
  | nil =>
    rw [hrest] at hfetch
    cases hfetch
  | cons byte rest =>
    rw [hrest] at hfetch
    exact Nat.lt_of_le_of_lt (arg_le_of_locate (mapError_eq_ok.1 hfetch)) (by cases e <;> decide)

/-- **Stack effects.** An instruction that succeeds changes the number of values on the stack by the
    stack effect of its opcode, whether it jumps, returns or falls through.  The exception are the
    jumps that keep a value only where they are taken: their effect is that of the jump, and they
    leave one value less where they fall through. -/
theorem size_of_step {unit : StoredUnit} (hfetch : fetch e unit.code pc = .ok here)
    {frame frame' : Frame} {flow : Flow} (hrun : (step unit here).run frame = .ok flow frame') :
    (flow ≠ .next →
      (frame'.stack.size : Int) =
        frame.stack.size + here.opcode.stackEffect (UInt32.ofNat here.arg)) ∧
    (flow = .next → here.opcode ∉ [.jumpIfFalseOrPop, .jumpIfTrueOrPop] →
      (frame'.stack.size : Int) =
        frame.stack.size + here.opcode.stackEffect (UInt32.ofNat here.arg)) ∧
    (flow = .next → here.opcode ∈ [.jumpIfFalseOrPop, .jumpIfTrueOrPop] →
      (frame'.stack.size : Int) =
        frame.stack.size + here.opcode.stackEffect (UInt32.ofNat here.arg) - 1) := by
  have hsize := (step_moves unit (arg_lt_of_fetch hfetch) frame flow frame' hrun).1
  refine ⟨fun hflow => ?_, fun hflow hop => ?_, fun hflow hop => ?_⟩
  · rw [hsize, change_of_ne_next hflow]
  · rw [hsize, change_of_not_mem hop]
  · rw [hsize, hflow, change_next_of_mem hop]
    omega

/-- A tuple of two values stands where the values stood. -/
theorem size_of_step_buildTuple :
    ∃ here frame', fetch .wordcode [102, 2] 0 = .ok here ∧
      (step { code := [102, 2] } here).run
        { locals := #[], stack := #[.int 7, .int 1, .int 2] } = .ok .next frame' ∧
      (frame'.stack.size : Int) = 3 + Opcode.buildTuple.stackEffect 2 := by
  have hfetch : fetch .wordcode (StoredUnit.code { code := [102, 2] }) 0 =
      .ok ⟨0, .buildTuple, 2, 2⟩ := rfl
  obtain ⟨frame', hrun⟩ : ∃ frame', (step { code := [102, 2] } ⟨0, .buildTuple, 2, 2⟩).run
      { locals := #[], stack := #[.int 7, .int 1, .int 2] } = .ok .next frame' := ⟨_, rfl⟩
  obtain ⟨-, hnext, -⟩ := size_of_step hfetch hrun
  exact ⟨_, frame', hfetch, hrun, hnext rfl (by decide)⟩

/-- A jump that is not taken leaves one value less than its stack effect says. -/
theorem size_ne_of_step_jumpIfFalseOrPop :
    ∃ here frame frame', fetch .wordcode [111, 4] 0 = .ok here ∧
      (step { code := [111, 4] } here).run frame = .ok .next frame' ∧
      (frame'.stack.size : Int) ≠
        frame.stack.size + here.opcode.stackEffect (UInt32.ofNat here.arg) :=
  ⟨⟨0, .jumpIfFalseOrPop, 4, 2⟩, { locals := #[], stack := #[.bool true] }, _, rfl, rfl, by decide⟩

end

end Machine

end StackCode

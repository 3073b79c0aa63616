import StackCode.Proofs.Machine.Runs
import StackCode.Proofs.Machine.Simulation

namespace StackCode

/-!
# Safety of loaded units

Loading a unit verifies it: a run of it stays at the instructions that were found, and never comes
upon bytes or operands that make no sense.

* `EvalError.malformed` — errors that blame the bytes of a unit.
* `Machine.Roomy` — frames with a place for every local of a unit.
* `Machine.Keeps` — actions that keep frames roomy and fail with no such error; `step_keeps` says
  that instructions do whose operands are entries of their tables.
* `Machine.Placed` — where a run is at the offset of a position, with a roomy frame; every turn
  keeps it.
* `Machine.eval_of_load` — the safety of whole runs.
-/

/-- The error blames the bytes of the unit: there is no instruction at the program counter, or its
    operand is beyond the end of its table. -/
def EvalError.malformed : EvalError → Bool
  | .locate _ => true
  | .badOperand _ _ _ => true
  | _ => false

namespace Machine

variable {unit : StoredUnit} {e : Encoding} {walked : List Located} {shape : List Instr}

/-- The frame has a place for every local of the unit. -/
def Roomy (unit : StoredUnit) (frame : Frame) : Prop :=
  unit.varnames.length ≤ frame.locals.size

/-- The frame of a run has room for all local variables. -/
theorem roomy_entryFrame (unit : StoredUnit) (args : List Const) :
    Roomy unit (entryFrame unit args) := by
  show unit.varnames.length ≤ (entryFrame unit args).locals.size
  simp only [entryFrame, List.size_toArray, List.length_append, List.length_map,
    List.length_replicate]
  omega

/-! ### Actions -/

/-- The action keeps frames roomy, and does not blame the unit when it fails. -/
def Keeps (unit : StoredUnit) {α : Type} (m : FrameM α) : Prop :=
  ∀ frame, Roomy unit frame →
    match m.run frame with
    | .ok _ frame' => Roomy unit frame'
    | .error err _ => err.malformed = false

section

variable {α β : Type} {here : Located}

/-- Returning a value keeps the room. -/
theorem keeps_pure (a : α) : Keeps unit (pure a) := fun _ h => h

/-- An action may fail with errors that do not blame the bytes. -/
theorem keeps_throw {err : EvalError} (h : err.malformed = false) :
    Keeps unit (throw err : FrameM α) := fun _ _ => h

/-- Actions in a row keep the room when each of them does. -/
theorem keeps_bind {m : FrameM α} {k : α → FrameM β} (hm : Keeps unit m)
    (hk : ∀ a, Keeps unit (k a)) : Keeps unit (m >>= k) := by
  intro frame h
  have hrun := hm frame h
  rw [EStateM.run_bind]
  cases hresult : m.run frame with
  | ok a frame' =>
    rw [hresult] at hrun
    exact hk a frame' hrun
  | error err frame' =>
    rw [hresult] at hrun
    exact hrun

/-- Pushing keeps the room. -/
theorem keeps_push (c : Const) : Keeps unit (push c) := fun _ h => h

/-- Popping keeps the room; an empty stack is not blamed on the bytes. -/
theorem keeps_pop : Keeps unit (pop here) := by
  intro frame h
  unfold pop
  simp only [EStateM.run_bind, EStateM.run_get]
  cases frame.stack.back? with
  | some c => exact h
  | none => rfl

/-- So does looking at the stack. -/
theorem keeps_peek (depth : Nat) : Keeps unit (peek here depth) := by
  intro frame h
  unfold peek
  simp only [EStateM.run_bind, EStateM.run_get]
  by_cases hsize : frame.stack.size < depth + 1
  · simp only [if_pos hsize]
    rfl
  · simp only [if_neg hsize]
    cases frame.stack[frame.stack.size - (depth + 1)]? with
    | some c => exact h
    | none => rfl

/-- So does popping several values. -/
theorem keeps_popMany (n : Nat) : Keeps unit (popMany here n) := by
  intro frame h
  unfold popMany
  simp only [EStateM.run_bind, EStateM.run_get]
  by_cases hsize : frame.stack.size < n
  · simp only [if_pos hsize]
    rfl
  · simp only [if_neg hsize]
    exact h

/-- So does pushing the result of an operation. -/
theorem keeps_pushResult (r : Except Arith.Fault Const) : Keeps unit (pushResult here r) := by
  cases r with
  | ok c => exact keeps_push c
  | error fault =>
    apply keeps_throw
    cases fault <;> rfl

/-- A local of the unit has a place in every roomy frame. -/
theorem keeps_localSlot (harg : here.arg < unit.varnames.length) :
    Keeps unit (localSlot here) := by
  intro frame h
  have hlt : here.arg < frame.locals.size := Nat.lt_of_lt_of_le harg h
  unfold localSlot
  simp only [EStateM.run_bind, EStateM.run_get, Array.getElem?_eq_getElem hlt]
  exact h

/-- Setting a local variable keeps their number. -/
theorem keeps_setLocal (content : Option Const) : Keeps unit (setLocal here content) := by
  intro frame h
  show unit.varnames.length ≤ (frame.locals.setIfInBounds here.arg content).size
  rw [Array.size_setIfInBounds]
  exact h

/-! ### Instructions -/

/-- The operand of the instruction is an entry of its table, for the tables that runs look into. -/
structure Declared (unit : StoredUnit) (here : Located) : Prop where
  const : here.opcode.operandClass = .const → here.arg < unit.consts.length
  localVar : here.opcode.operandClass = .local → here.arg < unit.varnames.length

/-- **Steps.** Instructions whose operands are entries of their tables keep frames roomy, and do not
    blame the unit. -/
theorem step_keeps (h : Declared unit here) : Keeps unit (step unit here) := by
  have hconst := h.const
  have hlocal := h.localVar
  unfold step
  cases hop : here.opcode
  case loadConst =>
    have harg : here.arg < unit.consts.length := hconst (by rw [hop]; rfl)
    simp only [List.getElem?_eq_getElem harg]
    exact keeps_bind (keeps_push _) fun _ => keeps_pure _
  case loadFast =>
    have harg : here.arg < unit.varnames.length := hlocal (by rw [hop]; rfl)
    refine keeps_bind (keeps_localSlot harg) fun content => ?_
    cases content with
    | some c => exact keeps_bind (keeps_push c) fun _ => keeps_pure _
    | none => exact keeps_throw rfl
  case storeFast =>
    have harg : here.arg < unit.varnames.length := hlocal (by rw [hop]; rfl)
    exact keeps_bind (keeps_localSlot harg) fun _ => keeps_bind keeps_pop fun _ =>
      keeps_bind (keeps_setLocal _) fun _ => keeps_pure _
  case deleteFast =>
    have harg : here.arg < unit.varnames.length := hlocal (by rw [hop]; rfl)
    exact keeps_bind (keeps_localSlot harg) fun _ => keeps_bind (keeps_setLocal _) fun _ =>
      keeps_pure _
  case jumpIfFalseOrPop =>
    refine keeps_bind (keeps_peek 0) fun c => ?_
    cases Arith.truthy c with
    | false => exact keeps_pure _
    | true => exact keeps_bind keeps_pop fun _ => keeps_pure _
  case jumpIfTrueOrPop =>
    refine keeps_bind (keeps_peek 0) fun c => ?_
    cases Arith.truthy c with
    | false => exact keeps_bind keeps_pop fun _ => keeps_pure _
    | true => exact keeps_pure _
  -- All other instructions work on the stack alone, or have no meaning.
  all_goals dsimp only [operator?]
  all_goals repeat first
    | exact keeps_pure _
    | exact keeps_throw rfl
    | refine keeps_bind keeps_pop fun _ => ?_
    | refine keeps_bind (keeps_peek _) fun _ => ?_
    | refine keeps_bind (keeps_popMany _) fun _ => ?_
    | refine keeps_bind (keeps_push _) fun _ => ?_
    | refine keeps_bind (keeps_pushResult _) fun _ => ?_

end

/-- The operands of a unit that represents a shape are entries of their tables. -/
theorem declared_getElem (h : Represents unit e walked shape) {k : Nat} (hk : k < walked.length) :
    Declared unit walked[k] := by
  have hk' : k < shape.length := h.length_eq ▸ hk
  obtain ⟨hop, hstands⟩ := h.stands hk hk'
  generalize shape[k].operand = operand at hstands
  constructor
  · intro hclass
    rw [← hop, hclass] at hstands
    cases hstands with
    | const hget => exact (List.getElem?_eq_some_iff.1 hget).1
  · intro hclass
    rw [← hop, hclass] at hstands
    cases hstands with
    | localVar hget => exact (List.getElem?_eq_some_iff.1 hget).1

/-! ### Turns -/

/-- The program counter is the offset of a position, or of the end, and the frame is roomy. -/
structure Placed (unit : StoredUnit) (e : Encoding) (shape : List Instr) (pc : Nat)
    (frame : Frame) : Prop where
  position : ∃ k ≤ shape.length, e.offsetAt (shape.map (·.opcode)) k = pc
  roomy : Roomy unit frame

/-- Runs start at the first position. -/
theorem placed_entryFrame (unit : StoredUnit) (e : Encoding) (shape : List Instr)
    (args : List Const) : Placed unit e shape 0 (entryFrame unit args) :=
  ⟨⟨0, Nat.zero_le _, e.offsetAt_zero _⟩, roomy_entryFrame unit args⟩

/-- **Turns.** From the offset of a position a turn goes to that of another one, or fails without
    blaming the unit. -/
theorem Placed.turn (h : Represents unit e walked shape) {pc : Nat} {frame : Frame}
    (hplaced : Placed unit e shape pc frame) :
    match turn unit e pc frame with
    | .goes pc' frame' => Placed unit e shape pc' frame'
    | .returns _ _ => True
    | .fails err => err.malformed = false := by
  obtain ⟨⟨k, hk, rfl⟩, hroomy⟩ := hplaced
  unfold Machine.turn
  -- Behind the last instruction there is none to fetch, which does not blame the bytes.
  by_cases hend : k = shape.length
  · rw [hend, fetch_end h]
    rfl
  · have hk₁ : k < shape.length := by omega
    have hk₂ : k < walked.length := h.length_eq ▸ hk₁
    obtain ⟨htarget, hjump⟩ := jumpTarget_eq h hk₂ hk₁
    have hstep := step_keeps (declared_getElem h hk₂) frame hroomy
    rw [fetch_offsetAt h hk₂]
    dsimp only
    cases hrun : (step unit walked[k]).run frame with
    | error err frame' =>
      rw [hrun] at hstep
      exact hstep
    | ok flow frame' =>
      rw [hrun] at hstep
      -- Both the next instruction and the target of a jump are at the offsets of positions.
      cases flow with
      | next => exact ⟨⟨k + 1, hk₁, (h.next_eq hk₂).symm⟩, hstep⟩
      | jump => exact ⟨⟨_, htarget, hjump.symm⟩, hstep⟩
      | done value => trivial

/-! ### Runs -/

/-- A position is that of an instruction that was found, or the end of the code. -/
theorem boundary_of_position (h : Represents unit e walked shape) {k : Nat}
    (hk : k ≤ shape.length) :
    (∃ here ∈ walked, here.offset = e.offsetAt (shape.map (·.opcode)) k) ∨
      e.offsetAt (shape.map (·.opcode)) k = unit.code.length := by
  by_cases hend : k = shape.length
  · right
    rw [hend, h.walks.length_eq, h.opcodesOf_eq, h.length_eq]
  · left
    have hk' : k < walked.length := by
      rw [← h.length_eq]
      omega
    exact ⟨walked[k], List.getElem_mem hk', h.offset_eq hk'⟩

/-- **Loaded units are safe.** A run of a unit that is loaded is always at an instruction that was
    found, or at the end of the code; it comes upon no unknown opcode, no instruction that is cut
    short and no operand beyond its table. -/
theorem eval_of_load {raw : StoredUnit} {c : Routine} (h : Routine.load? raw e = .ok c) :
    ∃ walked, walk e 0 raw.code = .ok walked ∧ ∀ args : List Const,
      (∀ pc frame, Reaches raw e (0, entryFrame raw args) (pc, frame) →
        (∃ here ∈ walked, here.offset = pc) ∨ pc = raw.code.length) ∧
      ∀ limit err, eval? raw e args limit = .error err →
        (∀ offset byte, err ≠ .locate (.unknownOpcode offset byte)) ∧
        (∀ offset, err ≠ .locate (.truncated offset)) ∧
        ∀ offset opcode index, err ≠ .badOperand offset opcode index := by
  obtain ⟨walked, shape, lines, signature, hrep, -, -, rfl⟩ := Routine.load?_eq_ok.1 h
  refine ⟨walked, walk_eq_ok.2 hrep.walks, fun args => ?_⟩
  -- Every turn keeps the run at the offset of a position, so it is at one wherever it gets.
  have hplaced : ∀ pc frame, Reaches raw e (0, entryFrame raw args) (pc, frame) →
      Placed raw e shape pc frame := by
    intro pc frame hreach
    refine hreach.invariant (fun pc frame hplaced pc' frame' hturn => ?_)
      (placed_entryFrame raw e shape args)
    have hkeep := hplaced.turn hrep
    rwa [hturn] at hkeep
  refine ⟨fun pc frame hreach => ?_, fun limit err herr => ?_⟩
  · obtain ⟨⟨k, hk, rfl⟩, -⟩ := hplaced pc frame hreach
    exact boundary_of_position hrep hk
  · have hblame : err.malformed = false := by
      unfold eval? at herr
      dsimp only at herr
      split at herr
      · cases herr
        rfl
      · rcases exists_fails_of_run herr with rfl | ⟨pc, frame, hreach, hfails⟩
        · rfl
        · -- The turn that fails is reached, so that it starts at the offset of a position.
          have hturn := (hplaced pc frame hreach).turn hrep
          rwa [hfails] at hturn
    refine ⟨?_, ?_, ?_⟩
    all_goals
      intros
      rintro rfl
      cases hblame

/-- The loop stays at its instructions for any argument, also for one that it cannot count down. -/
theorem eval_of_load_countdown :
    Routine.load? Routine.countdownUnit .wordcode = .ok Routine.countdown ∧
      ∃ walked, walk .wordcode 0 Routine.countdownUnit.code = .ok walked ∧
        ∀ pc frame, Reaches Routine.countdownUnit .wordcode
          (0, entryFrame Routine.countdownUnit [.str "two"]) (pc, frame) →
          (∃ here ∈ walked, here.offset = pc) ∨ pc = 18 := by
  have hload : Routine.load? Routine.countdownUnit .wordcode = .ok Routine.countdown := by
    decide +kernel
  obtain ⟨walked, hwalk, hsafe⟩ := eval_of_load hload
  exact ⟨hload, walked, hwalk, (hsafe [.str "two"]).1⟩

end Machine

end StackCode

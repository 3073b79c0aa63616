import StackCode.Machine
import StackCode.Proofs.Routine.Represents

namespace StackCode

/-!
# Agreement of instructions

Two units that represent one shape may name a constant or a local by different indices.  Their
instructions still do the same to frames whose like-named locals have the same content.

* `EvalError.relocate` — an error with other offsets.
* `Machine.Like` — frames with the same stack, whose like-named locals have the same content.
* `Machine.Agrees` — actions that take such frames to such frames, with the same result or with the
  same error up to its offset.
* `Machine.step_agrees` — instructions that stand for the same operand agree.
-/

/-- The error with its offset put through `g`. -/
def EvalError.relocate (g : Nat → Nat) : EvalError → EvalError
  | .locate (.unknownOpcode o b) => .locate (.unknownOpcode (g o) b)
  | .locate (.truncated o) => .locate (.truncated (g o))
  | .unsupported o op => .unsupported (g o) op
  | .badOperand o op index => .badOperand (g o) op index
  | .stackUnderflow o op => .stackUnderflow (g o) op
  | .zeroDivision o => .zeroDivision (g o)
  | err => err

/-- Errors at their own offsets are what they are. -/
@[simp] theorem EvalError.relocate_id (err : EvalError) : err.relocate id = err := by
  unfold EvalError.relocate
  split <;> rfl

namespace Machine

/-! ### Frames -/

/-- The locals at `i` and at `j` have the same name. -/
def SameVar (u₁ u₂ : StoredUnit) (i j : Nat) : Prop :=
  ∃ name, u₁.varnames[i]? = some name ∧ u₂.varnames[j]? = some name

/-- Frames with the same stack, whose like-named locals are there with the same content. -/
structure Like (u₁ u₂ : StoredUnit) (f₁ f₂ : Frame) : Prop where
  stack : f₁.stack = f₂.stack
  maxDepth : f₁.maxDepth = f₂.maxDepth
  locals : ∀ i j, SameVar u₁ u₂ i j →
    ∃ content, f₁.locals[i]? = some content ∧ f₂.locals[j]? = some content

/-- Results on frames that are alike: the same value, or the same error up to its offset. -/
inductive ResultsAgree (u₁ u₂ : StoredUnit) (g : Nat → Nat) {α : Type} :
    EStateM.Result EvalError Frame α → EStateM.Result EvalError Frame α → Prop where
  | ok {a : α} {f₁ f₂ : Frame} (h : Like u₁ u₂ f₁ f₂) : ResultsAgree u₁ u₂ g (.ok a f₁) (.ok a f₂)
  | error {err₁ err₂ : EvalError} {f₁ f₂ : Frame} (h : err₁.relocate g = err₂.relocate g) :
      ResultsAgree u₁ u₂ g (.error err₁ f₁) (.error err₂ f₂)

/-- Actions whose results agree on frames that are alike. -/
def Agrees (u₁ u₂ : StoredUnit) (g : Nat → Nat) {α : Type} (m₁ m₂ : FrameM α) : Prop :=
  ∀ f₁ f₂, Like u₁ u₂ f₁ f₂ → ResultsAgree u₁ u₂ g (m₁.run f₁) (m₂.run f₂)

section

variable {u₁ u₂ : StoredUnit} {g : Nat → Nat} {α β : Type}

/-! ### Composed actions -/

/-- Returning a value agrees with itself. -/
theorem agrees_pure (a : α) : Agrees u₁ u₂ g (pure a) (pure a) := fun _ _ h => .ok h

/-- Errors agree when they are the same but for their offsets. -/
theorem agrees_throw {err₁ err₂ : EvalError} (h : err₁.relocate g = err₂.relocate g) :
    Agrees u₁ u₂ g (throw err₁ : FrameM α) (throw err₂) := fun _ _ _ => .error h

/-- Actions that agree step by step agree as a whole. -/
theorem agrees_bind {m₁ m₂ : FrameM α} {k₁ k₂ : α → FrameM β} (hm : Agrees u₁ u₂ g m₁ m₂)
    (hk : ∀ a, Agrees u₁ u₂ g (k₁ a) (k₂ a)) : Agrees u₁ u₂ g (m₁ >>= k₁) (m₂ >>= k₂) := by
  intro f₁ f₂ h
  have hrun := hm f₁ f₂ h
  rw [EStateM.run_bind, EStateM.run_bind]
  generalize m₁.run f₁ = r₁ at hrun ⊢
  generalize m₂.run f₂ = r₂ at hrun ⊢
  cases hrun with
  | ok h => exact hk _ _ _ h
  | error h => exact .error h

/-! ### The stack -/

/-- Pushing a constant agrees with itself. -/
theorem agrees_push (c : Const) : Agrees u₁ u₂ g (push c) (push c) := by
  intro f₁ f₂ h
  refine .ok ⟨?_, ?_, h.locals⟩
  · show f₁.stack.push c = f₂.stack.push c
    rw [h.stack]
  · show max f₁.maxDepth (f₁.stack.push c).size = max f₂.maxDepth (f₂.stack.push c).size
    rw [h.stack, h.maxDepth]

variable {here₁ here₂ : Located} (hop : here₁.opcode = here₂.opcode)
  (hoffset : g here₁.offset = g here₂.offset)

include hop hoffset

/-- Taking from an empty stack is the same error at both places. -/
theorem relocate_stackUnderflow :
    (EvalError.stackUnderflow here₁.offset here₁.opcode).relocate g =
      (EvalError.stackUnderflow here₂.offset here₂.opcode).relocate g := by
  show EvalError.stackUnderflow (g here₁.offset) here₁.opcode = .stackUnderflow (g _) _
  rw [hop, hoffset]

/-- Popping agrees at places with the same opcode. -/
theorem agrees_pop : Agrees u₁ u₂ g (pop here₁) (pop here₂) := by
  intro f₁ f₂ h
  unfold pop
  simp only [EStateM.run_bind, EStateM.run_get, ← h.stack]
  cases f₁.stack.back? with
  | some c => exact .ok ⟨rfl, h.maxDepth, h.locals⟩
  | none => exact .error (relocate_stackUnderflow hop hoffset)

/-- So does looking at the stack. -/
theorem agrees_peek (depth : Nat) : Agrees u₁ u₂ g (peek here₁ depth) (peek here₂ depth) := by
  intro f₁ f₂ h
  unfold peek
  simp only [EStateM.run_bind, EStateM.run_get, ← h.stack]
  by_cases hsize : f₁.stack.size < depth + 1
  · simp only [if_pos hsize]
    exact .error (relocate_stackUnderflow hop hoffset)
  · simp only [if_neg hsize]
    cases f₁.stack[f₁.stack.size - (depth + 1)]? with
    | some c => exact .ok h
    | none => exact .error (relocate_stackUnderflow hop hoffset)

/-- So does popping several values. -/
theorem agrees_popMany (n : Nat) : Agrees u₁ u₂ g (popMany here₁ n) (popMany here₂ n) := by
  intro f₁ f₂ h
  unfold popMany
  simp only [EStateM.run_bind, EStateM.run_get, ← h.stack]
  by_cases hsize : f₁.stack.size < n
  · simp only [if_pos hsize]
    exact .error (relocate_stackUnderflow hop hoffset)
  · simp only [if_neg hsize]
    exact .ok ⟨rfl, h.maxDepth, h.locals⟩

/-- So does pushing the result of an operation. -/
theorem agrees_pushResult (r : Except Arith.Fault Const) :
    Agrees u₁ u₂ g (pushResult here₁ r) (pushResult here₂ r) := by
  cases r with
  | ok c => exact agrees_push c
  | error fault =>
    refine agrees_throw ?_
    cases fault <;> simp only [ofFault, EvalError.relocate, hop, hoffset]

/-! ### Locals -/

omit hop hoffset

/-- Local variables agree when their indices name the same variable. -/
theorem agrees_localSlot (hvar : SameVar u₁ u₂ here₁.arg here₂.arg) :
    Agrees u₁ u₂ g (localSlot here₁) (localSlot here₂) := by
  intro f₁ f₂ h
  obtain ⟨content, h₁, h₂⟩ := h.locals _ _ hvar
  unfold localSlot
  simp only [EStateM.run_bind, EStateM.run_get, h₁, h₂]
  exact .ok h

/-- A value stands in one place only of a list without repetition. -/
theorem eq_of_getElem? {l : List String} (hl : l.Nodup) {i j : Nat} {a : String}
    (hi : l[i]? = some a) (hj : l[j]? = some a) : i = j := by
  obtain ⟨hlt, -⟩ := List.getElem?_eq_some_iff.1 hi
  exact (List.getElem?_inj hlt hl).1 (hi.trans hj.symm)

/-- A local is set under both of its indices; since no name stands twice, like-named locals are
    set on both sides or on neither. -/
theorem agrees_setLocal (hnodup₁ : u₁.varnames.Nodup) (hnodup₂ : u₂.varnames.Nodup)
    (hvar : SameVar u₁ u₂ here₁.arg here₂.arg) (content : Option Const) :
    Agrees u₁ u₂ g (setLocal here₁ content) (setLocal here₂ content) := by
  intro f₁ f₂ h
  refine .ok ⟨h.stack, h.maxDepth, fun i j hij => ?_⟩
  obtain ⟨old, h₁, h₂⟩ := h.locals i j hij
  show ∃ new, (f₁.locals.setIfInBounds here₁.arg content)[i]? = some new ∧
    (f₂.locals.setIfInBounds here₂.arg content)[j]? = some new
  -- The locals at `i` and `j` are set both, or neither of them is.
  have hsame : here₁.arg = i ↔ here₂.arg = j := by
    obtain ⟨name, hname₁, hname₂⟩ := hvar
    obtain ⟨name', hi, hj⟩ := hij
    constructor
    · rintro rfl
      rw [hi] at hname₁
      cases hname₁
      exact eq_of_getElem? hnodup₂ hname₂ hj
    · rintro rfl
      rw [hj] at hname₂
      cases hname₂
      exact eq_of_getElem? hnodup₁ hname₁ hi
  rw [Array.getElem?_setIfInBounds, Array.getElem?_setIfInBounds]
  by_cases hi : here₁.arg = i
  · have hlt₁ : here₁.arg < f₁.locals.size := by
      rw [hi]
      exact (Array.getElem?_eq_some_iff.1 h₁).1
    have hlt₂ : here₂.arg < f₂.locals.size := by
      rw [hsame.1 hi]
      exact (Array.getElem?_eq_some_iff.1 h₂).1
    rw [if_pos hi, if_pos (hsame.1 hi), if_pos hlt₁, if_pos hlt₂]
    exact ⟨content, rfl, rfl⟩
  · rw [if_neg hi, if_neg fun hj => hi (hsame.2 hj)]
    exact ⟨old, h₁, h₂⟩

/-! ### Instructions -/

/-- Instructions with the same opcode and with operand fields that name the same thing. -/
structure SameInstr (u₁ u₂ : StoredUnit) (g : Nat → Nat) (here₁ here₂ : Located) : Prop where
  opcode : here₁.opcode = here₂.opcode
  offset : g here₁.offset = g here₂.offset
  int : here₁.opcode.operandClass = .int → here₁.arg = here₂.arg
  const : here₁.opcode.operandClass = .const →
    ∃ c, u₁.consts[here₁.arg]? = some c ∧ u₂.consts[here₂.arg]? = some c
  localVar : here₁.opcode.operandClass = .local → SameVar u₁ u₂ here₁.arg here₂.arg

section

variable (h : SameInstr u₁ u₂ g here₁ here₂)

include h

/-- Actions on the topmost value. -/
theorem agrees_unary {k₁ k₂ : Const → FrameM Flow} (hk : ∀ c, Agrees u₁ u₂ g (k₁ c) (k₂ c)) :
    Agrees u₁ u₂ g (pop here₁ >>= k₁) (pop here₂ >>= k₂) :=
  agrees_bind (agrees_pop h.opcode h.offset) hk

/-- Actions behind a look at the stack agree when they do for each value. -/
theorem agrees_peek_bind {depth : Nat} {k₁ k₂ : Const → FrameM Flow}
    (hk : ∀ c, Agrees u₁ u₂ g (k₁ c) (k₂ c)) :
    Agrees u₁ u₂ g (peek here₁ depth >>= k₁) (peek here₂ depth >>= k₂) :=
  agrees_bind (agrees_peek h.opcode h.offset depth) hk

omit h in
/-- Actions behind a push agree when they do by themselves. -/
theorem agrees_push_bind {c : Const} {k₁ k₂ : Unit → FrameM Flow}
    (hk : ∀ a, Agrees u₁ u₂ g (k₁ a) (k₂ a)) :
    Agrees u₁ u₂ g (push c >>= k₁) (push c >>= k₂) :=
  agrees_bind (agrees_push c) hk

/-- Pushing a result and going on agrees with itself. -/
theorem agrees_pushResult_next (r : Except Arith.Fault Const) :
    Agrees u₁ u₂ g (do pushResult here₁ r; return Flow.next)
      (do pushResult here₂ r; return Flow.next) :=
  agrees_bind (agrees_pushResult h.opcode h.offset r) fun _ => agrees_pure _

/-- An opcode without meaning is the same error at both places. -/
theorem agrees_unsupported (op : Opcode) :
    Agrees u₁ u₂ g (throw (.unsupported here₁.offset op) : FrameM Flow)
      (throw (.unsupported here₂.offset op)) := by
  refine agrees_throw ?_
  simp only [EvalError.relocate, h.offset]

/-- **Steps.** Instructions that name the same things agree. -/
theorem step_agrees (hnodup₁ : u₁.varnames.Nodup) (hnodup₂ : u₂.varnames.Nodup) :
    Agrees u₁ u₂ g (step u₁ here₁) (step u₂ here₂) := by
  unfold step
  rw [← h.opcode]
  have hint := h.int
  have hconst := h.const
  have hlocal := h.localVar
  -- One case for each opcode with a meaning of its own; each is a chain of actions that agree.
  cases hop : here₁.opcode
  case nop => exact agrees_pure _
  case popTop => exact agrees_unary h fun _ => agrees_pure _
  case rotTwo =>
    exact agrees_unary h fun _ => agrees_unary h fun _ => agrees_push_bind fun _ =>
      agrees_push_bind fun _ => agrees_pure _
  case rotThree =>
    exact agrees_unary h fun _ => agrees_unary h fun _ => agrees_unary h fun _ =>
      agrees_push_bind fun _ => agrees_push_bind fun _ => agrees_push_bind fun _ =>
        agrees_pure _
  case dupTop => exact agrees_peek_bind h fun _ => agrees_push_bind fun _ => agrees_pure _
  case dupTopTwo =>
    exact agrees_peek_bind h fun _ => agrees_peek_bind h fun _ => agrees_push_bind fun _ =>
      agrees_push_bind fun _ => agrees_pure _
  case unaryPositive => exact agrees_unary h fun _ => agrees_pushResult_next h _
  case unaryNegative => exact agrees_unary h fun _ => agrees_pushResult_next h _
  case unaryNot => exact agrees_unary h fun _ => agrees_push_bind fun _ => agrees_pure _
  case compareOp =>
    have harg : here₁.arg = here₂.arg := hint (by rw [hop]; rfl)
    dsimp only
    rw [harg]
    exact agrees_unary h fun _ => agrees_unary h fun _ => agrees_pushResult_next h _
  case loadConst =>
    obtain ⟨c, h₁, h₂⟩ := hconst (by rw [hop]; rfl)
    dsimp only
    rw [h₁, h₂]
    exact agrees_push_bind fun _ => agrees_pure _
  case loadFast =>
    have hvar : SameVar u₁ u₂ here₁.arg here₂.arg := hlocal (by rw [hop]; rfl)
    refine agrees_bind (agrees_localSlot hvar) fun content => ?_
    obtain ⟨name, h₁, h₂⟩ := hvar
    cases content with
    | some c => exact agrees_push_bind fun _ => agrees_pure _
    | none =>
      refine agrees_throw ?_
      rw [h₁, h₂]
  case storeFast =>
    have hvar : SameVar u₁ u₂ here₁.arg here₂.arg := hlocal (by rw [hop]; rfl)
    exact agrees_bind (agrees_localSlot hvar) fun _ => agrees_unary h fun _ =>
      agrees_bind (agrees_setLocal hnodup₁ hnodup₂ hvar _) fun _ => agrees_pure _
  case deleteFast =>
    have hvar : SameVar u₁ u₂ here₁.arg here₂.arg := hlocal (by rw [hop]; rfl)
    exact agrees_bind (agrees_localSlot hvar) fun _ =>
      agrees_bind (agrees_setLocal hnodup₁ hnodup₂ hvar _) fun _ => agrees_pure _
  case buildTuple =>
    have harg : here₁.arg = here₂.arg := hint (by rw [hop]; rfl)
    dsimp only
    rw [harg]
    exact agrees_bind (agrees_popMany h.opcode h.offset _) fun _ => agrees_push_bind fun _ =>
      agrees_pure _
  case jumpForward => exact agrees_pure _
  case jumpAbsolute => exact agrees_pure _
  case popJumpIfFalse => exact agrees_unary h fun _ => agrees_pure _
  case popJumpIfTrue => exact agrees_unary h fun _ => agrees_pure _
  case jumpIfFalseOrPop =>
    refine agrees_peek_bind h fun c => ?_
    by_cases htruth : Arith.truthy c = false
    · simp only [if_pos htruth]
      exact agrees_pure _
    · simp only [if_neg htruth]
      exact agrees_unary h fun _ => agrees_pure _
  case jumpIfTrueOrPop =>
    refine agrees_peek_bind h fun c => ?_
    by_cases htruth : Arith.truthy c = true
    · simp only [if_pos htruth]
      exact agrees_pure _
    · simp only [if_neg htruth]
      exact agrees_unary h fun _ => agrees_pure _
  case returnValue => exact agrees_unary h fun _ => agrees_pure _
  -- What is left are the operators, and the opcodes without meaning.
  all_goals dsimp only [operator?]
  all_goals first
    | exact agrees_unsupported h _
    | exact agrees_unary h fun _ => agrees_unary h fun _ => agrees_pushResult_next h _

end

end

end Machine

end StackCode

import Mathlib.Algebra.Ring.Int.Defs
import StackCode.Proofs.Machine.Effects
import StackCode.Proofs.Machine.Runs
import StackCode.Proofs.Machine.Simulation

namespace StackCode

/-!
# Stack depth

The stack size that a unit records is computed from the stack effects of its instructions in the
order of the code.  It bounds all runs of code in which jumps lead to places that are at least as
deep, by that order, as the places that they come from.

* `Body.depthAt` — the sum of the stack effects before a position.
* `Body.DepthConsistent` — jumps lead to places that are as deep.
* `Machine.Within` — where a run is no deeper than its position; every turn keeps it.
* `Machine.maxDepth_le_stacksize` — the bound on whole runs.
-/

/-! ### Depths of a body -/

namespace Body

variable {b : Body} {depth most : Int} {es : List Int}

/-- The greatest depth so far is a lower bound of the greatest depth. -/
theorem le_deepest : most ≤ deepest depth most es := by
  induction es generalizing depth most with
  | nil => exact Int.le_refl _
  | cons effect es ih => exact Int.le_trans (Int.le_max_left _ _) ih

/-- Every sum of first effects is within the deepest. -/
theorem sum_take_le_deepest (h : depth ≤ most) (k : Nat) :
    depth + (es.take k).sum ≤ deepest depth most es := by
  induction es generalizing depth most k with
  | nil => simpa [deepest] using h
  | cons effect es ih =>
    cases k with
    | zero =>
      rw [List.take_zero, List.sum_nil, Int.add_zero]
      exact Int.le_trans h le_deepest
    | succ k =>
      rw [List.take_succ_cons, List.sum_cons, ← Int.add_assoc]
      exact ih (Int.le_max_right _ _) k

/-- The number of values on the stack before position `k`, by the effects of the instructions in the
    order of the code. -/
def depthAt (b : Body) (k : Nat) : Int := ((b.code.map (·.2.stackEffect)).take k).sum

/-- Jumps lead to places that are as deep as the places behind the jumps. -/
def DepthConsistent (b : Body) : Prop :=
  ∀ i (hi : i < b.code.length), ∀ t ∈ b.code[i].2.target?, ∀ j ∈ b.indexOf? t,
    b.depthAt (i + 1) ≤ b.depthAt j

/-- Depths are compared over the positions of the code, which are finite in number. -/
instance : Decidable b.DepthConsistent :=
  inferInstanceAs (Decidable (∀ i (hi : i < b.code.length), ∀ t ∈ b.code[i].2.target?,
    ∀ j ∈ b.indexOf? t, b.depthAt (i + 1) ≤ b.depthAt j))

/-- The depth behind an instruction is changed by its effect. -/
theorem depthAt_succ {k : Nat} (hk : k < b.code.length) :
    b.depthAt (k + 1) = b.depthAt k + b.code[k].2.stackEffect := by
  have hlen : k < (b.code.map (·.2.stackEffect)).length := by rwa [List.length_map]
  rw [depthAt, depthAt, ← List.take_append_getElem hlen, List.sum_append, List.getElem_map,
    List.sum_singleton]

/-- No position is deeper than the greatest depth. -/
theorem depthAt_le_deepest (b : Body) (k : Nat) :
    b.depthAt k ≤ deepest 0 0 (b.code.map (·.2.stackEffect)) := by
  have h : 0 + ((b.code.map (·.2.stackEffect)).take k).sum ≤
      deepest 0 0 (b.code.map (·.2.stackEffect)) := sum_take_le_deepest (Int.le_refl 0) k
  rwa [Int.zero_add] at h

/-- The recorded stack size is at least as great as every depth, or the greatest number of 32
    bits. -/
theorem le_stacksize {n : Nat} (h : (n : Int) ≤ deepest 0 0 (b.code.map (·.2.stackEffect))) :
    n ≤ b.stacksize.toNat ∨ UInt32.size ≤ n ∧ b.stacksize.toNat = UInt32.size - 1 := by
  rw [stacksize]
  split
  · rename_i hfits
    rw [UInt32.toNat_ofNat_of_lt' hfits]
    omega
  · by_cases hn : n < UInt32.size
    · exact .inl (Nat.le_of_lt_succ hn)
    · exact .inr ⟨Nat.le_of_not_lt hn, rfl⟩

end Body

namespace Machine

/-! ### Turns -/

variable {raw : StoredUnit} {e : Encoding} {walked : List Located} {b : Body}

/-- Only a number has a say in the stack effect of an opcode. -/
theorem stackEffect_of_operandClass {op : Opcode} (h : op.operandClass ≠ .int) (arg : UInt32) :
    op.stackEffect arg = op.stackEffect 0 := by
  cases op
  all_goals first
    | rfl
    | exact absurd rfl h

/-- The stack effect of an instruction is that of its opcode, with the field in place of a
    number. -/
theorem stackEffect_of_stands {ops : List Opcode} {k arg : Nat} {i : Instr}
    (h : Routine.Stands raw e ops k arg i.opcode.operandClass i.operand) :
    i.stackEffect = i.opcode.stackEffect (UInt32.ofNat arg) := by
  obtain ⟨opcode, operand⟩ := i
  unfold Instr.stackEffect
  dsimp only at h ⊢
  generalize hclass : opcode.operandClass = kind at h
  cases h with
  | int => rfl
  | _ => exact (stackEffect_of_operandClass (by rw [hclass]; nofun) _).symm

/-- The run is at a position of the code, no deeper than the position, and has not been deeper than
    the deepest. -/
def Within (b : Body) (e : Encoding) (pc : Nat) (frame : Frame) : Prop :=
  ∃ k ≤ b.shape.length, e.offsetAt (b.shape.map (·.opcode)) k = pc ∧
    (frame.stack.size : Int) ≤ b.depthAt k ∧
    (frame.maxDepth : Int) ≤ Body.deepest 0 0 (b.code.map (·.2.stackEffect))

/-- Runs start with an empty stack. -/
theorem within_entryFrame (b : Body) (e : Encoding) (raw : StoredUnit) (args : List Const) :
    Within b e 0 (entryFrame raw args) :=
  ⟨0, Nat.zero_le _, e.offsetAt_zero _, Int.le_refl _, Body.le_deepest⟩

/-- A jump leads to a position that is as deep as the one behind it. -/
theorem depthAt_le_targetAt (hb : b.Sound) (h : b.DepthConsistent)
    (hrep : Represents raw e walked b.shape) {k : Nat} (hk : k < b.shape.length) :
    b.depthAt (k + 1) ≤ b.depthAt (targetAt k b.shape[k].operand) := by
  have hcode : k < b.code.length := by
    rwa [Body.length_code hb, ← Body.length_shape hb]
  have hplace : b.shape[k].operand = b.placeOperand b.code[k].2.operand := by
    simp [Body.shape]
  have hlive := Routine.target_lt hrep b.shape[k] (List.getElem_mem hk)
  have hjump := h k hcode
  rw [hplace] at hlive ⊢
  rw [Instr.target?] at hjump
  cases hoperand : b.code[k].2.operand with
  | jump t =>
    rw [hoperand] at hlive hjump
    cases hindex : b.indexOf? t with
    | none =>
      -- A target out of use stands behind the last position, where no field leads to.
      have hlt := hlive _ rfl
      rw [hindex, Option.getD_none, Body.length_shape hb] at hlt
      exact absurd hlt (Nat.lt_irrefl _)
    | some j =>
      have hle := hjump t rfl j hindex
      rwa [Body.placeOperand, hindex]
  | _ => exact Int.le_refl _

/-- **Turns.** A turn from a position of consistent code goes to a position that is as deep, and
    returns without having been deeper than the deepest. -/
theorem Within.turn (hb : b.Sound) (h : b.DepthConsistent) (hrep : Represents raw e walked b.shape)
    {pc : Nat} {frame : Frame} (hwithin : Within b e pc frame) :
    match turn raw e pc frame with
    | .goes pc' frame' => Within b e pc' frame'
    | .returns _ frame' =>
      (frame'.maxDepth : Int) ≤ Body.deepest 0 0 (b.code.map (·.2.stackEffect))
    | .fails _ => True := by
  obtain ⟨k, hk, rfl, hsize, hmost⟩ := hwithin
  unfold Machine.turn
  by_cases hend : k = b.shape.length
  · rw [hend, fetch_end hrep]
    trivial
  · have hk₁ : k < b.shape.length := by omega
    have hk₂ : k < walked.length := hrep.length_eq ▸ hk₁
    have hcode : k < b.code.length := by
      rwa [Body.length_code hb, ← Body.length_shape hb]
    obtain ⟨htarget, hjump⟩ := jumpTarget_eq hrep hk₂ hk₁
    have hdeeper := depthAt_le_targetAt hb h hrep hk₁
    obtain ⟨hop, hstands⟩ := hrep.stands hk₂ hk₁
    have harg := arg_lt_of_fetch (fetch_offsetAt hrep hk₂)
    -- The depth at the next position is the depth here and the effect of the instruction.
    have heffect : b.depthAt (k + 1) = b.depthAt k +
        walked[k].opcode.stackEffect (UInt32.ofNat walked[k].arg) := by
      rw [Body.depthAt_succ hcode, hop, ← stackEffect_of_stands hstands,
        ← List.getElem_map (f := Instr.stackEffect) (h := by simpa using hk₁)]
      simp [Body.map_stackEffect_shape]
    have hbound := b.depthAt_le_deepest k
    have hbound' := b.depthAt_le_deepest (k + 1)
    rw [fetch_offsetAt hrep hk₂]
    dsimp only
    cases hrun : (step raw walked[k]).run frame with
    | error err frame' => trivial
    | ok flow frame' =>
      obtain ⟨hsize', hmost'⟩ := step_moves raw harg frame flow frame' hrun
      have hchange := change_le walked[k] flow
      have hmost' : (frame'.maxDepth : Int) ≤
          Body.deepest 0 0 (b.code.map (·.2.stackEffect)) := by omega
      -- Going on, the run is at the next position; a jump leads to one that is at least as deep.
      cases flow with
      | next => exact ⟨k + 1, hk₁, (hrep.next_eq hk₂).symm, by omega, hmost'⟩
      | jump => exact ⟨_, htarget, hjump.symm, by omega, hmost'⟩
      | done value => exact hmost'

/-! ### Runs -/

/-- **The recorded stack size bounds every run.**  In a run of the stored unit of a routine whose
    jumps are consistent in depth, there are never more values on the stack than the unit records.
    The record is a field of 32 bits: beyond what it can hold, it is as great as it can be. -/
theorem maxDepth_le_stacksize {c : Routine} (hc : c.Sound) (h : c.DepthConsistent)
    (hstore : c.store? { encoding := some e } = .ok raw) (args : List Const) (limit : Nat)
    {outcome : Outcome} (hrun : eval? raw e args limit = .ok outcome) :
    outcome.maxDepth ≤ raw.stacksize.toNat ∨
      UInt32.size ≤ outcome.maxDepth ∧ raw.stacksize.toNat = UInt32.size - 1 := by
  obtain ⟨walked, hrep⟩ := Routine.represents_of_store hc hstore
  obtain ⟨code, lineTable, -, -, -, rfl⟩ := Routine.store?_eq_ok.1 hstore
  unfold eval? at hrun
  dsimp only at hrun
  split at hrun
  · cases hrun
  · obtain ⟨pc, frame, frame', hreach, hreturns, hdepth⟩ := exists_returns_of_run hrun
    -- Before its last turn the run is no deeper than its position, and neither is that turn.
    have hwithin := hreach.invariant
      (fun pc frame hwithin pc' frame' hturn => by
        have hkeep := hwithin.turn hc h hrep
        rwa [hturn] at hkeep)
      (within_entryFrame c.toBody e _ args)
    have hmost := hwithin.turn hc h hrep
    rw [hreturns] at hmost
    rw [hdepth]
    exact Body.le_stacksize hmost

/-- The loop needs room for two values, whatever it counts down from. -/
theorem maxDepth_le_stacksize_countdown :
    ∃ raw outcome, Routine.countdown.store? { encoding := some .wordcode } = .ok raw ∧
      eval? raw .wordcode [.int 2] 100 = .ok outcome ∧
      outcome.maxDepth ≤ raw.stacksize.toNat := by
  have hdepth : ((Routine.countdown.store? { encoding := some .wordcode }).toOption.bind fun raw =>
      (eval? raw .wordcode [.int 2] 100).toOption).map (·.maxDepth) = some 2 := by
    decide +kernel
  obtain ⟨outcome, hrun, hdepth⟩ := Option.map_eq_some_iff.1 hdepth
  obtain ⟨raw, hstore, hrun⟩ := Option.bind_eq_some_iff.1 hrun
  have hstore := eq_ok_of_toOption hstore
  have hrun := eq_ok_of_toOption hrun
  refine ⟨raw, outcome, hstore, hrun, ?_⟩
  rcases maxDepth_le_stacksize (by decide +kernel) (by decide +kernel) hstore [.int 2] 100 hrun with
    hle | ⟨hgreat, -⟩
  · exact hle
  · rw [hdepth] at hgreat
    exact absurd hgreat (by decide)

end Machine

end StackCode

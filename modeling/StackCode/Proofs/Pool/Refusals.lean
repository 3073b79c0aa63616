import StackCode.Proofs.Pool.Calls

namespace StackCode.Pool

/-!
# Calls that fail

A reason to fail excludes success, so the account of calls (`Call.failsFor`) is an equivalence.  For
batches the check may as well come after the batch is stored: it looks at the same jumps, against
the size that the pool has by then.

* `storeOrRollBack` — a batch that is stored before it is checked, and taken back if it fails;
  `insertMany_eq_storeOrRollBack` says that this is insertion.
* `fails_iff_refuses` — calls fail for the reasons of `Call.Refuses` and no others, and then nothing
  changes.
-/

variable {p : Pool}

/-! ### Batches that are taken back -/

/-- The pool up to the handle `n`. -/
def truncate (p : Pool) (n : Nat) : Pool := ⟨p.slots.take n⟩

/-- Fails on an instruction of the pool whose jump leaves it. -/
def checkJump (p : Pool) (id : Handle) : Except BuildError Unit :=
  match p.target? id with
  | some t => checkBelow p.size t
  | none => .ok ()

/-- Stores a batch, checks the jumps that it brought into the pool, and notes them.  If a jump
    leaves the pool, everything behind the old end is thrown away. -/
def storeOrRollBack (instrs : List Instr) : PoolM (List Handle) := do
  let start := (← get).size
  modify fun p => instrs.foldl push p
  let p ← get
  let ids := List.range' start instrs.length
  match ids.forM p.checkJump with
  | .ok _ =>
    set (ids.foldl link p)
    return ids
  | .error e =>
    -- No jump of the batch is noted yet, so no other instruction knows of it.
    set (p.truncate start)
    throw e

/-- The slots of a batch stand behind the old ones, without jumpers. -/
theorem toList_slots_foldl_push (instrs : List Instr) :
    (instrs.foldl push p).slots.toList = p.slots.toList ++ instrs.map fun i => { instr := i } := by
  induction instrs generalizing p with
  | nil => simp
  | cons i rest ih => simp [ih, push]

/-- Storing alone changes nothing that was there. -/
theorem truncate_foldl_push (instrs : List Instr) :
    (instrs.foldl push p).truncate p.size = p := by
  have hslots := toList_slots_foldl_push (p := p) instrs
  refine congrArg Pool.mk (Array.toList_inj.1 ?_)
  simp [hslots, size]

/-- To check a batch in the pool is to check it against the size that the pool will have. -/
theorem forM_checkJump_eq (instrs : List Instr) :
    (List.range' p.size instrs.length).forM (instrs.foldl push p).checkJump =
      instrs.forM fun i => checkTarget (p.size + instrs.length) i.operand := by
  refine forM_range'_eq fun k i hk => ?_
  have hget : (instrs.foldl push p).get? (p.size + k) = some i := by
    rw [get?_foldl_push, if_neg (by omega), Nat.add_sub_cancel_left, hk]
  rw [checkJump, target?, hget, size_foldl_push]
  rfl

/-- **Two orders.** To check a batch before it is stored is to store it, check it and take it
    back. -/
theorem insertMany_eq_storeOrRollBack (instrs : List Instr) :
    insertMany instrs = storeOrRollBack instrs := by
  funext p
  show (insertMany instrs).run p = (storeOrRollBack instrs).run p
  simp only [insertMany, storeOrRollBack, EStateM.run_bind, EStateM.run_get, EStateM.run_modify]
  rw [forM_checkJump_eq]
  cases instrs.forM fun i => checkTarget (p.size + instrs.length) i.operand with
  | ok _ => rfl
  | error e =>
    rw [truncate_foldl_push]
    rfl

/-- **Refusals.** A call fails exactly when there is a reason for it, and with the error of such a
    reason; the pool is the same afterwards, with all instructions, jumpers and thieves.  That
    includes batches, whether they are checked first or stored first and taken back. -/
theorem fails_iff_refuses (p : Pool) (c : Call) :
    ((∃ e q, c.run.run p = .error e q) ↔ ∃ e, c.Refuses p e) ∧
      (∀ e q, c.run.run p = .error e q → c.Refuses p e ∧ q = p) ∧
      ∀ instrs, insertMany instrs = storeOrRollBack instrs := by
  rcases c.failsFor p with ⟨e, he, hrun⟩ | ⟨hnone, a, q, hrun, -⟩
  · refine ⟨⟨fun _ => ⟨e, he⟩, fun _ => ⟨e, p, hrun⟩⟩, ?_, insertMany_eq_storeOrRollBack⟩
    intro e' q h
    refine ⟨?_, Call.run_of_error h⟩
    rw [hrun] at h
    cases h
    exact he
  · rw [hrun]
    exact ⟨⟨nofun, fun ⟨e, he⟩ => absurd he (hnone e)⟩, nofun, insertMany_eq_storeOrRollBack⟩

/-- The first jump of the batch is in order, and yet it is not noted at its target. -/
example :
    let p := afterCalls {} [.insert .nop .none]
    Call.after p (.insertMany [(.jumpAbsolute, .jump 0), (.jumpForward, .jump 3)]) = p := by
  decide

end StackCode.Pool

import Mathlib.Data.List.Basic
import StackCode.Pool
import StackCode.Proofs.Fallible

namespace StackCode.Pool

/-!
# Pools of many instructions

* `get?_push`, `get?_addJumper`, `get?_link` — what an operation on single slots does to the
  instructions of a pool.
* `ofInstrs` — the pool of a list of instructions, which are found at their positions.
* `run_insertMany` — instructions whose jumps stay among them are stored under their positions.
-/

variable {p : Pool}

/-! ### Single slots -/

/-- A pool that is pushed to has a slot more. -/
theorem size_push (i : Instr) : (p.push i).size = p.size + 1 := by
  simp [push, size]

/-- An instruction that is pushed stands behind the others. -/
theorem get?_push (i : Instr) (id : Nat) :
    (p.push i).get? id = if id = p.size then some i else p.get? id := by
  unfold get? push size
  rw [Array.getElem?_push]
  split <;> simp_all

/-- Notes beside the instructions leave the instructions alone. -/
theorem get?_addJumper (id jumper id' : Handle) :
    (p.addJumper id jumper).get? id' = p.get? id' := by
  unfold get? addJumper
  rw [Array.getElem?_modify]
  by_cases h : id = id'
  · rw [if_pos h, Option.map_map]
    refine congrFun (congrArg _ (funext fun slot => ?_)) _
    show (if jumper ∈ slot.targetOf then slot else _).instr = slot.instr
    split <;> rfl
  · rw [if_neg h]

/-- Noting jumps does not touch instructions. -/
theorem get?_link (id id' : Handle) : (p.link id).get? id' = p.get? id' := by
  unfold link
  split
  · exact get?_addJumper _ _ _
  · rfl

/-! ### Many instructions -/

/-- Nor does noting several of them. -/
theorem get?_foldl_link (ids : List Handle) (id : Handle) :
    (ids.foldl link p).get? id = p.get? id := by
  induction ids generalizing p with
  | nil => rfl
  | cons id' rest ih => rw [List.foldl_cons, ih, get?_link]

/-- Instructions that are pushed in a row stand in a row. -/
theorem get?_foldl_push (instrs : List Instr) (id : Nat) :
    (instrs.foldl push p).get? id =
      if id < p.size then p.get? id else instrs[id - p.size]? := by
  induction instrs generalizing p with
  | nil =>
    rw [List.foldl_nil]
    split
    · rfl
    · rename_i h
      rw [get?, Array.getElem?_eq_none (Nat.le_of_not_lt h)]
      rfl
  | cons i rest ih =>
    rw [List.foldl_cons, ih, get?_push, size_push]
    by_cases hlt : id < p.size
    · rw [if_pos hlt, if_pos (by omega), if_neg (by omega)]
    · by_cases heq : id = p.size
      · rw [if_pos (by omega), if_pos heq, if_neg hlt, heq, Nat.sub_self]
        rfl
      · obtain ⟨k, hk⟩ : ∃ k, id = p.size + 1 + k := ⟨_, (Nat.add_sub_cancel' (by omega)).symm⟩
        rw [if_neg (by omega), if_neg hlt, hk, Nat.add_sub_cancel_left,
          show p.size + 1 + k - p.size = k + 1 by omega]
        rfl

/-- The pool of instructions under their positions, with their jumps noted. -/
def ofInstrs (instrs : List Instr) : Pool :=
  (List.range' 0 instrs.length).foldl link (instrs.foldl push {})

/-- An instruction is found at its position. -/
theorem get?_ofInstrs (instrs : List Instr) (id : Handle) :
    (ofInstrs instrs).get? id = instrs[id]? := by
  rw [ofInstrs, get?_foldl_link, get?_foldl_push]
  exact if_neg (Nat.not_lt_zero id)

/-- **Insertion.** Instructions whose jumps stay among them are stored under their positions. -/
theorem run_insertMany {instrs : List Instr}
    (h : ∀ i ∈ instrs, ∀ t, i.operand = .jump t → t < instrs.length) :
    (insertMany instrs).run {} = .ok (List.range' 0 instrs.length) (ofInstrs instrs) := by
  -- All targets are checked before any instruction is stored, against the size it will have.
  have hcheck : (instrs.forM fun i => checkTarget (0 + instrs.length) i.operand) = .ok () := by
    rw [Nat.zero_add]
    generalize instrs.length = n at h
    induction instrs with
    | nil => rfl
    | cons i rest ih =>
      have hi : checkTarget n i.operand = .ok () := by
        unfold checkTarget
        split
        · rename_i t ht
          refine if_pos (h i List.mem_cons_self t ?_)
          cases hoperand : i.operand <;> rw [hoperand] at ht <;> cases ht
          rfl
        · rfl
      show (do checkTarget n i.operand; rest.forM fun i => checkTarget n i.operand) = .ok ()
      rw [hi]
      exact ih fun j hj => h j (List.mem_cons_of_mem _ hj)
  show ((do
    guarded (instrs.forM fun i => checkTarget (0 + instrs.length) i.operand)
    set ((List.range' 0 instrs.length).foldl link (instrs.foldl push {}))
    return List.range' 0 instrs.length : PoolM (List Handle)).run {}) = _
  rw [hcheck]
  rfl

end StackCode.Pool

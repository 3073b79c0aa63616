import Mathlib.Data.List.Nodup
import StackCode.Proofs.Pool

namespace StackCode.Pool

/-!
# Noted jumps

Beside every instruction of a pool stand the instructions that jump to it.

* `Notes` — the jumps of some instructions, and no others, stand beside their targets, each once.
* `Notes.push`, `Notes.link`, `Notes.unlink`, `Notes.setOperand` — what changes to single slots do
  to the set of instructions whose jumps are noted.
-/

variable {p : Pool} {id jumper a b : Handle}

/-! ### Single slots -/

/-- A change to a slot that keeps its instruction keeps all instructions. -/
theorem get?_modify {f : Slot → Slot} (hf : ∀ s, (f s).instr = s.instr) :
    (⟨p.slots.modify id f⟩ : Pool).get? a = p.get? a := by
  unfold get?
  rw [Array.getElem?_modify]
  split
  · rw [Option.map_map]
    exact congrArg (fun g => p.slots[a]?.map g) (funext hf)
  · rfl

/-- A change to a slot that keeps its jumpers keeps those of all slots. -/
theorem targetOf_modify {f : Slot → Slot} (hf : ∀ s, (f s).targetOf = s.targetOf) :
    (⟨p.slots.modify id f⟩ : Pool).targetOf a = p.targetOf a := by
  unfold targetOf
  rw [Array.getElem?_modify]
  split
  · rw [Option.map_map]
    exact congrArg (fun g => (p.slots[a]?.map g).getD []) (funext hf)
  · rfl

/-- Changing a slot adds none. -/
@[simp] theorem size_modify {f : Slot → Slot} :
    (⟨p.slots.modify id f⟩ : Pool).size = p.size := Array.size_modify

/-- Setting an operand adds no slot. -/
@[simp] theorem size_setOperand {operand : Operand} : (p.setOperand id operand).size = p.size :=
  size_modify

/-- Noting a jumper adds no slot. -/
@[simp] theorem size_addJumper : (p.addJumper id jumper).size = p.size := size_modify

/-- Striking a jumper out takes no slot away. -/
@[simp] theorem size_dropJumper : (p.dropJumper id jumper).size = p.size := size_modify

/-- Noting the jump of an instruction adds no slot. -/
@[simp] theorem size_link : (p.link id).size = p.size := by
  unfold link
  split
  · exact size_addJumper
  · rfl

/-- Striking the jump of an instruction out takes no slot away. -/
@[simp] theorem size_unlink : (p.unlink id).size = p.size := by
  unfold unlink
  split
  · exact size_dropJumper
  · rfl

/-- Striking a jumper out does not touch instructions. -/
theorem get?_dropJumper : (p.dropJumper id jumper).get? a = p.get? a := get?_modify fun _ => rfl

/-- Nor does striking the jump of an instruction out. -/
theorem get?_unlink : (p.unlink id).get? a = p.get? a := by
  unfold unlink
  split
  · exact get?_dropJumper
  · rfl

/-- Setting an operand changes this one alone. -/
theorem get?_setOperand {operand : Operand} :
    (p.setOperand id operand).get? a =
      if id = a then (p.get? a).map fun i => { i with operand := operand } else p.get? a := by
  unfold get? setOperand
  rw [Array.getElem?_modify]
  split
  · rw [Option.map_map, Option.map_map]
    rfl
  · rfl

/-- Instructions have handles below the size. -/
theorem lt_size_of_get? {i : Instr} (h : p.get? a = some i) : a < p.size := by
  obtain ⟨s, hs, -⟩ := Option.map_eq_some_iff.1 h
  exact (Array.getElem?_eq_some_iff.1 hs).1

/-! ### Jumpers -/

/-- Pushing an instruction notes no jumps. -/
theorem targetOf_push {i : Instr} : (p.push i).targetOf b = p.targetOf b := by
  unfold targetOf push
  rw [Array.getElem?_push]
  split
  · rename_i hb
    rw [Array.getElem?_eq_none (by omega)]
    rfl
  · rfl

/-- Setting an operand notes no jumps. -/
theorem targetOf_setOperand {operand : Operand} :
    (p.setOperand id operand).targetOf b = p.targetOf b :=
  targetOf_modify fun _ => rfl

/-- A new jumper is noted behind the others, and once. -/
theorem targetOf_addJumper :
    (p.addJumper id jumper).targetOf b =
      if b = id ∧ id < p.size ∧ jumper ∉ p.targetOf id then p.targetOf b ++ [jumper]
      else p.targetOf b := by
  unfold targetOf addJumper size
  rw [Array.getElem?_modify]
  by_cases hb : id = b
  · subst hb
    by_cases hlt : id < p.slots.size
    · simp only [Array.getElem?_eq_getElem hlt, hlt]
      by_cases hmem : jumper ∈ p.slots[id].targetOf
      · simp [hmem]
      · simp [hmem]
    · simp [hlt]
  · rw [if_neg hb, if_neg fun h => hb h.1.symm]

/-- The jumpers are then the old ones and the new one. -/
theorem mem_targetOf_addJumper (hid : id < p.size) :
    a ∈ (p.addJumper id jumper).targetOf b ↔ a ∈ p.targetOf b ∨ a = jumper ∧ b = id := by
  rw [targetOf_addJumper]
  split
  · rename_i hnew
    rw [List.mem_append, List.mem_singleton]
    simp [hnew.1]
  · rename_i hold
    constructor
    · exact .inl
    · rintro (ha | ⟨rfl, rfl⟩)
      · exact ha
      · -- The jumper was noted before.
        by_contra hnot
        exact hold ⟨rfl, hid, hnot⟩

/-- No jumper is noted twice. -/
theorem nodup_targetOf_addJumper (h : (p.targetOf b).Nodup) :
    ((p.addJumper id jumper).targetOf b).Nodup := by
  rw [targetOf_addJumper]
  split
  · rename_i hnew
    rw [List.nodup_append]
    refine ⟨h, List.nodup_singleton jumper, fun x hx y hy => ?_⟩
    rw [List.mem_singleton] at hy
    rintro rfl
    rw [hy, hnew.1] at hx
    exact hnew.2.2 hx
  · exact h

/-- Striking a jumper out leaves the others in their order. -/
theorem targetOf_dropJumper :
    (p.dropJumper id jumper).targetOf b =
      if b = id then (p.targetOf b).filter (· ≠ jumper) else p.targetOf b := by
  unfold targetOf dropJumper
  rw [Array.getElem?_modify]
  by_cases hb : id = b
  · rw [if_pos hb, if_pos hb.symm]
    cases p.slots[b]? <;> rfl
  · rw [if_neg hb, if_neg (Ne.symm hb)]

/-- The jumpers are then the old ones but for this one. -/
theorem mem_targetOf_dropJumper :
    a ∈ (p.dropJumper id jumper).targetOf b ↔ a ∈ p.targetOf b ∧ ¬ (a = jumper ∧ b = id) := by
  rw [targetOf_dropJumper]
  split
  · rename_i hb
    simp [hb]
  · rename_i hb
    simp [hb]

/-! ### Jumps and their notes -/

/-- The jumps of the instructions of `J` stand beside their targets, each once, and no others. -/
structure Notes (p : Pool) (J : Handle → Prop) : Prop where
  mem_iff : ∀ a b, a ∈ p.targetOf b ↔ J a ∧ p.target? a = some b
  nodup : ∀ b, (p.targetOf b).Nodup

/-- The target of an instruction depends on the instruction alone. -/
theorem target?_congr {q : Pool} (h : q.get? a = p.get? a) : q.target? a = p.target? a := by
  unfold target?
  rw [h]

variable {J K : Handle → Prop}

/-- Notes for one set of instructions are notes for an equal one. -/
theorem Notes.congr (h : p.Notes J) (hJK : ∀ a, J a ↔ K a) : p.Notes K where
  mem_iff a b := by rw [h.mem_iff, hJK]
  nodup := h.nodup

/-- Notes depend on the instructions and their jumpers only. -/
theorem Notes.congr_pool {q : Pool} (h : p.Notes J) (hget : ∀ a, q.get? a = p.get? a)
    (htargetOf : ∀ b, q.targetOf b = p.targetOf b) : q.Notes J where
  mem_iff a b := by rw [htargetOf, target?_congr (hget a), h.mem_iff]
  nodup b := by
    rw [htargetOf]
    exact h.nodup b

/-- The jump of a new instruction is not noted. -/
theorem Notes.push (h : p.Notes J) (i : Instr) : (p.push i).Notes fun a => a ≠ p.size ∧ J a where
  mem_iff a b := by
    rw [targetOf_push, h.mem_iff]
    unfold target?
    rw [get?_push]
    by_cases ha : a = p.size
    · -- The handle was not in the pool before.
      have hnone : p.get? a = none := by
        rw [get?, Array.getElem?_eq_none (by rw [ha]; exact Nat.le_refl _)]
        rfl
      simp [ha, ha ▸ hnone]
    · simp [ha]
  nodup b := by
    rw [targetOf_push]
    exact h.nodup b

/-- The operand of an instruction whose jump is not noted may change. -/
theorem Notes.setOperand (h : p.Notes J) (id : Handle) (hid : ¬ J id) (operand : Operand) :
    (p.setOperand id operand).Notes J where
  mem_iff a b := by
    rw [targetOf_setOperand, h.mem_iff]
    refine and_congr_right fun ha => ?_
    have hne : id ≠ a := by
      rintro rfl
      exact hid ha
    have htarget : (p.setOperand id operand).target? a = p.target? a :=
      target?_congr (by rw [get?_setOperand, if_neg hne])
    rw [htarget]
  nodup b := by
    rw [targetOf_setOperand]
    exact h.nodup b

/-- A jump into the pool becomes noted. -/
theorem Notes.link (h : p.Notes J) (id : Handle)
    (hid : ∀ t, p.target? id = some t → t < p.size) :
    (p.link id).Notes fun a => a = id ∨ J a := by
  have htarget : ∀ a, (p.link id).target? a = p.target? a := fun a => target?_congr (get?_link _ _)
  cases ht : p.target? id with
  -- An instruction without a jump counts as noted, though nothing is noted for it.
  | none =>
    have hlink : p.link id = p := by rw [Pool.link, ht]
    rw [hlink]
    refine ⟨fun a b => ?_, h.nodup⟩
    rw [h.mem_iff]
    constructor
    · rintro ⟨ha, hab⟩
      exact ⟨.inr ha, hab⟩
    · rintro ⟨rfl | ha, hab⟩
      · rw [ht] at hab
        cases hab
      · exact ⟨ha, hab⟩
  | some t =>
    have hlt : t < p.size := hid t ht
    have hlink : p.link id = p.addJumper t id := by rw [Pool.link, ht]
    rw [hlink] at htarget ⊢
    refine ⟨fun a b => ?_, fun b => nodup_targetOf_addJumper (h.nodup b)⟩
    rw [mem_targetOf_addJumper hlt, h.mem_iff, htarget]
    constructor
    · rintro (⟨ha, hab⟩ | ⟨rfl, rfl⟩)
      · exact ⟨.inr ha, hab⟩
      · exact ⟨.inl rfl, ht⟩
    · rintro ⟨rfl | ha, hab⟩
      · rw [ht] at hab
        cases hab
        exact .inr ⟨rfl, rfl⟩
      · exact .inl ⟨ha, hab⟩

/-- A jump is no longer noted. -/
theorem Notes.unlink (h : p.Notes J) (id : Handle) :
    (p.unlink id).Notes fun a => a ≠ id ∧ J a := by
  have htarget : ∀ a, (p.unlink id).target? a = p.target? a := fun a => target?_congr get?_unlink
  cases ht : p.target? id with
  -- An instruction without a jump may count as noted or not: nothing stands for it anywhere.
  | none =>
    have hunlink : p.unlink id = p := by rw [Pool.unlink, ht]
    rw [hunlink]
    refine ⟨fun a b => ?_, h.nodup⟩
    rw [h.mem_iff]
    constructor
    · rintro ⟨ha, hab⟩
      refine ⟨⟨?_, ha⟩, hab⟩
      rintro rfl
      rw [ht] at hab
      cases hab
    · rintro ⟨⟨-, ha⟩, hab⟩
      exact ⟨ha, hab⟩
  | some t =>
    have hunlink : p.unlink id = p.dropJumper t id := by rw [Pool.unlink, ht]
    rw [hunlink] at htarget ⊢
    refine ⟨fun a b => ?_, fun b => ?_⟩
    · rw [mem_targetOf_dropJumper, h.mem_iff, htarget]
      constructor
      · rintro ⟨⟨ha, hab⟩, hne⟩
        refine ⟨⟨?_, ha⟩, hab⟩
        rintro rfl
        rw [ht] at hab
        cases hab
        exact hne ⟨rfl, rfl⟩
      · rintro ⟨⟨hne, ha⟩, hab⟩
        exact ⟨⟨ha, hab⟩, fun heq => hne heq.1⟩
    · rw [targetOf_dropJumper]
      split
      · exact (h.nodup b).filter _
      · exact h.nodup b

end StackCode.Pool

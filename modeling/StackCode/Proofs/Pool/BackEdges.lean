import StackCode.Proofs.Pool.Jumpers

namespace StackCode.Pool

/-!
# Jumps and jumpers agree

A jump is kept twice, as the operand of the one instruction and as a note beside the other, and no
operation changes both at once.  In between some jumps are not noted, so each step is described by
the set of instructions whose jumps are (`Notes`), and the whole operation by the first and the last
of these sets.  Redirection takes three steps: it forgets the jumpers of the victim, sets their
operands, and notes them at the thief.

* `AllNoted` — the jumpers of an instruction are the instructions that jump to it, each once.
* `AllNoted.insert`, `AllNoted.moveJumps` — insertion and redirection keep it;
  `AllNoted.target?_moveJumps` says where jumps lead then.
* `Consistent` — beyond that, jumps stay in the pool, and operands fit their opcodes.
* `Notes.consistent` — what makes a pool consistent, by way of its noted jumps.
* `Consistent.insert`, `Consistent.insertMany`, `Consistent.replace`, `Consistent.moveJumps` — what
  the operations make of a consistent pool is consistent.
-/

variable {p q : Pool} {J : Handle → Prop}

/-- The jumps of all instructions of the pool are noted. -/
abbrev AllNoted (p : Pool) : Prop := p.Notes fun a => a < p.size

/-- Jumps and jumpers of the pool agree, and its instructions are such as `Instr.new?` makes. -/
structure Consistent (p : Pool) : Prop where
  /-- The jumpers of an instruction are those whose operand is a jump to it. -/
  mem_targetOf : ∀ a b, a ∈ p.targetOf b ↔ p.target? a = some b
  nodup : ∀ b, (p.targetOf b).Nodup
  /-- A jump leads to an instruction of the pool. -/
  target_lt : ∀ a t, p.target? a = some t → t < p.size
  fits : ∀ a i, p.get? a = some i → i.operand.fits i.opcode.operandClass = true

/-- An instruction whose operand fits its opcode, and whose jump leads to a handle below `n`. -/
def Admits (n : Nat) (i : Instr) : Prop :=
  i.operand.fits i.opcode.operandClass = true ∧ ∀ t, i.target? = some t → t < n

/-- What jumps to `b` is an instruction whose operand says so. -/
theorem target?_eq_some {a b : Handle} :
    p.target? a = some b ↔ ∃ i, p.get? a = some i ∧ i.target? = some b := Option.bind_eq_some_iff

/-- Only instructions of the pool jump. -/
theorem lt_size_of_target? {a b : Handle} (h : p.target? a = some b) : a < p.size := by
  obtain ⟨i, hi, -⟩ := target?_eq_some.1 h
  exact lt_size_of_get? hi

/-- When all jumps are noted, the jumpers of an instruction are what jumps to it. -/
theorem AllNoted.mem_targetOf (h : p.AllNoted) {a b : Handle} :
    a ∈ p.targetOf b ↔ p.target? a = some b := by
  rw [h.mem_iff, and_iff_right_iff_imp]
  exact lt_size_of_target?

/-- In a consistent pool all jumps are noted. -/
theorem Consistent.notes (h : p.Consistent) : p.AllNoted where
  mem_iff a b := by
    rw [h.mem_targetOf, iff_and_self]
    exact lt_size_of_target?
  nodup := h.nodup

/-- The instructions of a consistent pool fit, and jump within it. -/
theorem Consistent.admits (h : p.Consistent) {a : Handle} {i : Instr} (hi : p.get? a = some i) :
    Admits p.size i :=
  ⟨h.fits a i hi, fun t ht => h.target_lt a t (target?_eq_some.2 ⟨i, hi, ht⟩)⟩

/-- A pool is consistent when the jumps of all of its instructions are noted, and all of them are
    admitted. -/
theorem Notes.consistent (h : p.Notes J) (hall : ∀ a < p.size, J a)
    (hadmits : ∀ a i, p.get? a = some i → Admits p.size i) : p.Consistent where
  mem_targetOf a b := by
    rw [h.mem_iff, and_iff_right_iff_imp]
    exact fun hab => hall a (lt_size_of_target? hab)
  nodup := h.nodup
  target_lt a t hat := by
    obtain ⟨i, hi, ht⟩ := target?_eq_some.1 hat
    exact (hadmits a i hi).2 t ht
  fits a i hi := (hadmits a i hi).1

/-- The pool without instructions is consistent. -/
theorem consistent_empty : Consistent {} where
  mem_targetOf a b := by simp [targetOf, target?, get?]
  nodup b := by simp [targetOf]
  target_lt a t h := by simp [target?, get?] at h
  fits a i h := by simp [get?] at h

/-- What a pool admits is admitted by a larger one. -/
theorem Admits.mono {n m : Nat} {i : Instr} (h : Admits n i) (hnm : n ≤ m) : Admits m i :=
  ⟨h.1, fun t ht => Nat.lt_of_lt_of_le (h.2 t ht) hnm⟩

/-! ### Insertion -/

/-- A stored instruction stands behind the others, which stay. -/
theorem get?_insert (i : Instr) (a : Handle) :
    ((p.push i).link p.size).get? a = if a = p.size then some i else p.get? a := by
  rw [get?_link, get?_push]

/-- A new instruction is noted with the others, when its jump leads into the pool. -/
theorem AllNoted.insert (h : p.AllNoted) {i : Instr} (hi : ∀ t, i.target? = some t → t < p.size) :
    ((p.push i).link p.size).AllNoted := by
  have hnew : ∀ t, (p.push i).target? p.size = some t → t < (p.push i).size := by
    intro t ht
    rw [target?, get?_push, if_pos rfl] at ht
    rw [size_push]
    exact Nat.lt_succ_of_lt (hi t ht)
  refine ((h.push i).link p.size hnew).congr fun a => ?_
  rw [size_link, size_push, Nat.lt_succ_iff_lt_or_eq, or_comm]
  exact or_congr_left (and_iff_right_of_imp Nat.ne_of_lt)

/-- Storing an admitted instruction keeps the pool consistent. -/
theorem Consistent.insert (h : p.Consistent) {i : Instr} (hi : Admits p.size i) :
    ((p.push i).link p.size).Consistent := by
  refine (h.notes.insert hi.2).consistent (fun _ ha => ha) fun a j hj => ?_
  rw [size_link, size_push]
  rw [get?_insert] at hj
  split at hj
  · cases hj
    exact hi.mono (Nat.le_succ _)
  · exact (h.admits hj).mono (Nat.le_succ _)

/-! #### Many instructions -/

/-- Pushing several instructions adds as many slots. -/
theorem size_foldl_push (instrs : List Instr) :
    (instrs.foldl push p).size = p.size + instrs.length := by
  induction instrs generalizing p with
  | nil => rfl
  | cons i rest ih =>
    rw [List.foldl_cons, ih, size_push, List.length_cons]
    omega

/-- Noting jumps adds no slots. -/
theorem size_foldl_link (ids : List Handle) : (ids.foldl link p).size = p.size := by
  induction ids generalizing p with
  | nil => rfl
  | cons id rest ih => rw [List.foldl_cons, ih, size_link]

/-- The notes of the instructions up to `n` stay as they are while instructions are added. -/
theorem Notes.foldl_push {n : Nat} (h : p.Notes fun a => a < n) (hn : n ≤ p.size)
    (instrs : List Instr) : (instrs.foldl Pool.push p).Notes fun a => a < n := by
  induction instrs generalizing p with
  | nil => exact h
  | cons i rest ih =>
    have hpush : (p.push i).Notes fun a => a < n := by
      refine (h.push i).congr fun a => and_iff_right_of_imp fun ha => ?_
      exact Nat.ne_of_lt (Nat.lt_of_lt_of_le ha hn)
    refine ih hpush ?_
    rw [size_push]
    omega

/-- Noting the jumps of some instructions, within the pool, adds these to those that were noted. -/
theorem Notes.foldl_link (h : p.Notes J) (ids : List Handle)
    (hids : ∀ id ∈ ids, ∀ t, p.target? id = some t → t < p.size) :
    (ids.foldl Pool.link p).Notes fun a => a ∈ ids ∨ J a := by
  induction ids generalizing p J with
  | nil => exact h.congr fun a => by simp
  | cons id rest ih =>
    have hfirst := h.link id (hids id List.mem_cons_self)
    refine (ih hfirst fun id' hid' t ht => ?_).congr fun a => ?_
    · rw [target?_congr (get?_link id id')] at ht
      rw [size_link]
      exact hids id' (List.mem_cons_of_mem _ hid') t ht
    · rw [List.mem_cons]
      tauto

/-- Storing a batch keeps the pool consistent, when all of it is admitted to the pool with the
    batch. -/
theorem Consistent.insertMany (h : p.Consistent) {instrs : List Instr}
    (hinstrs : ∀ i ∈ instrs, Admits (p.size + instrs.length) i) :
    ((List.range' p.size instrs.length).foldl link (instrs.foldl push p)).Consistent := by
  have hget : ∀ a i, (instrs.foldl push p).get? a = some i → Admits (p.size + instrs.length) i := by
    intro a i hi
    rw [get?_foldl_push] at hi
    split at hi
    · exact (h.admits hi).mono (Nat.le_add_right _ _)
    · exact hinstrs i (List.mem_of_getElem? hi)
  -- First the old jumps are noted and the new ones are not; linking the batch adds just these.
  have hpushed := h.notes.foldl_push (Nat.le_refl _) instrs
  have hlinked := hpushed.foldl_link (List.range' p.size instrs.length) fun id _ t ht => by
    obtain ⟨i, hi, ht⟩ := target?_eq_some.1 ht
    rw [size_foldl_push]
    exact (hget id i hi).2 t ht
  refine hlinked.consistent (fun a ha => ?_) fun a i hi => ?_
  · rw [size_foldl_link, size_foldl_push] at ha
    show a ∈ List.range' p.size instrs.length ∨ a < p.size
    rw [List.mem_range'_1]
    omega
  · rw [get?_foldl_link] at hi
    rw [size_foldl_link, size_foldl_push]
    exact hget a i hi

/-! ### Replacement -/

/-- Replacing an operand by one that is admitted keeps the pool consistent. -/
theorem Consistent.replace (h : p.Consistent) {id : Handle} {old : Instr} {operand : Operand}
    (hold : p.get? id = some old) (hnew : Admits p.size { old with operand := operand }) :
    (((p.unlink id).setOperand id operand).link id).Consistent := by
  have hget : ∀ a i, ((p.unlink id).setOperand id operand).get? a = some i → Admits p.size i := by
    intro a i hi
    rw [get?_setOperand] at hi
    split at hi
    · rename_i heq
      rw [← heq, get?_unlink, hold] at hi
      cases hi
      exact hnew
    · rw [get?_unlink] at hi
      exact h.admits hi
  -- The operand may be set while the jump of the instruction is not noted.
  have hfree := h.notes.unlink id
  have hset := hfree.setOperand id (fun hid => hid.1 rfl) operand
  have hlinked := hset.link id fun t ht => by
    obtain ⟨i, hi, ht⟩ := target?_eq_some.1 ht
    rw [size_setOperand, size_unlink]
    exact (hget id i hi).2 t ht
  refine hlinked.consistent (fun a ha => ?_) fun a i hi => ?_
  · rw [size_link, size_setOperand, size_unlink] at ha
    tauto
  · rw [get?_link] at hi
    rw [size_link, size_setOperand, size_unlink]
    exact hget a i hi

/-! ### Redirection -/

variable {thief victim : Handle} {incoming : List Handle}

/-- Setting operands adds no slots. -/
theorem size_foldl_setOperand {operand : Operand} :
    (incoming.foldl (fun q j => q.setOperand j operand) p).size = p.size := by
  induction incoming generalizing p with
  | nil => rfl
  | cons j rest ih => rw [List.foldl_cons, ih, size_setOperand]

/-- Setting operands changes these and no others. -/
theorem get?_foldl_setOperand {operand : Operand} {a : Handle} :
    (incoming.foldl (fun q j => q.setOperand j operand) p).get? a =
      if a ∈ incoming then (p.get? a).map fun i => { i with operand := operand }
      else p.get? a := by
  induction incoming generalizing p with
  | nil => simp
  | cons j rest ih =>
    rw [List.foldl_cons, ih, get?_setOperand]
    by_cases hj : j = a
    · subst hj
      cases p.get? j <;> simp
    · have hne : a ≠ j := Ne.symm hj
      simp [hj, hne]

/-- Operands of instructions whose jumps are not noted can be set without harm to the notes. -/
theorem Notes.foldl_setOperand (h : p.Notes J) (hincoming : ∀ j ∈ incoming, ¬ J j)
    (operand : Operand) :
    (incoming.foldl (fun q j => q.setOperand j operand) p).Notes J := by
  induction incoming generalizing p with
  | nil => exact h
  | cons j rest ih =>
    exact ih (h.setOperand j (hincoming j List.mem_cons_self) operand)
      fun j' hj' => hincoming j' (List.mem_cons_of_mem _ hj')

/-- Jumps that lead to the thief already are noted there by linking them. -/
theorem foldl_addJumper_eq (h : ∀ j ∈ incoming, p.target? j = some thief) :
    incoming.foldl (fun q j => q.addJumper thief j) p = incoming.foldl link p := by
  induction incoming generalizing p with
  | nil => rfl
  | cons j rest ih =>
    have hj : p.link j = p.addJumper thief j := by rw [link, h j List.mem_cons_self]
    rw [List.foldl_cons, List.foldl_cons, hj]
    refine ih fun j' hj' => ?_
    rw [target?_congr (get?_addJumper thief j j')]
    exact h j' (List.mem_cons_of_mem _ hj')

/-- Where one jump fits, every jump does. -/
theorem fits_jump {opcode : Opcode} {operand : Operand} (ht : operand.target? = some victim)
    (hfits : operand.fits opcode.operandClass = true) :
    (Operand.jump thief).fits opcode.operandClass = true := by
  cases operand <;> cases ht
  cases hclass : opcode.operandClass <;> rw [hclass] at hfits <;> cases hfits <;> rfl

/-- The pool without the jumpers of `victim`. -/
def clearJumpers (p : Pool) (victim : Handle) : Pool :=
  ⟨p.slots.modify victim fun s => { s with targetOf := [] }⟩

/-- Clearing jumpers does not touch instructions. -/
theorem get?_clearJumpers {a : Handle} : (p.clearJumpers victim).get? a = p.get? a :=
  get?_modify fun _ => rfl

/-- Clearing the jumpers of one instruction leaves those of the others. -/
theorem targetOf_clearJumpers {b : Handle} :
    (p.clearJumpers victim).targetOf b = if b = victim then [] else p.targetOf b := by
  unfold targetOf clearJumpers
  rw [Array.getElem?_modify]
  by_cases hb : victim = b
  · rw [if_pos hb, if_pos hb.symm]
    cases p.slots[b]? <;> rfl
  · rw [if_neg hb, if_neg (Ne.symm hb)]

/-- The jumps to the victim are no longer noted when its jumpers are forgotten. -/
theorem Notes.clearJumpers (h : p.Notes J) :
    (p.clearJumpers victim).Notes fun a => a ∉ p.targetOf victim ∧ J a := by
  refine ⟨fun a b => ?_, fun b => ?_⟩
  · rw [targetOf_clearJumpers, target?_congr get?_clearJumpers, h.mem_iff]
    split
    · rename_i hb
      subst hb
      simp only [List.not_mem_nil, false_iff]
      rintro ⟨⟨hnot, ha⟩, hab⟩
      exact hnot ⟨ha, hab⟩
    · rename_i hb
      rw [h.mem_iff]
      constructor
      · rintro ⟨ha, hab⟩
        -- A jumper of the victim jumps nowhere else.
        refine ⟨⟨fun hvictim => ?_, ha⟩, hab⟩
        rw [hab] at hvictim
        exact hb (Option.some.inj hvictim.2)
      · rintro ⟨⟨-, ha⟩, hab⟩
        exact ⟨ha, hab⟩
  · rw [targetOf_clearJumpers]
    split
    · exact List.nodup_nil
    · exact h.nodup b

/-- The pool in which the jumps to `victim` lead to `thief`, but are noted nowhere. -/
def redirect (p : Pool) (thief victim : Handle) : Pool :=
  (p.targetOf victim).foldl (fun q j => q.setOperand j (.jump thief)) (p.clearJumpers victim)

/-- Redirecting adds no slots. -/
theorem size_redirect : (p.redirect thief victim).size = p.size :=
  size_foldl_setOperand.trans size_modify

/-- Redirecting changes the operands of the jumpers alone. -/
theorem get?_redirect {a : Handle} :
    (p.redirect thief victim).get? a =
      if a ∈ p.targetOf victim then (p.get? a).map fun i => { i with operand := .jump thief }
      else p.get? a := by
  rw [redirect, get?_foldl_setOperand, get?_clearJumpers]

/-- The pool in which `thief` took over the jumps to `victim`. -/
def setStolenBy (p : Pool) (victim thief : Handle) : Pool :=
  ⟨p.slots.modify victim fun s => { s with stolenBy := some thief }⟩

/-- Noting a thief adds no slots. -/
theorem size_setStolenBy : (p.setStolenBy victim thief).size = p.size := size_modify

/-- Noting a thief does not touch instructions. -/
theorem get?_setStolenBy {a : Handle} : (p.setStolenBy victim thief).get? a = p.get? a :=
  get?_modify fun _ => rfl

/-- Noting a thief does not touch jumpers. -/
theorem targetOf_setStolenBy {b : Handle} :
    (p.setStolenBy victim thief).targetOf b = p.targetOf b := targetOf_modify fun _ => rfl

section

variable (h : p.AllNoted)

include h

/-- What jumped to the victim jumps to the thief. -/
theorem AllNoted.target?_redirect {j : Handle} (hj : j ∈ p.targetOf victim) :
    (p.redirect thief victim).target? j = some thief := by
  obtain ⟨i, hi, -⟩ := target?_eq_some.1 (h.mem_targetOf.1 hj)
  exact target?_eq_some.2 ⟨_, by rw [get?_redirect, if_pos hj, hi, Option.map_some], rfl⟩

/-- After redirecting, all jumps are noted but those that were redirected. -/
theorem AllNoted.notes_redirect (thief victim : Handle) :
    (p.redirect thief victim).Notes fun a => a ∉ p.targetOf victim ∧ a < p.size :=
  h.clearJumpers.foldl_setOperand (fun _ hj hfree => hfree.1 hj) _

/-- Redirection, in its parts: noting the jumps is linking them, since they lead to the thief when
    they are noted. -/
theorem AllNoted.moveJumps_eq : p.moveJumps thief victim =
    ((p.targetOf victim).foldl link (p.redirect thief victim)).setStolenBy victim thief := by
  rw [← foldl_addJumper_eq fun j hj => h.target?_redirect hj]
  rfl

/-- Handing jumps over adds no slots. -/
theorem AllNoted.size_moveJumps : (p.moveJumps thief victim).size = p.size := by
  rw [h.moveJumps_eq, size_setStolenBy, size_foldl_link, size_redirect]

/-- Handing jumps over changes operands as redirecting does. -/
theorem AllNoted.get?_moveJumps (a : Handle) :
    (p.moveJumps thief victim).get? a = (p.redirect thief victim).get? a := by
  rw [h.moveJumps_eq, get?_setStolenBy, get?_foldl_link]

/-- The jumps to the victim lead to the thief, and all others where they did. -/
theorem AllNoted.target?_moveJumps (a : Handle) :
    (p.moveJumps thief victim).target? a =
      (p.target? a).map fun t => if t = victim then thief else t := by
  rw [target?_congr (h.get?_moveJumps a)]
  by_cases ha : a ∈ p.targetOf victim
  · rw [h.target?_redirect ha, h.mem_targetOf.1 ha, Option.map_some, if_pos rfl]
  · have hkeep : (p.redirect thief victim).target? a = p.target? a :=
      target?_congr (by rw [get?_redirect, if_neg ha])
    rw [hkeep]
    cases ht : p.target? a with
    | none => rfl
    | some t =>
      have hne : t ≠ victim := by
        rintro rfl
        exact ha (h.mem_targetOf.2 ht)
      rw [Option.map_some, if_neg hne]

/-- **Redirection.** The jumps to the victim lead to the thief, also that of the thief itself, and
    are noted there. -/
theorem AllNoted.moveJumps (hthief : thief < p.size) : (p.moveJumps thief victim).AllNoted := by
  have hlinked := (h.notes_redirect thief victim).foldl_link (p.targetOf victim)
    fun j hj t ht => by
      rw [h.target?_redirect hj] at ht
      cases ht
      rw [size_redirect]
      exact hthief
  have hnotes : (p.moveJumps thief victim).Notes
      fun a => a ∈ p.targetOf victim ∨ a ∉ p.targetOf victim ∧ a < p.size := by
    rw [h.moveJumps_eq]
    exact hlinked.congr_pool (fun _ => get?_setStolenBy) fun _ => targetOf_setStolenBy
  refine hnotes.congr fun a => ?_
  rw [h.size_moveJumps]
  have hlt : a ∈ p.targetOf victim → a < p.size := fun ha => ((h.mem_iff a victim).1 ha).1
  tauto

end

/-- By the invariant itself, the operands that are overwritten are jumps, and so they fit their
    opcodes as they did. -/
theorem Consistent.admits_redirect (h : p.Consistent) (hthief : thief < p.size) {a : Handle}
    {i : Instr} (hi : (p.redirect thief victim).get? a = some i) : Admits p.size i := by
  rw [get?_redirect] at hi
  split at hi
  · rename_i ha
    obtain ⟨old, hold, rfl⟩ := Option.map_eq_some_iff.1 hi
    obtain ⟨old', hold', ht⟩ := target?_eq_some.1 ((h.mem_targetOf a victim).1 ha)
    rw [hold] at hold'
    cases hold'
    refine ⟨fits_jump ht (h.fits a old hold), fun t ht => ?_⟩
    cases ht
    exact hthief
  · exact h.admits hi

/-- **Stealing.** Handing the jumps of an instruction over to another one keeps the pool
    consistent. -/
theorem Consistent.moveJumps (h : p.Consistent) (hthief : thief < p.size) :
    (p.moveJumps thief victim).Consistent := by
  refine (h.notes.moveJumps hthief).consistent (fun _ ha => ha) fun a i hi => ?_
  rw [h.notes.get?_moveJumps] at hi
  rw [h.notes.size_moveJumps]
  exact h.admits_redirect hthief hi

end StackCode.Pool

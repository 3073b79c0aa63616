import StackCode.Proofs.Pool.Calls
import StackCode.Proofs.Pool.Successors

namespace StackCode

/-!
# Handing over jumps

A builder lets one instruction steal from all labels that wait.  The steals are done one after the
other, and come to one map on targets: whatever led to a victim leads to the thief.

* `Instr.mapTarget` — an instruction whose jump leads elsewhere.
* `Pool.stolenBy_moveJumps`, `Pool.Consistent.get?_moveJumps` — what one steal does to a pool.
* `Pool.HandedOver` — one instruction took over the jumps to others; `Pool.exists_steals` says that
  stealing from one after the other comes to that.
* `Pool.resolve_eq` — the end of a chain of thieves that has one link at most.
-/

/-! ### Targets of operands -/

/-- The operand with `f` of its target, if it is a jump. -/
def Operand.mapTarget (f : Handle → Handle) : Operand → Operand
  | .jump t => .jump (f t)
  | o => o

/-- The instruction with `f` of its target, if it is a jump. -/
def Instr.mapTarget (f : Handle → Handle) (i : Instr) : Instr :=
  { i with operand := i.operand.mapTarget f }

variable {f g : Handle → Handle}

/-- The target of a mapped operand is mapped. -/
@[simp] theorem Operand.target?_mapTarget (o : Operand) :
    (o.mapTarget f).target? = o.target?.map f := by
  cases o <;> rfl

/-- Operands are mapped one way after the other. -/
@[simp] theorem Operand.mapTarget_mapTarget (o : Operand) :
    (o.mapTarget f).mapTarget g = o.mapTarget (g ∘ f) := by
  cases o <;> rfl

/-- A mapped operand fits where it did before. -/
@[simp] theorem Operand.fits_mapTarget (o : Operand) (c : OperandClass) :
    (o.mapTarget f).fits c = o.fits c := by
  cases o
  case jump t => cases c <;> rfl
  all_goals rfl

/-- Only opcodes that jump take a jump. -/
theorem Operand.isJump_of_fits {t : Handle} {c : OperandClass}
    (h : (Operand.jump t).fits c = true) : c.isJump = true := by
  cases c with
  | jumpAbs | jumpRel => rfl
  | _ => cases h

/-- Mapping targets to themselves changes nothing. -/
theorem Operand.mapTarget_id (o : Operand) : o.mapTarget id = o := by
  cases o <;> rfl

/-- It is enough to map the target that is there. -/
theorem Operand.mapTarget_congr {o : Operand} (h : ∀ t, o.target? = some t → f t = g t) :
    o.mapTarget f = o.mapTarget g := by
  cases o
  case jump t => exact congrArg Operand.jump (h t rfl)
  all_goals rfl

/-- Instructions are mapped one way after the other. -/
@[simp] theorem Instr.mapTarget_mapTarget (i : Instr) :
    (i.mapTarget f).mapTarget g = i.mapTarget (g ∘ f) := by
  rw [Instr.mapTarget, Instr.mapTarget, Instr.mapTarget, Operand.mapTarget_mapTarget]

/-- For instructions too it is enough to map the target that is there. -/
theorem Instr.mapTarget_congr {i : Instr} (h : ∀ t, i.target? = some t → f t = g t) :
    i.mapTarget f = i.mapTarget g := by
  rw [Instr.mapTarget, Instr.mapTarget, Operand.mapTarget_congr h]

/-- Mapping targets to themselves changes no instruction. -/
theorem Instr.mapTarget_id (i : Instr) : i.mapTarget id = i := by
  rw [Instr.mapTarget, Operand.mapTarget_id]

/-- An instruction whose target is mapped to itself stays. -/
theorem Instr.mapTarget_eq_self {i : Instr} (h : ∀ t, i.target? = some t → f t = t) :
    i.mapTarget f = i :=
  (Instr.mapTarget_congr h).trans i.mapTarget_id

namespace Pool

variable {p q : Pool} {a id thief victim : Handle}

/-! ### Thieves -/

/-- A change to a slot that keeps its thief keeps those of all slots. -/
theorem stolenBy_modify {f : Slot → Slot} (hf : ∀ s, (f s).stolenBy = s.stolenBy) :
    (⟨p.slots.modify id f⟩ : Pool).stolenBy a = p.stolenBy a := by
  unfold stolenBy
  rw [Array.getElem?_modify]
  split
  · rw [Option.bind_map]
    exact congrArg (fun g => p.slots[a]?.bind g) (funext hf)
  · rfl

/-- Noting a jump leaves the links to thieves alone. -/
theorem stolenBy_link : (p.link id).stolenBy a = p.stolenBy a := by
  unfold link
  split
  · refine stolenBy_modify fun s => ?_
    split <;> rfl
  · rfl

/-- Pushing an instruction leaves the links to thieves alone. -/
theorem stolenBy_push (i : Instr) : (p.push i).stolenBy a = p.stolenBy a := by
  unfold stolenBy push
  rw [Array.getElem?_push]
  split
  · rename_i ha
    rw [Array.getElem?_eq_none (by omega)]
    rfl
  · rfl

/-- Noting several jumps leaves the links to thieves alone. -/
theorem stolenBy_foldl_link (ids : List Handle) :
    (ids.foldl link p).stolenBy a = p.stolenBy a := by
  induction ids generalizing p with
  | nil => rfl
  | cons id rest ih => rw [List.foldl_cons, ih, stolenBy_link]

/-- Redirecting leaves the links to thieves alone. -/
theorem stolenBy_redirect : (p.redirect thief victim).stolenBy a = p.stolenBy a := by
  have hfold : ∀ (ids : List Handle) (q : Pool),
      (ids.foldl (fun q j => q.setOperand j (.jump thief)) q).stolenBy a = q.stolenBy a := by
    intro ids
    induction ids with
    | nil => exact fun q => rfl
    | cons j rest ih =>
      intro q
      rw [List.foldl_cons, ih]
      exact stolenBy_modify fun _ => rfl
  rw [redirect, hfold]
  exact stolenBy_modify fun _ => rfl

/-- Noting a thief sets the link of its victim alone. -/
theorem stolenBy_setStolenBy (hvictim : victim < p.size) :
    (p.setStolenBy victim thief).stolenBy a = if a = victim then some thief else p.stolenBy a := by
  unfold stolenBy setStolenBy
  rw [Array.getElem?_modify]
  by_cases ha : victim = a
  · subst ha
    rw [if_pos rfl, if_pos rfl, Array.getElem?_eq_getElem hvictim]
    rfl
  · rw [if_neg ha, if_neg (Ne.symm ha)]

/-! ### Insertion -/

/-- Storing an instruction leaves the links to thieves alone. -/
theorem stolenBy_insert (i : Instr) : ((p.push i).link p.size).stolenBy a = p.stolenBy a := by
  rw [stolenBy_link, stolenBy_push]

/-- An instruction whose jump leads into the pool is stored under the next handle. -/
theorem run_insert_ok {i : Instr} (h : ∀ t, i.target? = some t → t < p.size) :
    (Pool.insert i).run p = .ok p.size ((p.push i).link p.size) := by
  have hcheck : checkTarget p.size i.operand = .ok () := checkTarget_eq_ok.2 h
  simp only [Pool.insert, guarded, hcheck, EStateM.run_bind, EStateM.run_get, EStateM.run_pure]
  rfl

/-! ### One steal -/

/-- Handing jumps over links the victim to its thief, and changes no other link. -/
theorem AllNoted.stolenBy_moveJumps (h : p.AllNoted) (hvictim : victim < p.size) :
    (p.moveJumps thief victim).stolenBy a = if a = victim then some thief else p.stolenBy a := by
  rw [h.moveJumps_eq, stolenBy_setStolenBy, stolenBy_foldl_link, stolenBy_redirect]
  rwa [size_foldl_link, size_redirect]

/-- Instructions keep their opcodes, and jumps to the victim lead to the thief. -/
theorem Consistent.get?_moveJumps (h : p.Consistent) :
    (p.moveJumps thief victim).get? a =
      (p.get? a).map (Instr.mapTarget fun t => if t = victim then thief else t) := by
  rw [h.notes.get?_moveJumps, get?_redirect]
  split
  · rename_i ha
    obtain ⟨i, hi, ht⟩ := target?_eq_some.1 ((h.mem_targetOf a victim).1 ha)
    rw [hi, Option.map_some, Option.map_some]
    obtain ⟨opcode, operand⟩ := i
    cases operand <;> cases ht
    simp [Instr.mapTarget, Operand.mapTarget]
  · rename_i ha
    cases hi : p.get? a with
    | none => rfl
    | some i =>
      rw [Option.map_some]
      refine congrArg some (Instr.mapTarget_eq_self fun t ht => if_neg ?_).symm
      rintro rfl
      exact ha ((h.mem_targetOf a t).2 (target?_eq_some.2 ⟨i, hi, ht⟩))

/-- Stealing succeeds between two instructions of the pool. -/
theorem run_steal_ok (hthief : thief < p.size) (hvictim : victim < p.size) (hne : thief ≠ victim) :
    (steal thief victim).run p = .ok () (p.moveJumps thief victim) := by
  simp [steal, guarded, checkBelow_eq_ok.2 hthief, checkBelow_eq_ok.2 hvictim, hne]

/-! ### Steals in sequence -/

/-- The pool `q` is `p` after `thief` took over the jumps to `victims`. -/
structure HandedOver (p : Pool) (thief : Handle) (victims : List Handle) (q : Pool) : Prop where
  consistent : q.Consistent
  size : q.size = p.size
  stolenBy : ∀ a, q.stolenBy a = if a ∈ victims then some thief else p.stolenBy a
  get? : ∀ a, q.get? a =
    (p.get? a).map (Instr.mapTarget fun t => if t ∈ victims then thief else t)

/-- **Steals.** Stealing from one instruction after the other succeeds, and hands over all of their
    jumps. -/
theorem exists_steals (h : p.Consistent) (hthief : thief < p.size) {victims : List Handle}
    (hvictims : ∀ v ∈ victims, v < p.size) (hnot : thief ∉ victims) :
    ∃ q, (victims.forM (steal thief)).run p = .ok () q ∧ HandedOver p thief victims q := by
  induction victims generalizing p with
  | nil =>
    refine ⟨p, rfl, h, rfl, fun a => by simp, fun a => ?_⟩
    cases p.get? a with
    | none => rfl
    | some i =>
      rw [Option.map_some]
      exact congrArg some (Instr.mapTarget_eq_self fun t _ => by simp).symm
  | cons victim rest ih =>
    obtain ⟨hvictim, hrest⟩ := List.forall_mem_cons.1 hvictims
    obtain ⟨hne, hnot⟩ := not_or.1 (mt List.mem_cons.2 hnot)
    have hsize : (p.moveJumps thief victim).size = p.size := h.notes.size_moveJumps
    have hmoved : (p.moveJumps thief victim).Consistent := h.moveJumps hthief
    -- The first steal keeps the pool consistent and its size, so that the others can be done.
    obtain ⟨q, hrun, hq⟩ := ih hmoved (hsize ▸ hthief)
      (fun v hv => hsize ▸ hrest v hv) hnot
    refine ⟨q, ?_, hq.consistent, hq.size.trans hsize, fun a => ?_, fun a => ?_⟩
    · show (do steal thief victim; rest.forM (steal thief) : PoolM Unit).run p = _
      rw [EStateM.run_bind, run_steal_ok hthief hvictim hne]
      exact hrun
    · rw [hq.stolenBy, h.notes.stolenBy_moveJumps hvictim]
      by_cases ha : a ∈ rest
      · simp [ha]
      · simp [ha]
    · rw [hq.get?, h.get?_moveJumps, Option.map_map]
      refine congrArg (fun f => (p.get? a).map f) (funext fun i => ?_)
      rw [Function.comp_apply, Instr.mapTarget_mapTarget]
      -- A target that was the first victim is the thief by now, which the other steals leave as
      -- it is.
      refine Instr.mapTarget_congr fun t _ => ?_
      by_cases ht : t = victim
      · subst ht
        simp
      · simp [ht]

/-! ### Chains of one link -/

/-- An instruction that nobody stole from is the end of its chain. -/
theorem resolveIn_of_none (h : p.stolenBy id = none) (fuel : Nat) : p.resolveIn fuel id = id := by
  cases fuel with
  | zero => rfl
  | succ fuel => rw [resolveIn, h]

/-- The end of a chain of thieves in which nobody robs a thief. -/
theorem resolve_eq (h : ∀ t, p.stolenBy id = some t → p.stolenBy t = none) :
    p.resolve id = (p.stolenBy id).getD id := by
  rw [resolve]
  cases hstolen : p.stolenBy id with
  | none => exact resolveIn_of_none hstolen _
  | some t =>
    have hlt := lt_size_of_stolenBy hstolen
    obtain ⟨n, hn⟩ := Nat.exists_eq_succ_of_ne_zero (Nat.ne_zero_of_lt hlt)
    rw [hn, resolveIn, hstolen]
    exact resolveIn_of_none (h t hstolen) n

end Pool

end StackCode

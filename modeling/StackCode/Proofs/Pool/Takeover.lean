import StackCode.Proofs.Pool.Steals

namespace StackCode.Pool

/-!
# What one steal changes

Back edges say which jumpers an instruction has, as a set.  Here their order is followed through the
steps of redirection as well, so that every field of every slot is accounted for.

* `targetOf_foldl_addJumper` — jumpers are noted behind those that an instruction has.
* `AllNoted.targetOf_moveJumps` — the jumpers of all instructions after a steal.
* `Takeover` — one instruction took over from another, and nothing else is changed.
* `takeover_of_steal` — stealing comes to that, in every pool that calls lead to.
-/

variable {p q : Pool} {id thief victim : Handle} {incoming : List Handle}

/-! ### Jumpers -/

/-- Setting operands does not touch jumpers. -/
theorem targetOf_foldl_setOperand {operand : Operand} (b : Handle) :
    (incoming.foldl (fun q j => q.setOperand j operand) p).targetOf b = p.targetOf b := by
  induction incoming generalizing p with
  | nil => rfl
  | cons j rest ih => rw [List.foldl_cons, ih, targetOf_setOperand]

/-- Before the jumps are noted again, the victim has no jumpers, and all others have theirs. -/
theorem targetOf_redirect (b : Handle) :
    (p.redirect thief victim).targetOf b = if b = victim then [] else p.targetOf b := by
  rw [redirect, targetOf_foldl_setOperand, targetOf_clearJumpers]

/-- Jumpers that are new to an instruction are noted behind those that it has, in their order. -/
theorem targetOf_foldl_addJumper (hid : id < p.size) (hnodup : incoming.Nodup)
    (hnew : ∀ j ∈ incoming, j ∉ p.targetOf id) (b : Handle) :
    (incoming.foldl (fun q j => q.addJumper id j) p).targetOf b =
      if b = id then p.targetOf id ++ incoming else p.targetOf b := by
  induction incoming generalizing p with
  | nil =>
    rw [List.append_nil, List.foldl_nil]
    split
    · rename_i hb
      rw [hb]
    · rfl
  | cons j rest ih =>
    obtain ⟨hj, hrest⟩ := List.forall_mem_cons.1 hnew
    obtain ⟨hjrest, hnodup⟩ := List.nodup_cons.1 hnodup
    have hadd : ∀ b, (p.addJumper id j).targetOf b =
        if b = id then p.targetOf id ++ [j] else p.targetOf b := by
      intro b
      rw [targetOf_addJumper]
      by_cases hb : b = id
      · subst hb
        simp [hid, hj]
      · simp [hb]
    -- `j` itself is noted now, but it does not come again.
    have hnew' : ∀ k ∈ rest, k ∉ (p.addJumper id j).targetOf id := by
      intro k hk
      rw [hadd, if_pos rfl, List.mem_append, List.mem_singleton]
      rintro (hk' | rfl)
      · exact hrest k hk hk'
      · exact hjrest hk
    rw [List.foldl_cons, ih (by rwa [size_addJumper]) hnodup hnew', hadd, hadd, if_pos rfl]
    split
    · rw [List.append_assoc, List.singleton_append]
    · rfl

/-- The jumpers of the victim come behind those of the thief, in their order, and all others are
    where they were. -/
theorem AllNoted.targetOf_moveJumps (h : p.AllNoted) (hthief : thief < p.size)
    (hne : thief ≠ victim) (b : Handle) :
    (p.moveJumps thief victim).targetOf b =
      if b = victim then [] else if b = thief then p.targetOf thief ++ p.targetOf victim
      else p.targetOf b := by
  -- An instruction has one target, so nobody jumps to both.
  have hnew : ∀ j ∈ p.targetOf victim, j ∉ (p.redirect thief victim).targetOf thief := by
    intro j hj hj'
    rw [targetOf_redirect, if_neg hne, h.mem_targetOf, h.mem_targetOf.1 hj] at hj'
    exact hne (Option.some.inj hj').symm
  have hmove : (p.moveJumps thief victim).targetOf b =
      ((p.targetOf victim).foldl (fun q j => q.addJumper thief j)
        (p.redirect thief victim)).targetOf b := targetOf_setStolenBy
  rw [hmove, targetOf_foldl_addJumper (by rwa [size_redirect]) (h.nodup victim) hnew,
    targetOf_redirect, targetOf_redirect, if_neg hne]
  by_cases hb : b = victim
  · subst hb
    rw [if_neg (Ne.symm hne), if_pos rfl, if_pos rfl]
  · rw [if_neg hb, if_neg hb]

/-! ### The whole pool -/

/-- The pool `q` is `p` after `thief` took over the jumps to `victim`. -/
structure Takeover (p : Pool) (thief victim : Handle) (q : Pool) : Prop where
  /-- What jumped to the victim jumps to the thief, with the opcode that it had. -/
  redirected : ∀ a opcode, p.get? a = some ⟨opcode, .jump victim⟩ →
    q.get? a = some ⟨opcode, .jump thief⟩
  /-- All other instructions are kept, and there are no new ones. -/
  kept : ∀ a, (∀ opcode, p.get? a ≠ some ⟨opcode, .jump victim⟩) → q.get? a = p.get? a
  targetOf_victim : q.targetOf victim = []
  targetOf_thief : q.targetOf thief = p.targetOf thief ++ p.targetOf victim
  targetOf_other : ∀ b, b ≠ victim → b ≠ thief → q.targetOf b = p.targetOf b
  stolenBy_victim : q.stolenBy victim = some thief
  stolenBy_other : ∀ b, b ≠ victim → q.stolenBy b = p.stolenBy b

/-- Since the jumpers of the victim are noted without exception, redirecting them redirects all
    jumps to it: its own, that of the thief, and those that were redirected before. -/
theorem Consistent.takeover_moveJumps (h : p.Consistent) (hthief : thief < p.size)
    (hvictim : victim < p.size) (hne : thief ≠ victim) :
    Takeover p thief victim (p.moveJumps thief victim) where
  redirected a opcode ha := by
    rw [h.get?_moveJumps, ha, Option.map_some]
    simp [Instr.mapTarget, Operand.mapTarget]
  kept a ha := by
    rw [h.get?_moveJumps]
    cases hi : p.get? a with
    | none => rfl
    | some i =>
      obtain ⟨opcode, operand⟩ := i
      rw [Option.map_some]
      -- No jump among the kept instructions leads to the victim.
      refine congrArg some (Instr.mapTarget_eq_self fun t ht => if_neg ?_)
      rintro rfl
      cases operand <;> cases ht
      exact ha opcode hi
  targetOf_victim := by rw [h.notes.targetOf_moveJumps hthief hne, if_pos rfl]
  targetOf_thief := by rw [h.notes.targetOf_moveJumps hthief hne, if_neg hne, if_pos rfl]
  targetOf_other b hb hb' := by
    rw [h.notes.targetOf_moveJumps hthief hne, if_neg hb, if_neg hb']
  stolenBy_victim := by rw [h.notes.stolenBy_moveJumps hvictim, if_pos rfl]
  stolenBy_other b hb := by rw [h.notes.stolenBy_moveJumps hvictim, if_neg hb]

/-- **Steals.** Whatever calls were made on a pool that began empty, one instruction of the pool can
    take over from another, and nothing but the jumps to the other is changed by it. -/
theorem takeover_of_steal (calls : List Call) (hthief : thief < (afterCalls {} calls).size)
    (hvictim : victim < (afterCalls {} calls).size) (hne : thief ≠ victim) :
    ∃ q, (steal thief victim).run (afterCalls {} calls) = .ok () q ∧
      Takeover (afterCalls {} calls) thief victim q :=
  ⟨_, run_steal_ok hthief hvictim hne,
    (consistent_afterCalls calls).takeover_moveJumps hthief hvictim hne⟩

/-- A victim that jumps to itself, a thief that jumps to its victim, one jump to the victim that was
    redirected before, and one to the thief. -/
def crowdedCalls : List Call :=
  [.insertMany [(.jumpAbsolute, .jump 0), (.jumpForward, .jump 0), (.nop, .none),
      (.jumpForward, .jump 2)],
    .steal 0 2, .insert .popJumpIfTrue (.jump 1)]

/-- The victim has three jumpers then, itself and the thief among them, and gives them all up. -/
theorem takeover_of_steal_crowded :
    (afterCalls {} crowdedCalls).targetOf 0 = [0, 1, 3] ∧
      (afterCalls {} crowdedCalls).targetOf 1 = [4] ∧
      1 < (afterCalls {} crowdedCalls).size ∧ 0 < (afterCalls {} crowdedCalls).size ∧ 1 ≠ 0 ∧
      ∃ q, (steal 1 0).run (afterCalls {} crowdedCalls) = .ok () q ∧
        Takeover (afterCalls {} crowdedCalls) 1 0 q := by
  have hthief : 1 < (afterCalls {} crowdedCalls).size := by decide
  have hvictim : 0 < (afterCalls {} crowdedCalls).size := by decide
  exact ⟨by decide, by decide, hthief, hvictim, by decide,
    takeover_of_steal crowdedCalls hthief hvictim (by decide)⟩

end StackCode.Pool

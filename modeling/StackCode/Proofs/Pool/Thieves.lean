import StackCode.Proofs.Pool.Deeds
import StackCode.Proofs.Pool.Steals

namespace StackCode.Pool

/-!
# Thieves

A slot knows its last thief only, and deeds know all of them.  The two agree, since each steal sets
the link of its victim and leaves the links of all others.

* `lastThief?` — the instruction that the jumps to another one were handed over to last.
* `Holds` — the first accepted instruction on a chain of thieves, the start of the chain included;
  `heir_iff_holds` says that behind the start it is the heir.
* `Consistent.deeds` — deeds keep a pool consistent.
* `thievesKnown_afterCalls` — whatever calls are made, thieves are instructions of the pool.
-/

variable {p q : Pool} {ds ds' : List Deed} {a id next thief victim x y : Handle}
  {accept : Handle → Bool}

/-! ### Last thieves -/

/-- The instruction that takes over from `id` by the deed.  Nothing is taken over from oneself. -/
def Deed.takesOver? (id : Handle) : Deed → Option Handle
  | .emitted _ _ => none
  | .stole thief victim => if victim = id ∧ thief ≠ id then some thief else none

/-- The last instruction that the jumps to `id` were handed over to. -/
def lastThief? (ds : List Deed) (id : Handle) : Option Handle :=
  ds.reverse.findSome? (·.takesOver? id)

/-- Later thieves count before earlier ones. -/
theorem lastThief?_append :
    lastThief? (ds ++ ds') id = (lastThief? ds' id).or (lastThief? ds id) := by
  rw [lastThief?, List.reverse_append, List.findSome?_append, lastThief?, lastThief?]

/-- A single deed tells its thief. -/
theorem lastThief?_singleton (d : Deed) : lastThief? [d] id = d.takesOver? id := by
  rw [lastThief?, List.reverse_singleton, List.findSome?_singleton]

/-- An instruction that is no victim has no thief. -/
theorem lastThief?_eq_none (h : ∀ thief, .stole thief id ∉ ds) : lastThief? ds id = none := by
  rw [lastThief?, List.findSome?_eq_none_iff]
  intro d hd
  cases d with
  | emitted _ _ => rfl
  | stole thief victim =>
    apply if_neg
    rintro ⟨rfl, -⟩
    exact h thief (List.mem_reverse.1 hd)

/-- What a steal that succeeds has done. -/
theorem eq_of_run_steal (h : (steal thief victim).run p = .ok () q) :
    thief = victim ∧ q = p ∨
      thief ≠ victim ∧ thief < p.size ∧ victim < p.size ∧ q = p.moveJumps thief victim := by
  cases hthief : checkBelow p.size thief with
  | error e => simp [steal, guarded, hthief] at h
  | ok _ =>
    cases hvictim : checkBelow p.size victim with
    | error e => simp [steal, guarded, hthief, hvictim] at h
    | ok _ =>
      by_cases hne : thief = victim
      · left
        simp [steal, guarded, hvictim, hne] at h
        exact ⟨hne, h.symm⟩
      · right
        simp [steal, guarded, hthief, hvictim, hne] at h
        exact ⟨hne, checkBelow_eq_ok.1 hthief, checkBelow_eq_ok.1 hvictim, h.symm⟩

/-- **One steal.** It is the last deed that says who has taken over. -/
theorem AllNoted.stolenBy_of_run_steal (hp : p.AllNoted)
    (h : (steal thief victim).run p = .ok () q) (id : Handle) :
    q.stolenBy id = (Deed.takesOver? id (.stole thief victim)).or (p.stolenBy id) := by
  rcases eq_of_run_steal h with ⟨rfl, rfl⟩ | ⟨hne, -, hvictim, rfl⟩
  · rw [Deed.takesOver?, if_neg fun hself => hself.2 hself.1, Option.none_or]
  · rw [hp.stolenBy_moveJumps hvictim, Deed.takesOver?]
    by_cases hid : id = victim
    · subst hid
      rw [if_pos rfl, if_pos ⟨rfl, hne⟩, Option.some_or]
    · rw [if_neg hid, if_neg fun hvictim => hid hvictim.1.symm, Option.none_or]

/-! ### Holders -/

/-- `x` is the first accepted instruction on the chain of thieves that starts with `id`. -/
inductive Holds (p : Pool) (accept : Handle → Bool) : Handle → Handle → Prop where
  | here {id : Handle} (haccept : accept id = true) : Holds p accept id id
  | behind {id next x : Handle} (haccept : accept id = false) (hnext : p.stolenBy id = some next)
      (hrest : Holds p accept next x) : Holds p accept id x

/-- What holds the jumps is accepted. -/
theorem Holds.accepted (h : p.Holds accept id x) : accept x = true := by
  induction h with
  | here haccept => exact haccept
  | behind _ _ _ ih => exact ih

/-- An accepted instruction holds its own place. -/
theorem Holds.eq_of_accepted (h : p.Holds accept id x) (haccept : accept id = true) : x = id := by
  cases h with
  | here _ => rfl
  | behind hnot _ _ =>
    rw [haccept] at hnot
    cases hnot

/-- Only one instruction holds the jumps. -/
theorem Holds.unique (h : p.Holds accept id x) (h' : p.Holds accept id y) : x = y := by
  induction h with
  | here haccept => exact (h'.eq_of_accepted haccept).symm
  | behind haccept hnext _ ih =>
    cases h' with
    | here haccept' =>
      rw [haccept] at haccept'
      cases haccept'
    | behind _ hnext' hrest' =>
      rw [hnext] at hnext'
      cases hnext'
      exact ih hrest'

/-- It is the first accepted one on the chain, the start included. -/
theorem holds_iff_firstFrom : p.Holds accept id x ↔ ∃ n, p.FirstFrom accept 0 n id x := by
  constructor
  · intro h
    induction h with
    | here haccept => exact ⟨0, firstFrom_zero.2 ⟨rfl, haccept⟩⟩
    | behind haccept hnext _ ih =>
      obtain ⟨n, hn⟩ := ih
      exact ⟨n + 1, firstFrom_zero_succ.2 ⟨haccept, (firstFrom_succ hnext).2 hn⟩⟩
  · rintro ⟨n, h⟩
    -- The induction is on the number of links up to the accepted instruction.
    induction n generalizing id with
    | zero =>
      obtain ⟨rfl, haccept⟩ := firstFrom_zero.1 h
      exact .here haccept
    | succ n ih =>
      obtain ⟨haccept, h⟩ := firstFrom_zero_succ.1 h
      cases hnext : p.stolenBy id with
      | none => exact absurd h (not_firstFrom_succ hnext)
      | some next => exact .behind haccept hnext (ih ((firstFrom_succ hnext).1 h))

/-- The heir of an instruction that is not accepted holds its place. -/
theorem heir_iff_holds (h : accept id = false) : p.Heir accept id x ↔ p.Holds accept id x := by
  rw [holds_iff_firstFrom]
  constructor
  · rintro ⟨n, hpos, hn⟩
    obtain ⟨n, rfl⟩ := Nat.exists_eq_succ_of_ne_zero (Nat.ne_of_gt hpos)
    exact ⟨n + 1, firstFrom_zero_succ.2 ⟨h, hn⟩⟩
  · rintro ⟨n, hn⟩
    cases n with
    | zero =>
      obtain ⟨rfl, haccept⟩ := firstFrom_zero.1 hn
      rw [h] at haccept
      cases haccept
    | succ n => exact ⟨n + 1, Nat.succ_pos n, (firstFrom_zero_succ.1 hn).2⟩

/-! ### Consistency after deeds -/

/-- Deeds with instructions that fit keep a pool consistent. -/
theorem Consistent.does {d : Deed} (hp : p.Consistent) (h : d.Does p q)
    (hfits : ∀ id i, d = .emitted id i → i.operand.fits i.opcode.operandClass = true) :
    q.Consistent := by
  cases h with
  | emitted hi => exact hp.insert ⟨hfits _ _ rfl, hi⟩
  | stole hthief => exact hp.moveJumps hthief
  | stoleOwn => exact hp

/-- **Deeds.** They keep a pool consistent when the instructions that are stored fit their
    opcodes. -/
theorem Consistent.deeds (hp : p.Consistent) (h : Deeds p ds q)
    (hfits : ∀ id i, .emitted id i ∈ ds → i.operand.fits i.opcode.operandClass = true) :
    q.Consistent := by
  induction h with
  | nil => exact hp
  | cons hd _ ih =>
    refine ih (hp.does hd fun id i hi => ?_) fun id i hi => hfits id i (List.mem_cons_of_mem _ hi)
    exact hfits id i (hi ▸ List.mem_cons_self)

/-! ### Known thieves -/

/-- Thieves are instructions of the pool. -/
def ThievesKnown (p : Pool) : Prop := ∀ id thief, p.stolenBy id = some thief → thief < p.size

/-- Pushing instructions leaves the links to thieves alone. -/
theorem stolenBy_foldl_push (instrs : List Instr) :
    (instrs.foldl push p).stolenBy a = p.stolenBy a := by
  induction instrs generalizing p with
  | nil => rfl
  | cons i rest ih => rw [List.foldl_cons, ih, stolenBy_push]

/-- Striking a jump out leaves the links to thieves alone. -/
theorem stolenBy_unlink : (p.unlink id).stolenBy a = p.stolenBy a := by
  unfold unlink
  split
  · exact stolenBy_modify fun _ => rfl
  · rfl

/-- Setting an operand leaves the links to thieves alone. -/
theorem stolenBy_setOperand (operand : Operand) :
    (p.setOperand id operand).stolenBy a = p.stolenBy a := stolenBy_modify fun _ => rfl

/-- Thieves stay known in a larger pool with the same links. -/
theorem ThievesKnown.congr (h : p.ThievesKnown) (hsize : p.size ≤ q.size)
    (hstolen : ∀ a, q.stolenBy a = p.stolenBy a) : q.ThievesKnown := by
  intro a t ht
  rw [hstolen] at ht
  exact Nat.lt_of_lt_of_le (h a t ht) hsize

/-- Handing jumps over to an instruction of the pool keeps thieves known. -/
theorem ThievesKnown.moveJumps (h : p.ThievesKnown) (hp : p.AllNoted) (hthief : thief < p.size) :
    (p.moveJumps thief victim).ThievesKnown := by
  intro a t ht
  rw [hp.size_moveJumps]
  by_cases hvictim : victim < p.size
  · rw [hp.stolenBy_moveJumps hvictim] at ht
    split at ht
    · cases ht
      exact hthief
    · exact h a t ht
  · -- There is no slot in which the thief could be noted.
    have hkeep : (p.moveJumps thief victim).stolenBy a = p.stolenBy a := by
      have hout : p.slots.size ≤ victim := Nat.le_of_not_lt hvictim
      rw [hp.moveJumps_eq, setStolenBy, stolenBy, Array.getElem?_modify]
      split
      · rename_i heq
        have hsize : ((p.targetOf victim).foldl link (p.redirect thief victim)).size = p.size := by
          rw [size_foldl_link, size_redirect]
        rw [← heq, Array.getElem?_eq_none (Nat.le_trans (Nat.le_of_eq hsize) hout), stolenBy,
          Array.getElem?_eq_none hout]
        rfl
      · exact (stolenBy_foldl_link _).trans stolenBy_redirect
    rw [hkeep] at ht
    exact h a t ht

/-- A deed keeps thieves known. -/
theorem Deed.Does.thievesKnown {d : Deed} (h : d.Does p q) (hp : p.AllNoted)
    (hthieves : p.ThievesKnown) : q.ThievesKnown := by
  cases h with
  | emitted hi =>
    refine hthieves.congr ?_ fun a => stolenBy_insert _
    rw [size_link, size_push]
    exact Nat.le_succ _
  | stole hthief => exact hthieves.moveJumps hp hthief
  | stoleOwn => exact hthieves

/-- So do deeds in a row. -/
theorem ThievesKnown.deeds (h : p.ThievesKnown) (hp : p.Consistent) (hds : Deeds p ds q)
    (hfits : ∀ id i, .emitted id i ∈ ds → i.operand.fits i.opcode.operandClass = true) :
    q.ThievesKnown := by
  induction hds with
  | nil => exact h
  | @cons p p' q d ds hd hds ih =>
    exact ih (hd.thievesKnown hp.notes h)
      (hp.does hd fun id i hi => hfits id i (hi ▸ List.mem_cons_self))
      fun id i hi => hfits id i (List.mem_cons_of_mem _ hi)

/-- So do the changes of calls. -/
theorem Change.thievesKnown (h : Change p q) (hp : p.Consistent) (hthieves : p.ThievesKnown) :
    q.ThievesKnown := by
  cases h with
  | insert hi =>
    refine hthieves.congr ?_ fun a => stolenBy_insert _
    rw [size_link, size_push]
    exact Nat.le_succ _
  | insertMany h =>
    refine hthieves.congr ?_ fun a => (stolenBy_foldl_link _).trans (stolenBy_foldl_push _)
    rw [size_foldl_link, size_foldl_push]
    exact Nat.le_add_right _ _
  | replace hold hnew =>
    refine hthieves.congr (Nat.le_of_eq ?_) fun a => ?_
    · rw [size_link, size_setOperand, size_unlink]
    · rw [stolenBy_link, stolenBy_setOperand, stolenBy_unlink]
  | steal hthief => exact hthieves.moveJumps hp.notes hthief
  | stealOwn => exact hthieves

/-- **Known thieves.** Whatever calls are made in a pool that began empty, thieves are instructions
    of the pool. -/
theorem thievesKnown_afterCalls (calls : List Call) : (afterCalls {} calls).ThievesKnown := by
  have hrun : ∀ p : Pool, p.Consistent → p.ThievesKnown → (p.afterCalls calls).ThievesKnown := by
    induction calls with
    | nil => exact fun p _ h => h
    | cons c rest ih =>
      intro p hp h
      refine ih _ (c.consistent_after hp) ?_
      unfold Call.after
      rcases c.failsOrChanges p with ⟨e, hrun⟩ | ⟨a, q, hrun, hchange⟩
      · rw [hrun]
        exact h
      · rw [hrun]
        exact hchange.thievesKnown hp h
  refine hrun {} consistent_empty fun id thief h => ?_
  simp [stolenBy] at h

end StackCode.Pool

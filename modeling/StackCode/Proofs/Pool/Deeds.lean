import StackCode.Proofs.Pool.Calls

namespace StackCode.Pool

/-!
# Deeds

Handlers and builders store instructions and hand jumps over in any order.  What they did is kept as
a list, and where a jump leads in the end is a fold over that list.  For a discipline in which no
thief is robbed in turn, the fold takes one step at most.

What was done to a pool, step by step, and what becomes of its jumps.

* `Deed` — an instruction that was stored, or jumps that were handed over.
* `Deeds` — the deeds that lead from one pool to another.
* `Deeds.target?_eq` — a jump leads to where the deeds, one after the other, pass its target on to.
* `passOn_eq` — when nobody robs a thief, a target is passed on once, to its first thief.
-/

variable {p q r : Pool} {d : Deed} {ds ds' : List Deed} {a id thief victim : Handle} {i : Instr}

/-- A step that was taken in a pool. -/
inductive Deed where
  | emitted (id : Handle) (i : Instr)
  | stole (thief victim : Handle)
  deriving DecidableEq

/-- What a deed makes of a pool. -/
inductive Deed.Does (p : Pool) : Deed → Pool → Prop where
  | emitted {i : Instr} (hi : ∀ t, i.target? = some t → t < p.size) :
      Does p (.emitted p.size i) ((p.push i).link p.size)
  | stole {thief victim : Handle} (hthief : thief < p.size) :
      Does p (.stole thief victim) (p.moveJumps thief victim)
  | stoleOwn {id : Handle} : Does p (.stole id id) p

/-- Storing an instruction is a deed, unless it fails and leaves the pool as it was. -/
theorem run_insert (p : Pool) (i : Instr) :
    (∃ e, (Pool.insert i).run p = .error e p) ∨
      ∃ id q, (Pool.insert i).run p = .ok id q ∧ (Deed.emitted id i).Does p q := by
  cases hcheck : checkTarget p.size i.operand with
  | error e => exact .inl ⟨e, by simp [Pool.insert, guarded, hcheck]⟩
  | ok _ =>
    refine .inr ⟨p.size, (p.push i).link p.size, ?_, .emitted (checkTarget_eq_ok.1 hcheck)⟩
    simp only [Pool.insert, guarded, hcheck, EStateM.run_bind, EStateM.run_get, EStateM.run_pure]
    rfl

/-- Handing over jumps is a deed, unless it fails and leaves the pool as it was. -/
theorem run_steal (p : Pool) (thief victim : Handle) :
    (∃ e, (Pool.steal thief victim).run p = .error e p) ∨
      ∃ q, (Pool.steal thief victim).run p = .ok () q ∧ (Deed.stole thief victim).Does p q := by
  cases hthief : checkBelow p.size thief with
  | error e => exact .inl ⟨e, by simp [Pool.steal, guarded, hthief]⟩
  | ok _ =>
    cases hvictim : checkBelow p.size victim with
    | error e => exact .inl ⟨e, by simp [Pool.steal, guarded, hthief, hvictim]⟩
    | ok _ =>
      by_cases hne : thief = victim
      · refine .inr ⟨p, ?_, hne ▸ .stoleOwn⟩
        simp [Pool.steal, guarded, hvictim, hne]
      · refine .inr ⟨p.moveJumps thief victim, ?_, .stole (checkBelow_eq_ok.1 hthief)⟩
        simp [Pool.steal, guarded, hthief, hvictim, hne]

/-- The deeds, one after the other, lead from the one pool to the other. -/
inductive Deeds : Pool → List Deed → Pool → Prop where
  | nil {p : Pool} : Deeds p [] p
  | cons {p q r : Pool} {d : Deed} {ds : List Deed} (hd : d.Does p q) (hds : Deeds q ds r) :
      Deeds p (d :: ds) r

/-- Deeds can be done one after the other. -/
theorem Deeds.append (h : Deeds p ds q) (h' : Deeds q ds' r) : Deeds p (ds ++ ds') r := by
  induction h with
  | nil => exact h'
  | cons hd _ ih => exact .cons hd (ih h')

/-! ### Passing on -/

/-- Where a jump to `t` leads after the deed. -/
def Deed.passOn : Deed → (t : Handle) → Handle
  | .emitted _ _, t => t
  | .stole thief victim, t => if t = victim then thief else t

/-- Where a jump to `t` leads after all the deeds. -/
def passOn (ds : List Deed) (t : Handle) : Handle := ds.foldl (fun t d => d.passOn t) t

/-- The first deed passes a target on to the deeds behind it. -/
theorem passOn_cons (d : Deed) (ds : List Deed) (t : Handle) :
    passOn (d :: ds) t = passOn ds (d.passOn t) := rfl

/-- **One deed.** Pools grow, their jumps stay noted, and what jumped to the victim jumps to the
    thief. -/
theorem Deed.Does.allNoted (h : d.Does p q) (hp : p.AllNoted) : q.AllNoted := by
  cases h with
  | emitted hi => exact hp.insert hi
  | stole hthief => exact hp.moveJumps hthief
  | stoleOwn => exact hp

/-- A deed does not shrink the pool. -/
theorem Deed.Does.size_le (h : d.Does p q) (hp : p.AllNoted) : p.size ≤ q.size := by
  cases h with
  | emitted hi =>
    rw [size_link, size_push]
    exact Nat.le_succ _
  | stole hthief => exact Nat.le_of_eq hp.size_moveJumps.symm
  | stoleOwn => exact Nat.le_refl _

/-- A deed passes the targets of old instructions on. -/
theorem Deed.Does.target?_eq (h : d.Does p q) (hp : p.AllNoted) (ha : a < p.size) :
    q.target? a = (p.target? a).map d.passOn := by
  cases h with
  | @emitted i hi =>
    have hkeep : ((p.push i).link p.size).target? a = p.target? a :=
      target?_congr (by rw [get?_insert, if_neg (Nat.ne_of_lt ha)])
    rw [hkeep]
    exact Option.map_id'.symm
  | stole hthief => exact hp.target?_moveJumps a
  | @stoleOwn id =>
    cases p.target? a with
    | none => rfl
    | some t =>
      rw [Option.map_some, Deed.passOn]
      split
      · rename_i heq
        rw [heq]
      · rfl

/-! ### Runs of deeds -/

/-- Jumps stay noted through all deeds. -/
theorem Deeds.allNoted (h : Deeds p ds q) (hp : p.AllNoted) : q.AllNoted := by
  induction h with
  | nil => exact hp
  | cons hd _ ih => exact ih (hd.allNoted hp)

/-- Deeds do not shrink the pool. -/
theorem Deeds.size_le (h : Deeds p ds q) (hp : p.AllNoted) : p.size ≤ q.size := by
  induction h with
  | nil => exact Nat.le_refl _
  | cons hd _ ih => exact Nat.le_trans (hd.size_le hp) (ih (hd.allNoted hp))

/-- **Jumps after deeds.** A jump leads to where the deeds pass its target on to. -/
theorem Deeds.target?_eq (h : Deeds p ds q) (hp : p.AllNoted) (ha : a < p.size) :
    q.target? a = (p.target? a).map (passOn ds) := by
  induction h with
  | nil => exact Option.map_id'.symm
  | cons hd _ ih =>
    rw [ih (hd.allNoted hp) (Nat.lt_of_lt_of_le ha (hd.size_le hp)), hd.target?_eq hp ha,
      Option.map_map]
    rfl

/-- An instruction that was stored is new, and one that does not jump never comes to. -/
theorem Deeds.emitted (h : Deeds p ds q) (hp : p.AllNoted) (hmem : .emitted id i ∈ ds) :
    p.size ≤ id ∧ id < q.size ∧ (i.target? = none → q.target? id = none) := by
  induction h with
  | nil => cases hmem
  | @cons p p' q d ds hd hds ih =>
    have hp' := hd.allNoted hp
    rcases List.mem_cons.1 hmem with rfl | hmem
    · cases hd with
      | emitted hi =>
        have hid : p.size < ((p.push i).link p.size).size := by
          rw [size_link, size_push]
          exact Nat.lt_succ_self _
        refine ⟨Nat.le_refl _, Nat.lt_of_lt_of_le hid (hds.size_le hp'), fun hnone => ?_⟩
        rw [hds.target?_eq hp' hid, target?, get?_insert, if_pos rfl, Option.bind_some, hnone,
          Option.map_none]
    · obtain ⟨hle, hlt, hjump⟩ := ih hp' hmem
      exact ⟨Nat.le_trans (hd.size_le hp) hle, hlt, hjump⟩

/-! ### Thieves -/

/-- The first instruction that the jumps to `t` were handed over to. -/
def firstThief? (ds : List Deed) (t : Handle) : Option Handle :=
  ds.findSome? fun
    | .stole thief victim => if victim = t then some thief else none
    | .emitted _ _ => none

/-- The first deed counts for its victim, and the others for the rest. -/
theorem firstThief?_stole (thief victim : Handle) (ds : List Deed) (t : Handle) :
    firstThief? (.stole thief victim :: ds) t =
      if victim = t then some thief else firstThief? ds t := by
  rw [firstThief?, List.findSome?_cons]
  dsimp only
  by_cases h : victim = t
  · rw [if_pos h, if_pos h]
  · rw [if_neg h, if_neg h]
    rfl

/-- The first thief of an instruction stole from it. -/
theorem stole_of_firstThief? {t : Handle} (h : firstThief? ds t = some thief) :
    .stole thief t ∈ ds := by
  obtain ⟨d, hd, hthief⟩ := List.exists_of_findSome?_eq_some h
  split at hthief
  · split at hthief
    · rename_i heq
      cases hthief
      exact heq ▸ hd
    · cases hthief
  · cases hthief

/-- Without a thief, nobody stole from the instruction. -/
theorem firstThief?_eq_none {t : Handle} :
    firstThief? ds t = none ↔ ∀ thief, .stole thief t ∉ ds := by
  constructor
  · intro h thief hmem
    have hnone := List.findSome?_eq_none_iff.1 h _ hmem
    simp at hnone
  · intro h
    cases hthief : firstThief? ds t with
    | none => rfl
    | some thief => exact absurd (stole_of_firstThief? hthief) (h thief)

/-- **First thieves.** When no thief is a victim as well, a target is passed on to its first thief
    and stays there. -/
theorem passOn_eq (h : ∀ thief victim, .stole thief victim ∈ ds → ∀ other, .stole other thief ∉ ds)
    (t : Handle) : passOn ds t = (firstThief? ds t).getD t := by
  induction ds generalizing t with
  | nil => rfl
  | cons d ds ih =>
    have hrest : ∀ t, passOn ds t = (firstThief? ds t).getD t := ih fun thief victim hmem other =>
      fun hother => h thief victim (List.mem_cons_of_mem _ hmem) other
        (List.mem_cons_of_mem _ hother)
    rw [passOn_cons, hrest]
    cases d with
    | emitted id i => rfl
    | stole thief victim =>
      rw [firstThief?_stole, Deed.passOn]
      by_cases heq : t = victim
      · -- Nobody robs the thief later on.
        have hnone : firstThief? ds thief = none := firstThief?_eq_none.2 fun other hother =>
          h thief victim List.mem_cons_self other (List.mem_cons_of_mem _ hother)
        rw [if_pos heq, if_pos heq.symm, hnone, Option.getD_none, Option.getD_some]
      · rw [if_neg heq, if_neg (Ne.symm heq)]

end StackCode.Pool
